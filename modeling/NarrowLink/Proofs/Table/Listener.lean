import NarrowLink.Proofs.Session.Life
import NarrowLink.Proofs.Table.Calls

/-!
# What a listener is told

A `Listener` learns of events, accepts connections or turns them away, and may take what waits for the
transmitter from inside the call that tells it of that.  All of this is up to it, and may depend on all
that it learned.  `Listener.owner` is the owner of a table that leaves the decisions to a listener, and
keeps a `Journal` of what it was told.

The journal is right about every connection of the table (`Honest`): what it says about the
connection's changes of state leads to the state that the connection is in.  While an owner is being
told of the changes that an operation made, the rest of them is yet to come (`Settled`).  Changes of
state come first, so the owner knows all of them before it is told of something that it may answer by a
call into the table.
-/

namespace NarrowLink.Connection

open Wire Table

variable {σ : Type}

/-- A listener whose own state is of type `σ`. -/
structure Listener (σ : Type) where
  /-- What it makes of an event. -/
  learn : Event → σ → σ
  /-- Whether it takes what waits for the transmitter on a port, now that it is told of it. -/
  takes : UInt8 → σ → Bool
  /-- What it makes of the packets that it took from a port. -/
  keep : UInt8 → List Packet → σ → σ
  /-- Whether a remote port may have a connection to a local one, and with which options. -/
  accept : (localPort remotePort : UInt8) → σ → Option Options × σ

/-- The state of a listener and what it was told so far, each event with the number of the connection
that was on its port then. -/
structure Journal (σ : Type) where
  mind : σ
  told : List (Option Nat × Event) := []

namespace Journal

/-- Notes an event. -/
def write (j : Journal σ) (serial? : Option Nat) (e : Event) : Journal σ :=
  { j with told := j.told ++ [(serial?, e)] }

/-- The changes of state of the connection with a number, in the order in which they were told. -/
def changesOf (j : Journal σ) (serial : Nat) : List Change :=
  changes ((j.told.filter fun n => n.1 == some serial).map Prod.snd)

theorem changesOf_write_of_eq (j : Journal σ) (serial : Nat) (e : Event) :
    (j.write (some serial) e).changesOf serial = j.changesOf serial ++ changes [e] := by
  simp [changesOf, write, changes_append]

theorem changesOf_write_of_ne (j : Journal σ) {serial : Nat} {serial? : Option Nat}
    (h : serial? ≠ some serial) (e : Event) : (j.write serial? e).changesOf serial = j.changesOf serial := by
  simp [changesOf, write, h]

theorem changesOf_write_of_not (j : Journal σ) (serial : Nat) (serial? : Option Nat) {e : Event}
    (h : e.isStateChange = false) : (j.write serial? e).changesOf serial = j.changesOf serial := by
  by_cases hs : serial? = some serial
  · have hnone : changes [e] = [] := by
      simp [changes, Event.change?_of_not h]
    rw [hs, changesOf_write_of_eq, hnone, List.append_nil]
  · exact changesOf_write_of_ne j hs e

end Journal

namespace Table

/-- The number of the connection on a port. -/
def serialOn (t : Table σ) (port : UInt8) : Option Nat := (t.entries.get port).map Entry.serial

theorem serialOn_eq_some_iff {t : Table σ} {port : UInt8} {k : Nat} :
    t.serialOn port = some k ↔ ∃ e, t.entries.get port = some e ∧ e.serial = k :=
  Option.map_eq_some_iff

theorem serialOn_set_self (t : Table σ) (port : UInt8) (serial nextSerial : Nat) (s : Session) :
    serialOn { t with
      entries := t.entries.set port (some ⟨serial, s⟩)
      nextSerial := nextSerial } port = some serial :=
  serialOn_eq_some_iff.2 ⟨_, ByteMap.get_set_self _ _ _, rfl⟩

theorem serialOn_set_of_ne (t : Table σ) {port q : UInt8} (e? : Option Entry) (nextSerial : Nat)
    (h : port ≠ q) :
    serialOn { t with entries := t.entries.set port e?, nextSerial := nextSerial } q = t.serialOn q := by
  unfold serialOn
  rw [ByteMap.get_set_of_ne _ _ h]

theorem remove_of_serialOn {t : Table σ} {port : UInt8} {serial : Nat} (h : t.serialOn port = some serial) :
    t.remove port serial = { t with entries := t.entries.set port none } := by
  obtain ⟨e, he, rfl⟩ := serialOn_eq_some_iff.1 h
  rw [remove, he]
  exact if_pos (by simp)

theorem remove_of_ne {t : Table σ} {port : UInt8} {serial : Nat} (h : t.serialOn port ≠ some serial) :
    t.remove port serial = t := by
  unfold remove
  refine if_neg fun hany => h ?_
  cases he : t.entries.get port with
  | none =>
    rw [he] at hany
    cases hany
  | some e =>
    rw [he] at hany
    exact serialOn_eq_some_iff.2 ⟨e, he, by simpa using hany⟩

/-- The journal notes an event, and the listener makes of it what it will. -/
def noting (t : Table (Journal σ)) (e : Event) (mind : σ) : Table (Journal σ) :=
  t.onOwner fun j => { j.write (t.serialOn e.port) e with mind := mind }

/-- The listener changes its mind. -/
def minding (t : Table (Journal σ)) (mind : σ) : Table (Journal σ) :=
  t.onOwner fun j => { j with mind := mind }

end Table

namespace Listener

variable (l : Listener σ)

/-- The listener learns of an event. -/
def note (e : Event) (t : Table (Journal σ)) : Table (Journal σ) :=
  t.noting e (l.learn e t.owner.mind)

/-- The listener decides about a connection. -/
def answer (localPort remotePort : UInt8) (t : Table (Journal σ)) :
    Option Options × Table (Journal σ) :=
  let (options, mind) := l.accept localPort remotePort t.owner.mind
  (options, t.minding mind)

/-- The listener as it behaves while it takes packets.  Taking packets raises nothing but changes of
state, so there is nothing to react to (`fetchOutbound_taking`). -/
def taking : Owner (Journal σ) where
  react := l.note
  decideOn := l.answer

/-- The listener learns of an event, and takes what waits for the transmitter if it wants to. -/
def react (e : Event) (t : Table (Journal σ)) : Table (Journal σ) :=
  let t := l.note e t
  match e with
  | .outboundAvailable port =>
    if l.takes port t.owner.mind then
      let (ps, t) := t.fetchOutbound l.taking port
      t.minding (l.keep port ps t.owner.mind)
    else t
  | _ => t

/-- The owner of a table that leaves the decisions to the listener. -/
def owner : Owner (Journal σ) where
  react := l.react
  decideOn := l.answer

theorem react_of_isStateChange {e : Event} (he : e.isStateChange = true) (t : Table (Journal σ)) :
    l.react e t = l.note e t := by
  cases e <;> first | rfl | cases he

end Listener

/-! ## Right about every connection -/

/-- The connections that are over once these events have happened to the connection with a number. -/
def finishedAfter (finished : Nat → Prop) (serial : Nat) (es : List Event) (k : Nat) : Prop :=
  finished k ∨ k = serial ∧ es.any Event.isDisconnect = true

/-- The stories once these events have happened to the connection with a number. -/
def storyAfter (story : Nat → List Change) (serial : Nat) (es : List Event) (k : Nat) : List Change :=
  story k ++ if k = serial then changes es else []

theorem storyAfter_self (story : Nat → List Change) (serial : Nat) (es : List Event) :
    storyAfter story serial es serial = story serial ++ changes es := by
  rw [storyAfter, if_pos rfl]

theorem storyAfter_of_ne (story : Nat → List Change) {serial k : Nat} (es : List Event)
    (h : k ≠ serial) : storyAfter story serial es k = story k := by
  rw [storyAfter, if_neg h, List.append_nil]

theorem finishedAfter_of_ne (finished : Nat → Prop) {serial k : Nat} (es : List Event) (h : k ≠ serial) :
    finishedAfter finished serial es k ↔ finished k :=
  or_iff_left fun hk => h hk.1

/-- The entry on a port, when the whole story of each connection is this one, and these connections are
over. -/
structure Resides (home : Nat → UInt8) (finished : Nat → Prop) (story : Nat → List Change) (bound : Nat)
    (port : UInt8) (e : Entry) : Prop where
  home : home e.serial = port
  lt_bound : e.serial < bound
  localPort : e.session.localPort = port
  told : e.session.events = []
  lives : Lives (story e.serial) e.session.state
  finished_iff : e.session.state = .disconnected ↔ finished e.serial

/-- The connections of a table have these stories, and those that have been removed have ended.  Each
connection has one home, and some are over though they are not removed yet. -/
structure Settled (home : Nat → UInt8) (finished : Nat → Prop) (story : Nat → List Change) (t : Table σ) :
    Prop where
  resides : ∀ port e, t.entries.get port = some e → Resides home finished story t.nextSerial port e
  ended : ∀ k < t.nextSerial, (∀ port, t.serialOn port ≠ some k) → Lives (story k) .disconnected
  fresh : ∀ k, t.nextSerial ≤ k → story k = []

/-- The journal of the owner tells the stories of all connections, and of nothing else. -/
structure Honest (home : Nat → UInt8) (finished : Nat → Prop) (t : Table (Journal σ)) : Prop where
  settled : Settled home finished t.owner.changesOf t
  tagged : ∀ n ∈ t.owner.told, n.2.isStateChange = true → ∃ k < t.nextSerial, n.1 = some k

/-- An owner that notes the changes of state in its journal, and leaves it to the table to make others. -/
structure Faithful (o : Owner (Journal σ)) : Prop where
  notes : ∀ e t, e.isStateChange = true → ∃ mind, o.react e t = t.noting e mind
  keeps : ∀ home finished e t, e.isStateChange = false → Honest home finished t →
    Honest home finished (o.react e t)
  minds : ∀ localPort remotePort t, ∃ mind, (o.decideOn localPort remotePort t).2 = t.minding mind

variable {home : Nat → UInt8} {finished : Nat → Prop} {t : Table (Journal σ)}

/-- The stories are about the connections, whatever the owner has in mind. -/
theorem Settled.onOwner {story : Nat → List Change} {τ : Type} {u : Table τ}
    (h : Settled home finished story u) (f : τ → τ) : Settled home finished story (u.onOwner f) :=
  ⟨h.resides, h.ended, h.fresh⟩

theorem Settled.eq_home {story : Nat → List Change} {τ : Type} {u : Table τ}
    (h : Settled home finished story u) {port : UInt8} {k : Nat} (hk : u.serialOn port = some k) :
    home k = port := by
  obtain ⟨e, he, rfl⟩ := Option.map_eq_some_iff.1 hk
  exact (h.resides port e he).home

/-- A connection is put on a port, where there was none or the same one before. -/
theorem Settled.set {story : Nat → List Change} {τ : Type} {u : Table τ} (h : Settled home finished story u)
    {port : UInt8} {serial bound : Nat} {s : Session} {es : List Event}
    (hs : Resides home (finishedAfter finished serial es) (storyAfter story serial es) bound port ⟨serial, s⟩)
    (hsame : ∀ q k, u.serialOn q = some k → (k = serial ↔ q = port)) (hle : u.nextSerial ≤ bound)
    (hbound : ∀ k < bound, k < u.nextSerial ∨ k = serial) :
    Settled home (finishedAfter finished serial es) (storyAfter story serial es)
      { u with entries := u.entries.set port (some ⟨serial, s⟩), nextSerial := bound } := by
  refine ⟨?_, ?_, ?_⟩
  · intro q e he
    rw [ByteMap.get_set] at he
    split at he
    · rename_i hq
      cases he
      exact hq ▸ hs
    · rename_i hq
      have hres := h.resides q e he
      have hne : e.serial ≠ serial := fun heq =>
        hq ((hsame q e.serial (serialOn_eq_some_iff.2 ⟨e, he, rfl⟩)).1 heq).symm
      refine ⟨hres.home, Nat.lt_of_lt_of_le hres.lt_bound hle, hres.localPort, hres.told, ?_, ?_⟩
      · rw [storyAfter_of_ne _ _ hne]
        exact hres.lives
      · exact hres.finished_iff.trans (finishedAfter_of_ne finished _ hne).symm
  · intro k hk hnone
    have hne : k ≠ serial := by
      rintro rfl
      exact hnone port (serialOn_set_self _ _ _ _ _)
    rw [storyAfter_of_ne _ _ hne]
    refine h.ended k ((hbound k hk).resolve_right hne) fun q hq => hnone q ?_
    have hother : port ≠ q := fun heq => hne ((hsame q k hq).2 heq.symm)
    exact (serialOn_set_of_ne _ _ _ hother).trans hq
  · intro k hk
    have hne : k ≠ serial := Nat.ne_of_gt (Nat.lt_of_lt_of_le hs.lt_bound hk)
    rw [storyAfter_of_ne _ _ hne]
    exact h.fresh k (Nat.le_trans hle hk)

theorem Honest.minding (h : Honest home finished t) (mind : σ) : Honest home finished (t.minding mind) :=
  ⟨h.settled.onOwner _, h.tagged⟩

/-- An event that is no change of state adds nothing to a story. -/
theorem Honest.noting (h : Honest home finished t) {e : Event} (he : e.isStateChange = false) (mind : σ) :
    Honest home finished (t.noting e mind) := by
  have hsame : (t.noting e mind).owner.changesOf = t.owner.changesOf :=
    funext fun k => Journal.changesOf_write_of_not t.owner k _ he
  refine ⟨?_, ?_⟩
  · rw [hsame]
    exact h.settled.onOwner _
  · intro n hn hchange
    rcases List.mem_append.1 hn with hn | hn
    · exact h.tagged n hn hchange
    · rw [List.mem_singleton.1 hn, he] at hchange
      cases hchange

/-- What is over is removed. -/
theorem Honest.remove {finished' : Nat → Prop} (h : Honest home finished' t) {port : UInt8} {serial : Nat}
    (hhome : home serial = port) (hfinished : ∀ k, finished' k ↔ finished k ∨ k = serial) :
    Honest home finished (t.remove port serial) := by
  have hport : ∀ q e, t.entries.get q = some e → e.serial = serial → q = port := by
    rintro q e he rfl
    exact (h.settled.resides q e he).home.symm.trans hhome
  have hother : ∀ q e, t.entries.get q = some e → e.serial ≠ serial →
      Resides home finished t.owner.changesOf t.nextSerial q e := by
    intro q e he hne
    have hres := h.settled.resides q e he
    exact { hres with finished_iff := hres.finished_iff.trans ((hfinished _).trans (or_iff_left hne)) }
  by_cases hon : t.serialOn port = some serial
  · rw [remove_of_serialOn hon]
    refine ⟨⟨?_, ?_, h.settled.fresh⟩, h.tagged⟩
    · intro q e he
      rw [ByteMap.get_set] at he
      split at he
      · cases he
      rename_i hq
      exact hother q e he fun heq => hq (hport q e he heq).symm
    · intro k hk hnone
      by_cases hserial : k = serial
      · obtain ⟨e, he, hes⟩ := serialOn_eq_some_iff.1 hon
        have hres := h.settled.resides port e he
        have hlives := hres.lives
        rwa [hes, hres.finished_iff.2 ((hfinished _).2 (.inr hes)), ← hserial] at hlives
      · refine h.settled.ended k hk fun q hq => hnone q ?_
        have hne : port ≠ q := by
          rintro rfl
          exact hserial (Option.some.inj (hq.symm.trans hon))
        exact (serialOn_set_of_ne _ _ _ hne).trans hq
  · rw [remove_of_ne hon]
    refine ⟨⟨?_, h.settled.ended, h.settled.fresh⟩, h.tagged⟩
    intro q e he
    refine hother q e he fun heq => hon ?_
    exact serialOn_eq_some_iff.2 ⟨e, hport q e he heq ▸ he, heq⟩

section

variable {o : Owner (Journal σ)} (ho : Faithful o)

include ho

/-- An owner that is told of changes of state notes all of them, and does nothing else. -/
theorem Faithful.noted {port : UInt8} {serial : Nat} (es : List Event)
    (hes : ∀ e ∈ es, e.isStateChange = true ∧ e.port = port) (t : Table (Journal σ))
    (hon : t.serialOn port = some serial) :
    ∃ j : Journal σ, es.foldl (fun t e => o.react e t) t = { t with owner := j } ∧
      j.changesOf = storyAfter t.owner.changesOf serial es ∧
      ∀ n ∈ j.told, n ∈ t.owner.told ∨ n.1 = some serial := by
  induction es generalizing t with
  | nil => exact ⟨t.owner, rfl, by funext k; simp [storyAfter, changes], fun n hn => .inl hn⟩
  | cons e es ih =>
    obtain ⟨hchange, hport⟩ := hes e List.mem_cons_self
    obtain ⟨mind, hnotes⟩ := ho.notes e t hchange
    obtain ⟨j, hfold, hstory, htold⟩ :=
      ih (fun e' he' => hes e' (List.mem_cons_of_mem _ he')) (t.noting e mind) hon
    have hserial : t.serialOn e.port = some serial := hport ▸ hon
    have hnoted : (t.noting e mind).owner.changesOf = (t.owner.write (some serial) e).changesOf := by
      rw [← hserial]
      rfl
    rw [List.foldl_cons, hnotes]
    refine ⟨j, hfold, ?_, ?_⟩
    · rw [hstory, hnoted]
      funext k
      by_cases hk : k = serial
      · rw [hk, storyAfter_self, storyAfter_self, Journal.changesOf_write_of_eq, List.append_assoc,
          ← changes_append, List.singleton_append]
      · rw [storyAfter_of_ne _ _ hk, storyAfter_of_ne _ _ hk]
        exact Journal.changesOf_write_of_ne _ (fun h => hk (Option.some.inj h).symm) _
    · intro n hn
      rcases htold n hn with hn | hn
      · rcases List.mem_append.1 hn with hn | hn
        · exact .inl hn
        · rw [List.mem_singleton.1 hn]
          exact .inr hserial
      · exact .inr hn

/-- Told of other events, the owner may call into the table. -/
theorem Faithful.kept (es : List Event) (hes : ∀ e ∈ es, e.isStateChange = false)
    (h : Honest home finished t) : Honest home finished (es.foldl (fun t e => o.react e t) t) :=
  List.foldlRecOn es _ h fun t h e he => ho.keeps home finished e t (hes e he) h

/-- Told of all that happened to a connection, the owner knows its whole story.  If the connection is
over, it is removed, unless the owner has seen to that itself. -/
theorem Faithful.tell {port : UInt8} {serial : Nat} {es : List Event}
    (hon : t.serialOn port = some serial) (hown : ∀ e ∈ es, e.port = port)
    (h : Settled home (finishedAfter finished serial es) (storyAfter t.owner.changesOf serial es) t)
    (htagged : ∀ n ∈ t.owner.told, n.2.isStateChange = true → ∃ k < t.nextSerial, n.1 = some k) :
    Honest home finished (t.tell o port serial (Event.stateFirst es)) := by
  -- the changes of state come first, and are noted
  obtain ⟨j, hfold, hstory, htold⟩ := ho.noted (es.filter Event.isStateChange)
    (fun e he => ⟨(List.mem_filter.1 he).2, hown e (List.mem_filter.1 he).1⟩) t hon
  have hnoted : Honest home (finishedAfter finished serial es) { t with owner := j } := by
    refine ⟨?_, ?_⟩
    · have hsame : j.changesOf = storyAfter t.owner.changesOf serial es := by
        rw [hstory]
        funext k
        rw [storyAfter, storyAfter, changes_filter_isStateChange]
      show Settled home _ j.changesOf _
      rw [hsame]
      exact h.onOwner fun _ => j
    · intro n hn hchange
      rcases htold n hn with hn | hn
      · exact htagged n hn hchange
      · obtain ⟨e, he, hes⟩ := serialOn_eq_some_iff.1 hon
        exact ⟨serial, hes ▸ (h.resides port e he).lt_bound, hn⟩
  -- then the owner may call into the table
  have hall : Honest home (finishedAfter finished serial es)
      ((Event.stateFirst es).foldl (fun t e => o.react e t) t) := by
    rw [Event.stateFirst, List.foldl_append, hfold]
    exact ho.kept _ (fun e he => by simpa using (List.mem_filter.1 he).2) hnoted
  have hany : (Event.stateFirst es).any Event.isDisconnect = es.any Event.isDisconnect := by
    rw [Bool.eq_iff_iff, any_isDisconnect_iff, any_isDisconnect_iff, changes_stateFirst]
  unfold Table.tell
  simp only [hany]
  split
  · rename_i hdisconnect
    exact hall.remove (h.eq_home hon) fun k => or_congr_right (and_iff_left hdisconnect)
  · rename_i hnot
    have hsame : finishedAfter finished serial es = finished :=
      funext fun k => propext (or_iff_left fun hk => hnot hk.2)
    rwa [hsame] at hall

/-- Whatever an operation does to a connection, the owner learns of it. -/
theorem Faithful.onSession {α : Type} (h : Honest home finished t) (port : UInt8) (f : Session → α × Session)
    (hf : ∀ s, s.events = [] → Turning s.state s.localPort (f s).2) :
    Honest home finished (t.onSession o port f).2 := by
  unfold Table.onSession
  split
  · exact h
  rename_i e he
  have hres := h.settled.resides port e he
  have hon : t.serialOn port = some e.serial := serialOn_eq_some_iff.2 ⟨e, he, rfl⟩
  have hturn := hf e.session hres.told
  rw [hres.localPort] at hturn
  -- a connection that was over already has nothing more to tell
  have hfinished : (f e.session).2.state = .disconnected ↔
      finishedAfter finished e.serial (f e.session).2.events e.serial := by
    rw [finishedAfter, ← hres.finished_iff, and_iff_right rfl, any_isDisconnect_iff]
    by_cases hs : e.session.state = .disconnected
    · have hleads := hturn.leads
      rw [hs] at hleads
      have hnone := hleads.nil_of_disconnected
      rw [hnone] at hleads
      exact iff_of_true hleads.symm (.inl hs)
    · rw [hturn.leads.eq_disconnected_iff hs]
      exact (or_iff_right hs).symm
  refine ho.tell (serialOn_set_self _ _ _ _ _) hturn.own
    (h.settled.set ⟨hres.home, hres.lt_bound, hturn.localPort, rfl, ?_, hfinished⟩ ?_ (Nat.le_refl _)
      fun k hk => .inl hk) h.tagged
  · rw [storyAfter_self]
    exact hres.lives.append hturn.leads
  · intro q k hq
    constructor
    · rintro rfl
      exact (h.settled.eq_home hq).symm.trans (h.settled.eq_home hon)
    · rintro rfl
      exact Option.some.inj (hq.symm.trans hon)

/-- The owner learns of a new connection. -/
theorem Faithful.enter (h : Honest home (fun _ => False) t) {port : UInt8} {s : Session}
    (hs : Born port s) (hfree : t.entries.get port = none) :
    ∃ home, Honest home (fun _ => False) (t.enter o port s) := by
  let home' : Nat → UInt8 := fun k => if k = t.nextSerial then port else home k
  have hhome : ∀ k < t.nextSerial, home' k = home k := fun k hk => if_neg (Nat.ne_of_lt hk)
  have hsettled : Settled home' (fun _ => False) t.owner.changesOf t := by
    refine ⟨fun q e he => ?_, h.settled.ended, h.settled.fresh⟩
    have hres := h.settled.resides q e he
    exact { hres with home := (hhome _ hres.lt_bound).trans hres.home }
  have hnone : s.events.any Event.isDisconnect = false := by
    rw [← Bool.not_eq_true, any_isDisconnect_iff, hs.changes]
    simp
  refine ⟨home', ho.tell (serialOn_set_self _ _ _ _ _) hs.own
    (hsettled.set ⟨if_pos rfl, Nat.lt_succ_self _, hs.localPort, rfl, ?_, ?_⟩ ?_ (Nat.le_succ _)
      fun k hk => Nat.lt_succ_iff_lt_or_eq.1 hk) ?_⟩
  · rw [storyAfter_self, h.settled.fresh _ (Nat.le_refl _), hs.changes]
    exact ⟨[], rfl, hs.state.symm⟩
  · rw [finishedAfter, hnone]
    show s.state = .disconnected ↔ _
    rw [hs.state]
    simp
  · intro q k hq
    obtain ⟨e, he, rfl⟩ := serialOn_eq_some_iff.1 hq
    refine iff_of_false (Nat.ne_of_lt (hsettled.resides q e he).lt_bound) ?_
    rintro rfl
    rw [hfree] at he
    cases he
  · intro n hn hchange
    obtain ⟨k, hk, hserial⟩ := h.tagged n hn hchange
    exact ⟨k, Nat.lt_succ_of_lt hk, hserial⟩

end

end NarrowLink.Connection

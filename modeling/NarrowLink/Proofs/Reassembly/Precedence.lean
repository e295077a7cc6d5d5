import Mathlib.Data.List.TakeWhile
import NarrowLink.Proofs.Reassembly.Backlog
import NarrowLink.Proofs.Reassembly.Lanes

/-!
# Which message comes first

A `Roll` follows a reassembly through calls and lists the complete messages that wait, in the order in
which they became complete.  Messages of connections are taken before all others, and the ports stand in
line with their first datagrams only, so a message is not always taken in its turn.  A message that is
passed over by one of another port is a datagram, and it is passed over by a message of a connection, or
it became complete behind another datagram of its port, or the port that is served still holds the place
in line of a message that has been displaced (`Roll.Passes`, `deliversInOrder_iff`).
-/

namespace NarrowLink.Reassembly

open Wire

/-- A complete message that waits. -/
structure Waiting where
  kind : Kind
  port : UInt8
  content : List UInt8
  /-- It became complete behind another datagram of its port. -/
  behind : Bool
deriving DecidableEq

namespace Waiting

def isDatagramOf (port : UInt8) (w : Waiting) : Bool := decide (w.kind = .datagram ∧ w.port = port)

def isHandover (w : Waiting) : Bool := decide (w.kind = .connection)

/-- The datagrams of a port, all of them complete, and all but the first behind another one. -/
def ofBacklog (port : UInt8) : List (List UInt8) → List Waiting
  | [] => []
  | m :: ms => ⟨.datagram, port, m, false⟩ :: ms.map fun m => ⟨.datagram, port, m, true⟩

end Waiting

/-- A reassembly, and the messages that wait to be taken. -/
structure Roll where
  state : Reassembly
  /-- The complete messages, in the order in which they became so. -/
  waiting : List Waiting
  /-- The port has lost a complete message since it was announced. -/
  displaced : ByteMap Bool

namespace Roll

open Waiting

/-- The messages that still wait when something has happened on a port, and those that are complete on it
now. -/
def joined (r : Reassembly) (port : UInt8) (kept : List Waiting) : List Waiting :=
  kept ++ (ofBacklog port (r.backlog port)).drop (kept.countP (isDatagramOf port))

/-- Something is asked of the reassembly. -/
def act (c : Roll) : Call → Roll
  | .push p =>
    let r := (c.state.push p).2
    if r.awaited.get p.port = c.state.awaited.get p.port then
      { c with state := r, waiting := joined r p.port c.waiting }
    else
      -- what stood at the front of the port is discarded
      { state := r
        waiting := joined r p.port (c.waiting.eraseP (isDatagramOf p.port))
        displaced :=
          if c.state.isComplete p.port then c.displaced.set p.port true else c.displaced }
  | .append p =>
    { c with
      state := c.state.append p
      waiting := c.waiting ++
        (c.state.ended (.append p)).map fun m => ⟨.connection, m.1, m.2, false⟩ }
  | .take =>
    match c.state.take with
    | (none, r) => { c with state := r }
    | (some m, r) =>
      if c.state.finished.isEmpty then
        { state := r
          waiting := joined r m.1 (c.waiting.eraseP (isDatagramOf m.1))
          displaced := c.displaced.set m.1 false }
      else { c with state := r, waiting := c.waiting.eraseP isHandover }

/-- The reassembly and the messages that wait after a run of calls. -/
def after (config : Config) (calls : List Call) : Roll :=
  calls.foldl act ⟨new config, [], .const false⟩

/-- The messages among which a take finds the one that it hands out, if that is of some port. -/
def picks (c : Roll) (port : UInt8) : Waiting → Bool :=
  if c.state.finished.isEmpty then isDatagramOf port else isHandover

/-- The message that is taken next, if it is a complete one. -/
def next (c : Roll) : Option Waiting :=
  c.state.take.1.bind fun m => c.waiting.find? (c.picks m.1)

/-- The messages that became complete before the one that is taken next. -/
def earlier (c : Roll) : List Waiting :=
  match c.state.take.1 with
  | none => []
  | some m => c.waiting.takeWhile fun w => !c.picks m.1 w

/-- No message of another port became complete before the one that is taken next. -/
def InOrder (c : Roll) : Prop := ∀ w, c.next = some w → ∀ v ∈ c.earlier, v.port = w.port

/-- The message `w` is taken before the datagram `v` of another port for one of three reasons: it is of a
connection, or `v` stood behind another datagram of its port when it became complete, or the port of `w`
was announced for a message that has been displaced. -/
def Passes (c : Roll) (w v : Waiting) : Prop :=
  v.kind = .datagram ∧ v.port ≠ w.port ∧
    (w.kind = .connection ∨ v.behind = true ∨ c.displaced.get w.port = true)

/-- The list is the list of the complete messages, those of connections and those of each port in the
order in which they are taken, and what is taken is one of them unless it is incomplete. -/
structure Lists (c : Roll) (r : Reassembly) : Prop where
  state : c.state = r
  connections : (c.waiting.filter isHandover).map (fun w => (w.port, w.content)) = r.finished
  datagrams : ∀ port, (c.waiting.filter (isDatagramOf port)).map Waiting.content = r.backlog port
  taken : ∀ w, c.next = some w → r.take.1 = some (w.port, w.content)
  incomplete : ∀ m, r.take.1 = some m → c.next = none →
    r.finished = [] ∧ r.isComplete m.1 = false ∧ c.displaced.get m.1 = true

end Roll

/-- In a run of calls, no message is taken before one of another port that became complete earlier. -/
def DeliversInOrder (config : Config) (calls : List Call) : Prop :=
  ∀ before later, calls = before ++ .take :: later → (Roll.after config before).InOrder

/-! ## Lists -/

section

variable {α : Type} {f g : α → Bool} {l m : List α}

theorem filter_eraseP_of_not (h : ∀ x, f x = true → g x = false) :
    (l.eraseP f).filter g = l.filter g := by
  induction l with
  | nil => rfl
  | cons x l ih =>
    by_cases hf : f x = true
    · rw [List.eraseP_cons_of_pos hf, List.filter_cons_of_neg (by simp [h x hf])]
    · rw [List.eraseP_cons_of_neg hf, List.filter_cons, List.filter_cons, ih]

theorem filter_eraseP_self : (l.eraseP f).filter f = (l.filter f).tail := by
  induction l with
  | nil => rfl
  | cons x l ih =>
    by_cases hf : f x = true
    · rw [List.eraseP_cons_of_pos hf, List.filter_cons_of_pos hf, List.tail_cons]
    · rw [List.eraseP_cons_of_neg hf, List.filter_cons_of_neg hf, List.filter_cons_of_neg hf, ih]

theorem takeWhile_eraseP_sublist (h : ∀ x, f x = true → g x = true) :
    ((l.eraseP f).takeWhile g).Sublist (l.takeWhile g) := by
  induction l with
  | nil => exact .slnil
  | cons x l ih =>
    by_cases hf : f x = true
    · rw [List.eraseP_cons_of_pos hf, List.takeWhile_cons_of_pos (h x hf)]
      exact List.sublist_cons_self _ _
    · rw [List.eraseP_cons_of_neg hf]
      by_cases hg : g x = true
      · rw [List.takeWhile_cons_of_pos hg, List.takeWhile_cons_of_pos hg]
        exact ih.cons_cons x
      · rw [List.takeWhile_cons_of_neg hg]
        exact List.nil_sublist _

/-- What comes behind the first one that ends it makes no difference. -/
theorem takeWhile_append_of_exists (h : ∃ x ∈ l, g x = false) :
    (l ++ m).takeWhile g = l.takeWhile g := by
  rw [List.takeWhile_append, if_neg]
  intro hlen
  obtain ⟨x, hx, hg⟩ := h
  rw [← (List.takeWhile_sublist g).eq_of_length hlen] at hx
  rw [List.mem_takeWhile_imp hx] at hg
  cases hg

end

/-! ## What every call preserves -/

namespace Waiting

variable {port other : UInt8} {w : Waiting} {ms : List (List UInt8)}

theorem isDatagramOf_iff : w.isDatagramOf port = true ↔ w.kind = .datagram ∧ w.port = port :=
  decide_eq_true_iff

theorem isHandover_iff : w.isHandover = true ↔ w.kind = .connection := decide_eq_true_iff

theorem kind_of_not_isHandover (h : w.isHandover = false) : w.kind = .datagram := by
  cases hkind : w.kind with
  | datagram => rfl
  | connection =>
    rw [isHandover_iff.2 hkind] at h
    cases h

theorem isHandover_of_isDatagramOf (h : w.isDatagramOf port = true) : w.isHandover = false := by
  rw [isHandover, (isDatagramOf_iff.1 h).1]
  rfl

theorem isDatagramOf_of_isHandover (port : UInt8) (h : w.isHandover = true) :
    w.isDatagramOf port = false := by
  rw [isDatagramOf, isHandover_iff.1 h]
  rfl

theorem isDatagramOf_of_ne (hne : port ≠ other) (h : w.isDatagramOf port = true) :
    w.isDatagramOf other = false := by
  refine decide_eq_false fun hother => hne ?_
  rw [← (isDatagramOf_iff.1 h).2, hother.2]

theorem isDatagramOf_of_mem (h : w ∈ ofBacklog port ms) : w.isDatagramOf port = true := by
  cases ms with
  | nil => exact absurd h List.not_mem_nil
  | cons m ms =>
    refine isDatagramOf_iff.2 ?_
    rcases List.mem_cons.1 h with rfl | h
    · exact ⟨rfl, rfl⟩
    · obtain ⟨m, -, rfl⟩ := List.mem_map.1 h
      exact ⟨rfl, rfl⟩

theorem map_content_ofBacklog (port : UInt8) (ms : List (List UInt8)) :
    (ofBacklog port ms).map content = ms := by
  cases ms with
  | nil => rfl
  | cons m ms => simp [ofBacklog, Function.comp_def]

theorem behind_of_mem_tail (h : w ∈ (ofBacklog port ms).tail) : w.behind = true := by
  cases ms with
  | nil => exact absurd h List.not_mem_nil
  | cons m ms =>
    obtain ⟨m, -, rfl⟩ := List.mem_map.1 h
    rfl

end Waiting

namespace Roll

open Waiting

variable {config : Config} {c : Roll} {port other : UInt8} {v w : Waiting}

/-- No datagram of the port `q` became complete in front of its port and before the first one of `p`,
unless the place of `p` in line is an old one. -/
def Precedes (c : Roll) (p q : UInt8) : Prop :=
  c.displaced.get p = true ∨
    ∀ v ∈ c.waiting.takeWhile fun w => !w.isDatagramOf p, v.isDatagramOf q = true → v.behind = true

/-- What is known of a roll between two calls. -/
structure Sound (config : Config) (c : Roll) : Prop where
  standing : c.state.Standing config
  heralded : c.state.Heralded
  connections : (c.waiting.filter isHandover).map (fun w => (w.port, w.content)) = c.state.finished
  datagrams : ∀ port, (c.waiting.filter (isDatagramOf port)).map Waiting.content = c.state.backlog port
  behind : ∀ port, ∀ v ∈ (c.waiting.filter (isDatagramOf port)).tail, v.behind = true
  announced : ∀ port ∈ c.state.announced,
    c.state.isComplete port = true ∨ c.displaced.get port = true
  line : c.state.announced.Pairwise c.Precedes

theorem sound_new (config : Config) : Sound config ⟨new config, [], .const false⟩ where
  standing := standing_new config
  heralded port h := by
    rw [((exact_new config).mem_iff port)]
    exact h
  connections := rfl
  datagrams port := by
    refine (backlog_eq_nil_iff.2 ?_).symm
    rw [isComplete, new, Queue.packets_empty]
    rfl
  behind _ _ hv := absurd hv List.not_mem_nil
  announced _ h := absurd h List.not_mem_nil
  line := .nil

/-- The first datagram of a port with a complete message is on the list. -/
theorem Sound.exists_of_isComplete (h : c.Sound config) (hc : c.state.isComplete port = true) :
    ∃ w ∈ c.waiting, w.isDatagramOf port = true := by
  have hne : c.waiting.filter (isDatagramOf port) ≠ [] := by
    intro hnil
    have hbacklog := h.datagrams port
    rw [hnil] at hbacklog
    rw [backlog_eq_nil_iff.1 hbacklog.symm] at hc
    cases hc
  obtain ⟨w, hw⟩ := List.exists_mem_of_ne_nil _ hne
  exact ⟨w, List.mem_filter.1 hw⟩

/-- A port with a datagram on the list has a complete message. -/
theorem Sound.isComplete_of_mem (h : c.Sound config) (hw : w ∈ c.waiting)
    (hport : w.isDatagramOf port = true) : c.state.isComplete port = true := by
  rw [← Bool.not_eq_false, ← backlog_eq_nil_iff, ← h.datagrams port, List.map_eq_nil_iff]
  exact List.ne_nil_of_mem (List.mem_filter.2 ⟨hw, hport⟩)

/-- Something happens on one port of a roll: `kept` of its messages still wait, and `line` of the ports
that were announced. -/
structure Touches (config : Config) (c : Roll) (port : UInt8) (kept : List Waiting) (line : List UInt8)
    (c' : Roll) : Prop where
  waiting : c'.waiting = joined c'.state port kept
  left : kept = c.waiting ∨ kept = c.waiting.eraseP (isDatagramOf port)
  standing : c'.state.Standing config
  finished : c'.state.finished = c.state.finished
  others : ∀ other, other ≠ port → c'.state.backlog other = c.state.backlog other
  backlog : (kept.filter (isDatagramOf port)).map Waiting.content <+: c'.state.backlog port
  front : line.Sublist c.state.announced
  stays : ∀ other, other ≠ port → other ∈ c.state.announced → other ∈ line
  announced : c'.state.announced =
    if port ∉ line ∧ c'.state.isComplete port = true then line ++ [port] else line
  displaced : ∀ other, other ≠ port → c'.displaced.get other = c.displaced.get other
  /-- A port that keeps its place in line keeps its first message, or else has lost one. -/
  place : port ∈ line → c'.displaced.get port = true ∨
    c.displaced.get port = false ∧ c.state.isComplete port = true ∧ kept = c.waiting
  /-- What is left on a port that goes to the end of the line stood behind another message. -/
  newcomer : port ∉ line → ∀ v ∈ kept, v.isDatagramOf port = true → v.behind = true

namespace Touches

variable {kept : List Waiting} {line : List UInt8} {c' : Roll}

theorem filter_kept (h : Touches config c port kept line c') {f : Waiting → Bool}
    (hf : ∀ x : Waiting, x.isDatagramOf port = true → f x = false) :
    kept.filter f = c.waiting.filter f := by
  rcases h.left with rfl | rfl
  · rfl
  · exact filter_eraseP_of_not hf

/-- What is new on the list are datagrams of the port. -/
theorem filter_waiting (h : Touches config c port kept line c') {f : Waiting → Bool}
    (hf : ∀ x : Waiting, x.isDatagramOf port = true → f x = false) :
    c'.waiting.filter f = c.waiting.filter f := by
  have hnew : ((ofBacklog port (c'.state.backlog port)).drop
      (kept.countP (isDatagramOf port))).filter f = [] := by
    refine List.filter_eq_nil_iff.2 fun x hx => ?_
    rw [hf x (isDatagramOf_of_mem (List.mem_of_mem_drop hx))]
    exact Bool.false_ne_true
  rw [h.waiting, joined, List.filter_append, h.filter_kept hf, hnew, List.append_nil]

theorem filter_port (h : Touches config c port kept line c') :
    c'.waiting.filter (isDatagramOf port) = kept.filter (isDatagramOf port) ++
      (ofBacklog port (c'.state.backlog port)).drop (kept.filter (isDatagramOf port)).length := by
  rw [h.waiting, joined, List.filter_append, List.countP_eq_length_filter]
  congr 1
  exact List.filter_eq_self.2 fun x hx => isDatagramOf_of_mem (List.mem_of_mem_drop hx)

theorem isComplete (h : Touches config c port kept line c') (hne : other ≠ port) :
    c'.state.isComplete other = c.state.isComplete other := by
  have hbacklog := h.others other hne
  rw [Bool.eq_iff_iff, ← not_iff_not, Bool.not_eq_true, Bool.not_eq_true, ← backlog_eq_nil_iff,
    ← backlog_eq_nil_iff, hbacklog]

theorem mem_announced (h : Touches config c port kept line c') :
    other ∈ c'.state.announced ↔
      other ∈ line ∨ other = port ∧ port ∉ line ∧ c'.state.isComplete port = true := by
  rw [h.announced]
  split
  · rename_i hnew
    simp [hnew]
  · rename_i hold
    exact (or_iff_left fun hboth => hold hboth.2).symm

/-- What became complete before the first datagram of another port did so before as well. -/
theorem takeWhile_subset (h : Touches config c port kept line c') (hs : c.Sound config)
    (hne : other ≠ port) (hc : c.state.isComplete other = true) :
    ∀ v ∈ c'.waiting.takeWhile fun w => !w.isDatagramOf other,
      v ∈ kept ∧ v ∈ c.waiting.takeWhile fun w => !w.isDatagramOf other := by
  intro v hv
  have hexists : ∃ w ∈ kept, (!w.isDatagramOf other) = false := by
    obtain ⟨w, hw, hport⟩ := hs.exists_of_isComplete hc
    have hmem : w ∈ kept.filter (isDatagramOf other) := by
      rw [h.filter_kept fun x hx => isDatagramOf_of_ne (Ne.symm hne) hx]
      exact List.mem_filter.2 ⟨hw, hport⟩
    exact ⟨w, (List.mem_filter.1 hmem).1, by rw [hport]; rfl⟩
  rw [h.waiting, joined, takeWhile_append_of_exists hexists] at hv
  refine ⟨(List.takeWhile_sublist _).subset hv, ?_⟩
  rcases h.left with rfl | rfl
  · exact hv
  · refine (takeWhile_eraseP_sublist fun x hx => ?_).subset hv
    rw [isDatagramOf_of_ne (Ne.symm hne) hx]
    rfl

theorem datagrams (h : Touches config c port kept line c') (hs : c.Sound config) (other : UInt8) :
    (c'.waiting.filter (isDatagramOf other)).map Waiting.content = c'.state.backlog other := by
  by_cases hne : other = port
  · subst hne
    have hpart := List.prefix_iff_eq_append.1 h.backlog
    rw [h.filter_port, List.map_append, List.map_drop, map_content_ofBacklog]
    rwa [List.length_map] at hpart
  · rw [h.filter_waiting fun x hx => isDatagramOf_of_ne (Ne.symm hne) hx, hs.datagrams, h.others other hne]

theorem behind (h : Touches config c port kept line c') (hs : c.Sound config) (other : UInt8) :
    ∀ v ∈ (c'.waiting.filter (isDatagramOf other)).tail, v.behind = true := by
  by_cases hne : other = port
  · subst hne
    intro v hv
    have hkept : ∀ v ∈ (kept.filter (isDatagramOf other)).tail, v.behind = true := by
      rcases h.left with rfl | rfl
      · exact hs.behind other
      · rw [filter_eraseP_self]
        exact fun v hv => hs.behind other v (List.mem_of_mem_tail hv)
    rw [h.filter_port] at hv
    cases hfirst : kept.filter (isDatagramOf other) with
    | nil =>
      rw [hfirst] at hv
      exact behind_of_mem_tail hv
    | cons w ws =>
      rw [hfirst] at hv hkept
      rw [List.cons_append, List.tail_cons, List.mem_append] at hv
      rcases hv with hv | hv
      · exact hkept v hv
      · -- there is a message in front of all that are new
        rw [List.length_cons, ← List.drop_tail] at hv
        exact behind_of_mem_tail (List.mem_of_mem_drop hv)
  · rw [h.filter_waiting fun x hx => isDatagramOf_of_ne (Ne.symm hne) hx]
    exact hs.behind other

theorem precedes (h : Touches config c port kept line c') (hs : c.Sound config) {p q : UInt8}
    (hp : p ∈ line) (hprecedes : c.Precedes p q) : c'.Precedes p q := by
  by_cases hne : p = port
  · subst hne
    rcases h.place hp with hdisplaced | ⟨hplace, hc, rfl⟩
    · exact .inl hdisplaced
    · rcases hprecedes with hdisplaced | hall
      · rw [hplace] at hdisplaced
        cases hdisplaced
      · obtain ⟨w, hw, hport⟩ := hs.exists_of_isComplete hc
        refine .inr ?_
        rwa [h.waiting, joined, takeWhile_append_of_exists ⟨w, hw, by rw [hport]; rfl⟩]
  · rcases hprecedes with hdisplaced | hall
    · exact .inl (by rwa [h.displaced p hne])
    · rcases hs.announced p (h.front.subset hp) with hc | hdisplaced
      · exact .inr fun v hv => hall v (h.takeWhile_subset hs hne hc v hv).2
      · exact .inl (by rwa [h.displaced p hne])

theorem sound (h : Touches config c port kept line c') (hs : c.Sound config) : c'.Sound config where
  standing := h.standing
  heralded other hc := by
    rw [h.mem_announced]
    by_cases hne : other = port
    · subst hne
      by_cases hmem : other ∈ line
      · exact .inl hmem
      · exact .inr ⟨rfl, hmem, hc⟩
    · rw [h.isComplete hne] at hc
      exact .inl (h.stays other hne (hs.heralded other hc))
  connections := by
    rw [h.filter_waiting fun _ => isHandover_of_isDatagramOf, hs.connections, h.finished]
  datagrams := h.datagrams hs
  behind := h.behind hs
  announced other hmem := by
    rcases h.mem_announced.1 hmem with hmem | ⟨rfl, -, hc⟩
    · by_cases hne : other = port
      · subst hne
        rcases h.place hmem with hdisplaced | ⟨-, hc, rfl⟩
        · exact .inr hdisplaced
        · refine .inl ?_
          obtain ⟨w, hw, hport⟩ := hs.exists_of_isComplete hc
          rw [← Bool.not_eq_false, ← backlog_eq_nil_iff]
          intro hnil
          have hpart := h.backlog
          rw [hnil, List.prefix_nil, List.map_eq_nil_iff] at hpart
          exact List.ne_nil_of_mem (List.mem_filter.2 ⟨hw, hport⟩) hpart
      · rw [h.isComplete hne, h.displaced other hne]
        exact hs.announced other (h.front.subset hmem)
    · exact .inl hc
  line := by
    have hline : line.Pairwise c'.Precedes :=
      (hs.line.sublist h.front).imp_of_mem fun hp _ => h.precedes hs hp
    rw [h.announced]
    split
    · rename_i hnew
      refine List.pairwise_append.2 ⟨hline, List.pairwise_singleton _ _, fun p hp q hq => ?_⟩
      rw [List.mem_singleton.1 hq]
      have hne : p ≠ port := fun he => hnew.1 (he ▸ hp)
      rcases hs.announced p (h.front.subset hp) with hc | hdisplaced
      · exact .inr fun v hv => h.newcomer hnew.1 v (h.takeWhile_subset hs hne hc v hv).1
      · exact .inl (by rwa [h.displaced p hne])
    · exact hline

end Touches

/-! ### The calls -/

theorem finished_push (r : Reassembly) (p : Packet) : (r.push p).2.finished = r.finished := by
  obtain ⟨_, _, _, he⟩ := push_fields r p
  rw [he]

/-- A port with a datagram on the list is announced. -/
theorem Sound.announced_of_mem (h : c.Sound config) (hw : w ∈ c.waiting)
    (hport : w.isDatagramOf port = true) : port ∈ c.state.announced :=
  h.heralded port (h.isComplete_of_mem hw hport)

/-- A datagram comes in, and what is complete on its port stays so. -/
theorem Sound.touches_kept (h : c.Sound config) {p : Packet}
    (hsame : (c.state.push p).2.awaited.get p.port = c.state.awaited.get p.port)
    (hpart : c.state.backlog p.port <+: (c.state.push p).2.backlog p.port) :
    Touches config c p.port c.waiting c.state.announced (c.act (.push p)) := by
  have hact : c.act (.push p) = { c with
      state := (c.state.push p).2
      waiting := joined (c.state.push p).2 p.port c.waiting } := if_pos hsame
  have hplace : p.port ∈ c.state.announced → c.displaced.get p.port = true ∨
      c.displaced.get p.port = false ∧ c.state.isComplete p.port = true := by
    intro hmem
    by_cases hd : c.displaced.get p.port = true
    · exact .inl hd
    · exact .inr ⟨Bool.not_eq_true _ ▸ hd, (h.announced p.port hmem).resolve_right hd⟩
  rw [hact]
  exact {
    waiting := rfl
    left := .inl rfl
    standing := h.standing.apply (.push p)
    finished := finished_push _ _
    others := fun other hne => backlog_congr (push_of_ne hne).1 (push_of_ne hne).2
    backlog := by rwa [h.datagrams]
    front := .refl _
    stays := fun _ _ hmem => hmem
    announced := announced_push h.heralded p
    displaced := fun _ _ => rfl
    place := fun hmem => (hplace hmem).imp_right fun hkept => ⟨hkept.1, hkept.2, rfl⟩
    newcomer := fun hn v hv hport => absurd (h.announced_of_mem hv hport) hn }

/-- A datagram comes in, and what stood at the front of its port is discarded. -/
theorem Sound.touches_displaced (h : c.Sound config) {p : Packet}
    (hgone : (c.state.push p).2.awaited.get p.port ≠ c.state.awaited.get p.port)
    (hpart : (c.state.backlog p.port).tail <+: (c.state.push p).2.backlog p.port) :
    Touches config c p.port (c.waiting.eraseP (isDatagramOf p.port)) c.state.announced
      (c.act (.push p)) := by
  let displaced := if c.state.isComplete p.port then c.displaced.set p.port true else c.displaced
  have hact : c.act (.push p) = {
      state := (c.state.push p).2
      waiting := joined (c.state.push p).2 p.port (c.waiting.eraseP (isDatagramOf p.port))
      displaced := displaced } := if_neg hgone
  have hothers : ∀ other, other ≠ p.port → displaced.get other = c.displaced.get other := by
    intro other hne
    unfold displaced
    split
    · exact ByteMap.get_set_of_ne _ _ (Ne.symm hne)
    · rfl
  have hplace : p.port ∈ c.state.announced → displaced.get p.port = true := by
    intro hmem
    unfold displaced
    split
    · exact ByteMap.get_set_self _ _ _
    · rename_i hc
      exact (h.announced p.port hmem).resolve_left hc
  rw [hact]
  exact {
    waiting := rfl
    left := .inr rfl
    standing := h.standing.apply (.push p)
    finished := finished_push _ _
    others := fun other hne => backlog_congr (push_of_ne hne).1 (push_of_ne hne).2
    backlog := by rwa [filter_eraseP_self, List.map_tail, h.datagrams]
    front := .refl _
    stays := fun _ _ hmem => hmem
    announced := announced_push h.heralded p
    displaced := hothers
    place := fun hmem => .inl (hplace hmem)
    newcomer := fun hn v hv hport =>
      absurd (h.announced_of_mem (List.mem_of_mem_eraseP hv) hport) hn }

theorem Sound.push (h : c.Sound config) (p : Packet) : (c.act (.push p)).Sound config := by
  rcases push_backlog h.standing.ordered p with ⟨hsame, hpart⟩ | ⟨hgone, hpart⟩
  · exact (h.touches_kept hsame hpart).sound h
  · exact (h.touches_displaced hgone hpart).sound h

/-- Something happens to the messages of connections only. -/
theorem Sound.of_same (h : c.Sound config) {r : Reassembly} {waiting : List Waiting}
    (standing : r.Standing config) (queue : r.queue = c.state.queue)
    (awaited : r.awaited = c.state.awaited) (announced : r.announced = c.state.announced)
    (connections : (waiting.filter isHandover).map (fun w => (w.port, w.content)) = r.finished)
    (datagrams : ∀ port,
      waiting.filter (isDatagramOf port) = c.waiting.filter (isDatagramOf port))
    (front : ∀ port, c.state.isComplete port = true →
      (waiting.takeWhile fun w => !w.isDatagramOf port) ⊆
        c.waiting.takeWhile fun w => !w.isDatagramOf port) :
    Sound config { c with state := r, waiting := waiting } := by
  have hcomplete : ∀ port, r.isComplete port = c.state.isComplete port := fun port => by
    rw [isComplete, isComplete, queue, awaited]
  refine ⟨standing, fun port hc => ?_, connections, fun port => ?_, fun port => ?_,
    fun port hmem => ?_, ?_⟩
  · show port ∈ r.announced
    rw [announced]
    exact h.heralded port (hcomplete port ▸ hc)
  · rw [datagrams, h.datagrams]
    exact (backlog_congr (by rw [queue]) (by rw [awaited])).symm
  · rw [datagrams]
    exact h.behind port
  · rw [hcomplete]
    exact h.announced port (announced ▸ hmem)
  · show r.announced.Pairwise _
    rw [announced]
    refine h.line.imp_of_mem fun {p q} hp _ hprecedes => ?_
    rcases hprecedes with hdisplaced | hall
    · exact .inl hdisplaced
    · rcases h.announced p hp with hc | hdisplaced
      · exact .inr fun v hv => hall v (front p hc hv)
      · exact .inl hdisplaced

theorem Sound.append (h : c.Sound config) (p : Packet) : (c.act (.append p)).Sound config := by
  let more : List Waiting := (c.state.ended (.append p)).map fun m => ⟨.connection, m.1, m.2, false⟩
  have hmore : ∀ w ∈ more, w.isHandover = true := by
    intro w hw
    obtain ⟨m, -, rfl⟩ := List.mem_map.1 hw
    rfl
  have hstate := append_eq c.state p
  have hconnections : ((c.waiting ++ more).filter isHandover).map (fun w => (w.port, w.content)) =
      (c.state.append p).finished := by
    rw [hstate, List.filter_append, List.map_append, h.connections, List.filter_eq_self.2 hmore,
      List.map_map]
    congr 1
    exact List.map_id _
  have hdatagrams : ∀ port, (c.waiting ++ more).filter (isDatagramOf port) =
      c.waiting.filter (isDatagramOf port) := by
    intro port
    have hnone : more.filter (isDatagramOf port) = [] := by
      refine List.filter_eq_nil_iff.2 fun w hw => ?_
      rw [isDatagramOf_of_isHandover port (hmore w hw)]
      exact Bool.false_ne_true
    rw [List.filter_append, hnone, List.append_nil]
  refine h.of_same (h.standing.apply (.append p)) ?_ ?_ ?_ hconnections hdatagrams fun port hc => ?_
  · rw [hstate]
  · rw [hstate]
  · rw [hstate]
  · obtain ⟨w, hw, hport⟩ := h.exists_of_isComplete hc
    rw [takeWhile_append_of_exists ⟨w, hw, by rw [hport]; rfl⟩]
    exact List.Subset.refl _

theorem act_take_datagram {m : UInt8 × List UInt8} {r : Reassembly} (hf : c.state.finished = [])
    (htake : c.state.take = (some m, r)) : c.act .take = {
      state := r
      waiting := joined r m.1 (c.waiting.eraseP (isDatagramOf m.1))
      displaced := c.displaced.set m.1 false } := by
  unfold act
  simp only
  rw [htake, hf]
  rfl

/-- A datagram is taken from the port that stands first in line. -/
theorem Sound.take_datagram (h : c.Sound config) (hf : c.state.finished = []) {ports : List UInt8}
    (ha : c.state.announced = port :: ports) : (c.act .take).Sound config := by
  let front : Reassembly := { c.state with announced := ports }
  have htake := take_eq hf ha
  have hnodup := ha ▸ h.standing.nodup
  rw [List.nodup_cons] at hnodup
  have hstanding := h.standing.apply .take
  rw [show c.state.apply .take = c.state.take.2 from rfl, htake] at hstanding
  have hfinished : ((front.skipGap port).announce port).2.finished = c.state.finished := by
    obtain ⟨announced, he⟩ := announce_fields (front.skipGap port) port
    rw [he, skipGap, (takes_takeThroughFinal front port).eq]
  have hothers : ∀ other, other ≠ port →
      ((front.skipGap port).announce port).2.backlog other = c.state.backlog other := by
    intro other hne
    have hsame := (SameAt.skipGap (r := front) hne).trans (SameAt.announce hne)
    exact backlog_congr hsame.packets hsame.awaited
  have hbacklog : (front.backlog port).tail <+:
      ((front.skipGap port).announce port).2.backlog port := by
    rw [backlog_announce]
    exact tail_backlog_skipGap front port
  have hnewcomer : ∀ v ∈ c.waiting.eraseP (isDatagramOf port), v.isDatagramOf port = true →
      v.behind = true := by
    intro v hv hport
    refine h.behind port v ?_
    rw [← filter_eraseP_self]
    exact List.mem_filter.2 ⟨hv, hport⟩
  have htouches : Touches config c port (c.waiting.eraseP (isDatagramOf port)) ports
      (c.act .take) := by
    rw [act_take_datagram hf htake]
    exact {
      waiting := rfl
      left := .inr rfl
      standing := hstanding
      finished := hfinished
      others := hothers
      backlog := by rwa [filter_eraseP_self, List.map_tail, h.datagrams]
      front := ha ▸ List.sublist_cons_self _ _
      stays := fun other hne hmem => (List.mem_cons.1 (ha ▸ hmem)).resolve_left hne
      announced := by
        show ((front.skipGap port).announce port).2.announced = _
        rw [announced_announce, announced_skipGap]
      displaced := fun other hne => ByteMap.get_set_of_ne _ _ (Ne.symm hne)
      place := fun hmem => absurd hmem hnodup.1
      newcomer := fun _ => hnewcomer }
  exact htouches.sound h

theorem take_of_handover {m : UInt8 × List UInt8} {ms : List (UInt8 × List UInt8)}
    (hf : c.state.finished = m :: ms) :
    c.state.take = (some m, { c.state with finished := ms }) := by
  unfold Reassembly.take
  rw [hf]

theorem act_take_handover {m : UInt8 × List UInt8} {ms : List (UInt8 × List UInt8)}
    (hf : c.state.finished = m :: ms) : c.act .take = { c with
      state := { c.state with finished := ms }
      waiting := c.waiting.eraseP isHandover } := by
  unfold act
  simp only
  rw [take_of_handover hf, hf]
  rfl

/-- The first message of a connection is taken. -/
theorem Sound.take_handover (h : c.Sound config) {m : UInt8 × List UInt8}
    {ms : List (UInt8 × List UInt8)} (hf : c.state.finished = m :: ms) :
    (c.act .take).Sound config := by
  have hstanding := h.standing.apply .take
  rw [show c.state.apply .take = c.state.take.2 from rfl, take_of_handover hf] at hstanding
  have hconnections : ((c.waiting.eraseP isHandover).filter isHandover).map
      (fun w => (w.port, w.content)) = ms := by
    rw [filter_eraseP_self, List.map_tail, h.connections, hf, List.tail_cons]
  rw [act_take_handover hf]
  refine h.of_same hstanding rfl rfl rfl hconnections (fun port => ?_) fun port _ => ?_
  · exact filter_eraseP_of_not fun _ => isDatagramOf_of_isHandover port
  · refine (takeWhile_eraseP_sublist fun x hx => ?_).subset
    rw [isDatagramOf_of_isHandover port hx]
    rfl

theorem Sound.take (h : c.Sound config) : (c.act .take).Sound config := by
  cases hf : c.state.finished with
  | cons m ms => exact h.take_handover hf
  | nil =>
    cases ha : c.state.announced with
    | cons port ports => exact h.take_datagram hf ha
    | nil =>
      have htake := take_of_none (take_eq_none_iff.2 ⟨hf, ha⟩)
      have hact : c.act .take = c := by
        unfold act
        simp only
        rw [htake]
      rwa [hact]

theorem Sound.act (h : c.Sound config) (a : Call) : (c.act a).Sound config := by
  cases a with
  | push p => exact h.push p
  | append p => exact h.append p
  | take => exact h.take

theorem after_concat (config : Config) (calls : List Call) (a : Call) :
    after config (calls ++ [a]) = (after config calls).act a := by
  simp [after]

theorem sound_after (config : Config) (calls : List Call) : (after config calls).Sound config := by
  induction calls using List.reverseRecOn with
  | nil => exact sound_new config
  | append_singleton calls a ih =>
    rw [after_concat]
    exact ih.act a

theorem state_act (c : Roll) (a : Call) : (c.act a).state = c.state.apply a := by
  cases a with
  | push p =>
    unfold act
    simp only
    split <;> rfl
  | append p => rfl
  | take =>
    show _ = c.state.take.2
    unfold act
    simp only
    split
    · rename_i htake
      rw [htake]
    · rename_i htake
      rw [htake]
      split <;> rfl

theorem state_after (config : Config) (calls : List Call) :
    (after config calls).state = (new config).after calls := by
  induction calls using List.reverseRecOn with
  | nil => rfl
  | append_singleton calls a ih =>
    rw [after_concat, state_act, ih, Reassembly.after_concat]

/-! ## What is taken -/

/-- The first message of a connection is taken next. -/
theorem next_of_handover {m : UInt8 × List UInt8} {ms : List (UInt8 × List UInt8)}
    (hf : c.state.finished = m :: ms) : c.next = (c.waiting.filter isHandover).head? ∧
      c.earlier = c.waiting.takeWhile fun v => !v.isHandover := by
  have hpicks : c.picks m.1 = isHandover := by
    unfold picks
    rw [hf]
    rfl
  unfold next earlier
  rw [take_of_handover hf, List.head?_filter]
  simp only [Option.bind_some, hpicks, and_self]

/-- The first datagram of the port that stands first in line is taken next. -/
theorem next_of_datagram {ports : List UInt8} (hf : c.state.finished = [])
    (ha : c.state.announced = port :: ports) :
    c.next = (c.waiting.filter (isDatagramOf port)).head? ∧
      c.earlier = c.waiting.takeWhile fun v => !v.isDatagramOf port := by
  have hpicks : c.picks port = isDatagramOf port := by
    unfold picks
    rw [hf]
    rfl
  unfold next earlier
  rw [take_eq hf ha, List.head?_filter]
  simp only [Option.bind_some, hpicks, and_self]

theorem next_of_nothing (hf : c.state.finished = []) (ha : c.state.announced = []) :
    c.state.take.1 = none ∧ c.next = none := by
  have htake : c.state.take.1 = none := by rw [take_of_none (take_eq_none_iff.2 ⟨hf, ha⟩)]
  exact ⟨htake, by rw [next, htake, Option.bind_none]⟩

/-- The roll lists what is complete. -/
theorem Sound.lists (h : c.Sound config) : c.Lists c.state where
  state := rfl
  connections := h.connections
  datagrams := h.datagrams
  taken w hw := by
    cases hf : c.state.finished with
    | cons m ms =>
      have hconnections := h.connections
      rw [(next_of_handover hf).1, List.head?_eq_some_iff] at hw
      obtain ⟨ws, hws⟩ := hw
      rw [hws, hf, List.map_cons, List.cons.injEq] at hconnections
      rw [take_of_handover hf, hconnections.1]
    | nil =>
      cases ha : c.state.announced with
      | nil =>
        rw [(next_of_nothing hf ha).2] at hw
        cases hw
      | cons port ports =>
        have hdatagrams := h.datagrams port
        rw [(next_of_datagram hf ha).1] at hw
        have hfirst := List.mem_filter.1 (List.mem_of_head? hw)
        obtain ⟨ws, hws⟩ := List.head?_eq_some_iff.1 hw
        have hc : c.state.isComplete port = true := h.isComplete_of_mem hfirst.1 hfirst.2
        rw [hws, backlog_of_isComplete hc, List.map_cons, List.cons.injEq] at hdatagrams
        rw [take_eq hf ha, (isDatagramOf_iff.1 hfirst.2).2, hdatagrams.1]
        rfl
  incomplete m hm hnone := by
    cases hf : c.state.finished with
    | cons x ms =>
      have hconnections := h.connections
      rw [(next_of_handover hf).1, List.head?_eq_none_iff] at hnone
      rw [hnone, hf] at hconnections
      cases hconnections
    | nil =>
      cases ha : c.state.announced with
      | nil =>
        rw [(next_of_nothing hf ha).1] at hm
        cases hm
      | cons port ports =>
        have hport : port = m.1 := by
          rw [take_eq hf ha] at hm
          exact congrArg Prod.fst (Option.some.inj hm)
        subst hport
        have hc : c.state.isComplete m.1 = false := by
          rw [(next_of_datagram hf ha).1, List.head?_eq_none_iff] at hnone
          rw [← backlog_eq_nil_iff, ← h.datagrams, hnone]
          rfl
        refine ⟨rfl, hc, (h.announced m.1 (ha ▸ List.mem_cons_self)).resolve_left ?_⟩
        rw [hc]
        exact Bool.false_ne_true

/-- No datagram is passed over by another one unless it became complete behind one of its port, or the
port that is served has lost a message. -/
theorem Sound.passes_datagram (h : c.Sound config) {ports : List UInt8} (hf : c.state.finished = [])
    (ha : c.state.announced = w.port :: ports)
    (hv : v ∈ c.waiting.takeWhile fun x => !x.isDatagramOf w.port) (hne : v.port ≠ w.port) :
    c.Passes w v := by
  have hmem := (List.takeWhile_sublist _).subset hv
  have hkind : v.kind = .datagram := by
    refine kind_of_not_isHandover (Bool.not_eq_true _ ▸ fun hh => ?_)
    have hnone := h.connections
    rw [hf, List.map_eq_nil_iff] at hnone
    exact List.ne_nil_of_mem (List.mem_filter.2 ⟨hmem, hh⟩) hnone
  have hown := isDatagramOf_iff.2 ⟨hkind, rfl⟩
  have hlater : v.port ∈ ports :=
    (List.mem_cons.1 (ha ▸ h.announced_of_mem hmem hown)).resolve_left hne
  rcases List.rel_of_pairwise_cons (ha ▸ h.line) hlater with hdisplaced | hall
  · exact ⟨hkind, hne, .inr (.inr hdisplaced)⟩
  · exact ⟨hkind, hne, .inr (.inl (hall v hv hown))⟩

/-- A message that is passed over has one of three reasons to be. -/
theorem Sound.passes (h : c.Sound config) (hw : c.next = some w) (hv : v ∈ c.earlier)
    (hne : v.port ≠ w.port) : c.Passes w v := by
  cases hf : c.state.finished with
  | cons m ms =>
    rw [(next_of_handover hf).1] at hw
    rw [(next_of_handover hf).2] at hv
    have hfirst := (List.mem_filter.1 (List.mem_of_head? hw)).2
    have hfree := List.mem_takeWhile_imp hv
    exact ⟨kind_of_not_isHandover (by simpa using hfree), hne, .inl (isHandover_iff.1 hfirst)⟩
  | nil =>
    cases ha : c.state.announced with
    | nil =>
      rw [(next_of_nothing hf ha).2] at hw
      cases hw
    | cons port ports =>
      rw [(next_of_datagram hf ha).1] at hw
      rw [(next_of_datagram hf ha).2] at hv
      obtain rfl := (isDatagramOf_iff.1 (List.mem_filter.1 (List.mem_of_head? hw)).2).2
      exact h.passes_datagram hf ha hv hne

end Roll

/-- The roll lists the complete messages, and what is taken next is one of them unless it is incomplete.
They are taken in the order in which they became complete exactly if at no take a datagram of another
port has been waiting for longer while the message of a connection is taken, or has become complete
behind another datagram of its port, or while the port that is served holds the place of a message that
has been displaced. -/
theorem deliversInOrder_iff (config : Config) (calls : List Call) :
    (Roll.after config calls).Lists ((new config).after calls) ∧
      (DeliversInOrder config calls ↔ ∀ before later, calls = before ++ .take :: later →
        ∀ w, (Roll.after config before).next = some w →
          ∀ v ∈ (Roll.after config before).earlier, ¬ (Roll.after config before).Passes w v) := by
  refine ⟨?_, fun h before later hc w hw v hv hpasses => ?_, fun h before later hc w hw v hv => ?_⟩
  · rw [← Roll.state_after]
    exact (Roll.sound_after config calls).lists
  · exact hpasses.2.1 (h before later hc w hw v hv)
  · by_contra hne
    exact h before later hc w hw v hv ((Roll.sound_after config before).passes hw hv hne)

/-- Two messages for port 7, one for port 8, and one of a connection on port 9. -/
def jostled : List Call :=
  [.push (fragment 0 false [97]), .push (fragment 1 false [98]), .push (elsewhere 0 false [99]),
    .append (carried 9 0 false [100])]

/-- The message of the connection became complete last and is taken first, and the second message for
port 7 is taken behind that for port 8. -/
theorem not_deliversInOrder_of_jostled :
    (Roll.after {} jostled).waiting.map (fun w => (w.port, w.content)) =
        [(7, [97]), (7, [98]), (8, [99]), (9, [100])] ∧
      ((new {}).after jostled).drain.1 = [(9, [100]), (7, [97]), (8, [99]), (7, [98])] ∧
      ¬ DeliversInOrder {} (jostled ++ [.take]) ∧
      ¬ DeliversInOrder {} (jostled.dropLast ++ [.take, .take]) := by
  refine ⟨by decide +kernel, by decide +kernel, fun h => ?_, fun h => ?_⟩
  · have hport := h jostled [] rfl ⟨.connection, 9, [100], false⟩ (by decide +kernel)
      ⟨.datagram, 7, [97], false⟩ (by decide +kernel)
    exact absurd hport (by decide)
  · have hport := h (jostled.dropLast ++ [.take]) [] rfl ⟨.datagram, 8, [99], false⟩
      (by decide +kernel) ⟨.datagram, 7, [98], true⟩ (by decide +kernel)
    exact absurd hport (by decide)

end NarrowLink.Reassembly

import NarrowLink.Proofs.Exchange.Invariant
import NarrowLink.Proofs.Exchange.Once

/-!
# Runs in which everything is sent once

Along every run in which messages go to and fro between ends that neither send again nor report, each end
keeps its books and what is on the way fits them (`SendsOnce`).  So no end runs ahead of the window of its
peer, even if this is half the number space (`not_runsAhead_of_quiet`).
-/

namespace NarrowLink.Connection

open Wire

/-- The books `gs` of the ends and the parcels `ls` on the way account for a connection that sends
everything once. -/
structure SendsOnce (t : Terms) (e : Exchange) (gs : Role → Ledger) (ls : Role → List Parcel) :
    Prop where
  once : ∀ x, Once t x (e.ends x).session (gs x) (gs x.peer) (ls x.peer) (ls x ++ (gs x.peer).queue)
  sent : ∀ x, (e.ends x).sent = (gs x).sent
  reached : ∀ x, (e.ends x).reached = (gs x).intake.reached
  link : ∀ x, e.link x = (ls x).map Parcel.packet
  fresh : ∀ x, e.begun x = false → (e.ends x).session.Unused ∧ (gs x).intake.reached = 0

variable {t : Terms} {x : Role} {e e' : Exchange} {gs : Role → Ledger} {ls : Role → List Parcel}
  {s s' : Session} {g g' gy : Ledger} {link out' : List Parcel}

theorem streams_start (t : Terms) (x : Role) : Streams t x .start .start [] [] := by
  constructor <;> simp [Ledger.start, Intake.Valid, Intake.took]

/-- The connection that has not begun. -/
theorem sendsOnce_start (t : Terms) :
    SendsOnce t t.start (fun _ => { Ledger.start with alive := true }) fun _ => [] where
  once := fun x => {
    books := {
      (accounts_start t).books x with
      oldest := fun _ => rfl
      flights := fun _ => rfl
      early := fun _ n _ _ => by
        show (ByteMap.const false).get _ = true ↔ False
        rw [ByteMap.get_const]
        exact iff_of_false Bool.false_ne_true id }
    alive := rfl
    stage := rfl
    streams := { streams_start t x with }
    streams_peer := { streams_start t x.peer with } }
  sent := fun _ => rfl
  reached := fun _ => rfl
  link := fun _ => rfl
  fresh := fun x _ => ⟨⟨rfl, rfl, rfl, rfl⟩, rfl⟩

/-! ## One end changes -/

/-- The peer of an end that has changed. -/
theorem Once.turn {u : Session} {l l' out : List Parcel} (h : Once t x s' g' gy link (l ++ gy.queue))
    (hp : Once t x.peer u gy g l' out) : Once t x.peer u gy g' l (link ++ g'.queue) :=
  ⟨hp.books, hp.alive, hp.stage, h.streams_peer, by rw [Role.peer_peer]; exact h.streams⟩

/-- What an end becomes is accounted for together with its peer, which does not change. -/
theorem SendsOnce.follows (h : SendsOnce t e gs ls) (e' : Exchange) (accepted handed : List Piece)
    (hf : Onward t x (e.ends x).session s' (gs x) g' (gs x.peer) out' (ls x ++ (gs x.peer).queue))
    (hends : e'.ends x = { (e.ends x).observe s' with accepted := accepted, handed := handed })
    (hpeer : e'.ends x.peer = e.ends x.peer) (hlink : e'.link x = e.link x)
    (hlink' : e'.link x.peer = out'.map Parcel.packet)
    (hbegun : e'.begun x = false → e.begun x = false ∧ s'.Unused)
    (hbegun' : e'.begun x.peer = false → e.begun x.peer = false) :
    SendsOnce t e' (Function.update gs x g') (Function.update ls x.peer out') := by
  have hself := hf.once
  have hother := hself.turn (h.once x.peer)
  have hreached := (h.once x).books.reached_observe hself.books (h.reached x) hf.reached_le hf.reached_lt
  have hsent : ((e.ends x).observe s').sent = g'.sent := by
    rw [hf.sent, ← h.sent]
    rfl
  have hfresh : e'.begun x = false → s'.Unused ∧ g'.intake.reached = 0 := fun hb => by
    obtain ⟨hold, hu⟩ := hbegun hb
    have hlt := hf.reached_lt
    rw [(h.fresh x hold).2, Nat.zero_add] at hlt
    exact ⟨hu, hself.books.reached_eq_zero hu hlt⟩
  have hsession : (e'.ends x).session = s' := by rw [hends]; rfl
  have hsent : (e'.ends x).sent = g'.sent := by rw [hends]; exact hsent
  have hreached : (e'.ends x).reached = g'.intake.reached := by rw [hends]; exact hreached
  have hfresh' := fun hb => h.fresh x.peer (hbegun' hb)
  have hsent' := h.sent x.peer
  have hreached' := h.reached x.peer
  have hl := h.link x
  rw [← hsession] at hself hfresh
  rw [← hpeer] at hother hfresh' hsent' hreached'
  rw [← hlink] at hl
  cases x with
  | initiator =>
    exact {
      once := fun y => by cases y; exacts [hself, hother]
      sent := fun y => by cases y; exacts [hsent, hsent']
      reached := fun y => by cases y; exacts [hreached, hreached']
      link := fun y => by cases y; exacts [hl, hlink']
      fresh := fun y => by cases y; exacts [hfresh, hfresh'] }
  | responder =>
    exact {
      once := fun y => by cases y; exacts [hother, hself]
      sent := fun y => by cases y; exacts [hsent', hsent]
      reached := fun y => by cases y; exacts [hreached', hreached]
      link := fun y => by cases y; exacts [hlink', hl]
      fresh := fun y => by cases y; exacts [hfresh', hfresh] }

/-- The owner asks for something, and nothing goes onto the link. -/
theorem SendsOnce.update (h : SendsOnce t e gs ls)
    (hf : Onward t x (e.ends x).session s' (gs x) g' (gs x.peer) (ls x.peer)
      (ls x ++ (gs x.peer).queue)) (hbegun : e.begun x = false → s'.Unused) :
    SendsOnce t (e.update x s') (Function.update gs x g') ls := by
  have := h.follows (e.update x s') (e.ends x).accepted (e.ends x).handed hf ?_ ?_ rfl (h.link x.peer)
    ?_ ?_
  · rwa [Function.update_eq_self] at this
  · simp [End.observe]
  · simp
  · intro hb
    cases x <;> exact ⟨hb, hbegun hb⟩
  · intro hb
    cases x <;> exact hb

/-- What an end was asked for or has handed out is not in its books. -/
theorem SendsOnce.put (h : SendsOnce t e gs ls) (x : Role) (accepted handed : List Piece) :
    SendsOnce t (e.put x { e.ends x with accepted := accepted, handed := handed }) gs ls := by
  have hsame : ∀ y, ((e.put x { e.ends x with accepted := accepted, handed := handed }).ends y).session =
        (e.ends y).session ∧
      ((e.put x { e.ends x with accepted := accepted, handed := handed }).ends y).sent =
        (e.ends y).sent ∧
      ((e.put x { e.ends x with accepted := accepted, handed := handed }).ends y).reached =
        (e.ends y).reached := by
    intro y
    unfold Exchange.put
    simp only
    split
    · rename_i hy
      rw [hy]
      exact ⟨rfl, rfl, rfl⟩
    · exact ⟨rfl, rfl, rfl⟩
  exact {
    once := fun y => by rw [(hsame y).1]; exact h.once y
    sent := fun y => (hsame y).2.1.trans (h.sent y)
    reached := fun y => (hsame y).2.2.trans (h.reached y)
    link := h.link
    fresh := fun y hb => by
      rw [(hsame y).1]
      exact h.fresh y (by cases y <;> exact hb) }

/-- A packet is lost, if there is one on the way. -/
theorem SendsOnce.lose (h : SendsOnce t e gs ls) (x : Role) :
    SendsOnce t (e.relink x ((ls x).tail.map Parcel.packet)) gs
      (Function.update ls x (ls x).tail) := by
  have hself : Once t x (e.ends x).session (gs x) (gs x.peer) (ls x.peer)
      ((ls x).tail ++ (gs x.peer).queue) := by
    have := h.once x
    cases hls : ls x with
    | nil => rwa [hls] at this
    | cons p rest =>
      rw [hls] at this
      exact this.lose
  have hother := hself.turn (h.once x.peer)
  have hl := Exchange.link_relink h.link x (ls x).tail
  have hfresh : ∀ y, (e.relink x ((ls x).tail.map Parcel.packet)).begun y = false →
      (e.ends y).session.Unused ∧ (gs y).intake.reached = 0 :=
    fun y hb => h.fresh y (by cases y <;> exact hb)
  cases x with
  | initiator =>
    exact {
      h with
      once := fun y => by cases y; exacts [hself, hother]
      link := hl
      fresh := hfresh }
  | responder =>
    exact {
      h with
      once := fun y => by cases y; exacts [hother, hself]
      link := hl
      fresh := hfresh }

/-! ## What can happen -/

/-- The initiator asks for the connection. -/
theorem SendsOnce.connect (h : SendsOnce t e gs ls) (hpos : 0 < t.config.window) (now : Nat) :
    ∃ gs' ls', SendsOnce t (e.apply (.connect now)) gs' ls' := by
  simp only [Exchange.apply]
  split
  · exact ⟨gs, ls, h⟩
  rename_i ho
  obtain ⟨hu, hreached⟩ := h.fresh .initiator (Bool.eq_false_iff.2 ho)
  obtain ⟨g', hf⟩ := (h.once .initiator).connect hu.state hreached hpos now
  have := h.follows
    { e.update .initiator ((e.ends .initiator).session.connect now).2 with opened := true }
    (e.ends .initiator).accepted (e.ends .initiator).handed hf (by simp [End.observe]) rfl rfl
    (h.link .responder) (fun hb => Bool.noConfusion (show true = false from hb)) fun hb => hb
  exact ⟨_, _, this⟩

/-- An end is asked to send a message. -/
theorem SendsOnce.send (h : SendsOnce t e gs ls) (hquiet : t.Quiet x) (ps : List Packet)
    (numbers : List UInt8) (now : Nat) :
    ∃ gs' ls', SendsOnce t (e.apply (.send x ps numbers now)) gs' ls' := by
  obtain ⟨g', hf⟩ := (h.once x).send hquiet ps numbers now
  have h' := h.update hf fun hb => by
    have hu := (h.fresh x hb).1
    rwa [hu.send]
  simp only [Exchange.apply]
  split
  · exact ⟨_, _, h'⟩
  · exact ⟨_, _, h'.put x _ _⟩

theorem SendsOnce.tick (h : SendsOnce t e gs ls) (hquiet : t.Quiet x) (now : Nat) :
    ∃ gs' ls', SendsOnce t (e.apply (.tick x now)) gs' ls' :=
  ⟨_, _, h.update ((h.once x).checkTimers hquiet now) fun hb => (h.fresh x hb).1.checkTimers now⟩

/-- What is queued at an end goes onto the link. -/
theorem SendsOnce.take (h : SendsOnce t e gs ls) (x : Role) :
    ∃ gs' ls', SendsOnce t (e.apply (.take x)) gs' ls' := by
  obtain ⟨hps, hf⟩ := (h.once x).fetchOutbound
  refine ⟨_, _, h.follows _ (e.ends x).accepted (e.ends x).handed hf ?_ ?_ ?_ ?_ (fun hb => ?_)
    fun hb => ?_⟩
  · simp [Exchange.apply, End.observe]
  · simp [Exchange.apply]
  · simp [Exchange.apply, Exchange.update, Exchange.put, Exchange.relink, (Role.peer_ne x).symm]
  · simp [Exchange.apply, Exchange.update, Exchange.put, Exchange.relink, hps, h.link]
  · have hold : e.begun x = false := by cases x <;> exact hb
    have hu := (h.fresh x hold).1
    obtain ⟨q, he, -⟩ := fetchOutbound_in_turn (by rw [hu.state]; decide) (h.once x).books.outbound
    rw [he]
    exact ⟨hold, { hu with }⟩
  · cases x <;> exact hb

/-- A packet arrives. -/
theorem SendsOnce.arrive (h : SendsOnce t e gs ls) (hquiet : t.Quiet x) (hpos : 0 < t.config.window)
    (hwindow : t.config.window ≤ 128) {p : Parcel} {rest : List Parcel} (hls : ls x = p :: rest)
    (now : Nat) : ∃ gs' ls', SendsOnce t
      ((e.relink x (rest.map Parcel.packet)).arrive x p.packet now) gs' ls' := by
  have h₁ := h.lose x
  rw [hls, List.tail_cons] at h₁
  have hself := h.once x
  rw [hls] at hself
  obtain ⟨g', hf⟩ : ∃ g', Onward t x (e.ends x).session (e.reacted x p.packet now) (gs x) g'
      (gs x.peer) (ls x.peer) (rest ++ (gs x.peer).queue) := by
    unfold Exchange.reacted
    simp only
    split
    · rename_i hsyn
      obtain ⟨rfl, hcreated, hsyn⟩ := hsyn
      obtain ⟨hu, hreached⟩ := h.fresh .responder hcreated
      exact hself.accept hu hreached hsyn hpos now
    · exact hself.receive hquiet hpos hwindow
  have hlx : Function.update ls x rest x.peer = ls x.peer := Function.update_of_ne (Role.peer_ne x) _ _
  rw [← Function.update_self x rest ls, ← hlx] at hf
  refine ⟨_, _, h₁.follows _ (e.ends x).accepted (e.ends x).handed hf
    (Exchange.ends_arrive _ x p.packet now) (by simp) rfl (h₁.link x.peer) (fun hb => ?_)
    Exchange.begun_arrive_peer⟩
  obtain ⟨hold, hreacted⟩ := Exchange.begun_arrive hb
  rw [Exchange.reacted_relink] at hreacted
  rw [hreacted]
  exact ⟨hold, (h₁.fresh x hold).1.receive p.packet⟩

/-- An end hands out what is in sequence. -/
theorem SendsOnce.hand (h : SendsOnce t e gs ls) (x : Role) :
    ∃ gs' ls', SendsOnce t (e.hand x) gs' ls' := by
  have hf := (h.once x).fetchInbound
  refine ⟨_, _, (h.update hf fun hb => ?_).put x _ _⟩
  obtain ⟨q, he⟩ := fetchInbound_fields (e.ends x).session
  rw [he]
  exact { (h.fresh x hb).1 with }

/-! ## Every run -/

/-- Whatever happens while messages go to and fro, the connection stays accounted for. -/
theorem SendsOnce.apply (h : SendsOnce t e gs ls) (hvalid : t.config.Valid)
    (hquiet : ∀ y, t.Quiet y) {a : Act} (ha : a.Transfers) :
    ∃ gs' ls', SendsOnce t (e.apply a) gs' ls' := by
  have hpos := hvalid.window_pos
  cases a with
  | connect now => exact h.connect hpos now
  | send x ps numbers now => exact h.send (hquiet x) ps numbers now
  | close x now => exact ha.elim
  | reset x => exact ha.elim
  | tick x now => exact h.tick (hquiet x) now
  | take x => exact h.take x
  | lose x =>
    have h' := h.lose x
    rw [List.map_tail, ← h.link] at h'
    exact ⟨_, _, h'⟩
  | deliver x hands now =>
    have hl := h.link x
    cases hls : ls x with
    | nil =>
      rw [hls, List.map_nil] at hl
      simp only [Exchange.apply, hl]
      exact ⟨gs, ls, h⟩
    | cons p rest =>
      rw [hls, List.map_cons] at hl
      obtain ⟨gs', ls', h'⟩ := h.arrive (hquiet x) hpos hvalid.window_le hls now
      simp only [Exchange.apply, hl]
      split
      · exact h'.hand x
      · exact ⟨_, _, h'⟩

theorem sendsOnce_after (hvalid : t.config.Valid) (hquiet : ∀ y, t.Quiet y) {acts : List Act}
    (hacts : ∀ a ∈ acts, a.Transfers) : ∃ gs ls, SendsOnce t (t.start.after acts) gs ls := by
  induction acts using List.reverseRecOn with
  | nil => exact ⟨_, _, sendsOnce_start t⟩
  | append_singleton acts a ih =>
    obtain ⟨gs, ls, h⟩ := ih fun b hb => hacts b (List.mem_append_left _ hb)
    rw [Exchange.after_concat]
    exact h.apply hvalid hquiet (hacts a (by simp))

/-- No end runs ahead of the window of its peer if everything is sent once. -/
theorem not_runsAhead_of_quiet (hvalid : t.config.Valid) (hquiet : ∀ y, t.Quiet y) {acts : List Act}
    (hacts : ∀ a ∈ acts, a.Transfers) (x : Role) : ¬ (t.start.after acts).RunsAhead x := by
  obtain ⟨gs, ls, h⟩ := sendsOnce_after hvalid hquiet hacts
  rintro ⟨n, p, hp, -, hfar⟩
  have hwindow := (h.once x).in_window
  rw [h.sent] at hp
  rw [h.reached, (h.once x).books.config] at hfar
  have := (List.getElem?_eq_some_iff.1 hp).1
  omega

end NarrowLink.Connection

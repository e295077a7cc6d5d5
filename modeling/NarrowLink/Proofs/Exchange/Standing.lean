import NarrowLink.Proofs.Exchange.Books

/-!
# Where an end stands

An end stands as its books say (`Stands`) when its session is what the ledger says, when the state of
the session is the one of the ledger, and when the books are sound together with those of the peer.

Whatever happens to an end, what it has taken changes in one of few ways (`Intakes`): by one number in
the window, which also goes into the inbound queue, or by the packet that opens or the one that closes.
-/

namespace NarrowLink.Connection

open Wire

/-- An end, its books, and what is on the way. -/
structure Stands (t : Terms) (x : Role) (s : Session) (g gy : Ledger) (out back : List Parcel) :
    Prop where
  books : Books t x s g
  phase : Phase x s g
  sound : Sound t x g gy out back

/-- How what an end has taken changes, with its inbound queue. -/
inductive Intakes (t : Terms) (gy : Ledger) (s s' : Session) (g g' : Ledger) : Prop where
  /-- Nothing is taken. -/
  | none (hi : g'.intake = g.intake) (ha : g'.alive = g.alive) (hq : s'.inbound = s.inbound)
  /-- The end comes to life before it has taken anything. -/
  | woken (hi : g'.intake = g.intake) (ha : g.alive = false) (hnone : ∀ n, ¬ g.intake.early n)
      (hq : s'.inbound = s.inbound)
  /-- The end dies and drops what has arrived. -/
  | dropped (hi : g'.intake = g.intake) (ha : g'.alive = false)
      (hq : s'.inbound = s.inbound.clear.2)
  /-- Data in the window is taken. -/
  | data (p : Packet) (n : Nat) (q : Packet) (ha : g.alive = true) (ha' : g'.alive = true)
      (hq : s'.inbound = s.inbound.add p) (hport : p.port = s.localPort)
      (hrel : p.header.relSeq = Serial.forward 0 n) (hsent : gy.sent[n]? = some q)
      (hpiece : Piece.of p = Piece.of q) (hpos : 0 < n) (hbulk : n < gy.bulk)
      (hnew : ¬ g.intake.took n)
      (hwindow : n < g.intake.reached + t.config.window)
      (hlow : g.intake.reached ≤ g'.intake.reached)
      (hhigh : g'.intake.reached ≤ g.intake.reached + t.config.window)
      (htook : ∀ n', g'.intake.took n' ↔ g.intake.took n' ∨ n' = n)
  /-- The packet that opens is taken. -/
  | opening (hi : g.intake.reached = 0) (hnone : ∀ n, ¬ g.intake.early n)
      (hi' : g'.intake.reached = 1) (htook : ∀ n, g'.intake.took n ↔ n = 0)
      (hq : s'.inbound = s.inbound)
  /-- The packet that closes is taken, and the end dies. -/
  | closing (ha : g.alive = true) (hi : g.intake.reached = gy.bulk) (hi' : g'.intake.reached = gy.bulk + 1)
      (htook : ∀ n, g'.intake.took n ↔ n < gy.bulk + 1) (ha' : g'.alive = false)
      (hq : s'.inbound = s.inbound)

/-- An end that stood at `s` becomes one that stands at `s'`. -/
structure Becomes (t : Terms) (x : Role) (s s' : Session) (g g' gy : Ledger)
    (out back : List Parcel) : Prop where
  stands : Stands t x s' g' gy out back
  intakes : Intakes t gy s s' g g'
  /-- What the end gave a number is what it has put in flight. -/
  sent : g'.sent = g.sent ++ (s'.inFlight.flights.drop s.inFlight.length).map Flight.packet

/-- What of this can be seen from outside: the end stands, it has given numbers to what it has put in
flight, and it has taken less than a turn of numbers. -/
structure Follows (t : Terms) (x : Role) (s s' : Session) (g g' gy : Ledger)
    (out back : List Parcel) : Prop where
  stands : Stands t x s' g' gy out back
  sent : g'.sent = g.sent ++ (s'.inFlight.flights.drop s.inFlight.length).map Flight.packet
  reached_le : g.intake.reached ≤ g'.intake.reached
  reached_lt : g'.intake.reached < g.intake.reached + 256
  /-- An end that has died has taken nothing beyond a gap since. -/
  took : g'.alive = false → ∀ n, g'.intake.took n → g.intake.took n ∨ n < g'.intake.reached

/-- The session of an end that has not begun, whatever has reached it. -/
structure Session.Unused (s : Session) : Prop where
  state : s.state = .disconnected
  oldest : s.oldestUnacked = 0
  expected : s.expected = 0
  early : s.early = .const false

/-- The books of an end that has not begun. -/
structure Ledger.Blank (g : Ledger) : Prop where
  sent : g.sent = []
  reached : g.intake.reached = 0
  none : ∀ n, ¬ g.intake.early n

variable {t : Terms} {x : Role} {s s' : Session} {g g' gy : Ledger} {out back : List Parcel}

/-- What an end does before does not count if it takes nothing. -/
theorem Intakes.of_before {s₁ : Session} {g₁ : Ledger} (h : Intakes t gy s₁ s' g₁ g')
    (hq : s₁.inbound = s.inbound) (hport : s₁.localPort = s.localPort) (hi : g₁.intake = g.intake)
    (ha : g₁.alive = g.alive) : Intakes t gy s s' g g' := by
  cases h with
  | none hi' ha' hq' => exact .none (hi'.trans hi) (ha'.trans ha) (hq'.trans hq)
  | woken hi' ha' hnone hq' =>
    rw [hi] at hnone
    exact .woken (hi'.trans hi) (ha ▸ ha') hnone (hq'.trans hq)
  | dropped hi' ha' hq' => exact .dropped (hi'.trans hi) ha' (by rw [hq', hq])
  | data p n q ha₀ ha' hq' hport' hrel hsent' hpiece hpos hbulk hnew hwindow hlow hhigh htook =>
    rw [hi] at hnew hwindow hlow hhigh htook
    exact .data p n q (ha ▸ ha₀) ha' (by rw [hq', hq]) (hport'.trans hport) hrel hsent' hpiece hpos
      hbulk hnew hwindow hlow hhigh htook
  | opening hi₀ hnone hi' htook hq' =>
    rw [hi] at hnone
    exact .opening (hi ▸ hi₀) hnone hi' htook (hq'.trans hq)
  | closing ha₀ hi₀ hi' htook ha' hq' =>
    exact .closing (ha ▸ ha₀) (hi ▸ hi₀) hi' htook ha' (hq'.trans hq)

theorem Intakes.reached_le (h : Intakes t gy s s' g g') : g.intake.reached ≤ g'.intake.reached := by
  cases h with
  | none hi | woken hi | dropped hi => rw [hi]
  | data _ _ _ _ _ _ _ _ _ _ _ _ _ _ hlow => exact hlow
  | opening hi => omega
  | closing _ hi hi' => omega

theorem Intakes.reached_lt (h : Intakes t gy s s' g g') (hwindow : t.config.window ≤ 128) :
    g'.intake.reached < g.intake.reached + 256 := by
  cases h with
  | none hi | woken hi | dropped hi => rw [hi]; omega
  | data _ _ _ _ _ _ _ _ _ _ _ _ _ _ _ hhigh => omega
  | opening hi _ hi' => omega
  | closing _ hi hi' => omega

theorem Intakes.took (h : Intakes t gy s s' g g') (ha : g'.alive = false) (n : Nat)
    (hn : g'.intake.took n) : g.intake.took n ∨ n < g'.intake.reached := by
  cases h with
  | none hi | woken hi | dropped hi =>
    rw [hi] at hn
    exact .inl hn
  | data _ _ _ _ ha' =>
    rw [ha'] at ha
    cases ha
  | opening _ _ hi' htook =>
    have := (htook n).1 hn
    omega
  | closing _ _ hi' htook =>
    have := (htook n).1 hn
    omega

theorem Becomes.follows (h : Becomes t x s s' g g' gy out back) (hwindow : t.config.window ≤ 128) :
    Follows t x s s' g g' gy out back :=
  ⟨h.stands, h.sent, h.intakes.reached_le, h.intakes.reached_lt hwindow, h.intakes.took⟩

theorem Stands.dead (h : Stands t x s g gy out back)
    (hst : s.state = .disconnected ∨ s.state = .resetting) : g.alive = false := by
  rw [← h.phase.alive]
  unfold Session.isWaiting
  rcases hst with hst | hst <;> rw [hst]

/-- An end that looks as if it had not begun has passed nothing, if it cannot have passed a whole turn. -/
theorem Books.reached_eq_zero (hb : Books t x s g) (hs : s.Unused) (hlt : g.intake.reached < 256) :
    g.intake.reached = 0 := by
  have hexpected : Serial.forward (0 : UInt8) 0 = Serial.forward 0 g.intake.reached :=
    hs.expected.symm.trans hb.expected
  exact (Serial.forward_inj (0 : UInt8) (by simp only [Serial.half]; omega)
    (by simp only [Serial.half]; omega) hexpected).symm

/-- An end that looks as if it had not begun has not begun. -/
theorem Follows.blank (h : Follows t x s s' g g' gy out back) (hg : g.Blank) (hs : s'.Unused) :
    g'.Blank := by
  have hd := h.stands.dead (.inl hs.state)
  have hlt := h.reached_lt
  rw [hg.reached, Nat.zero_add] at hlt
  have hreached := h.stands.books.reached_eq_zero hs hlt
  refine ⟨?_, hreached, fun n hn => ?_⟩
  · rw [h.sent, hg.sent, h.stands.phase.dead hd]
    simp
  · rcases h.took hd n (.inr hn) with (hlt | hearly) | hlt
    · rw [hg.reached] at hlt
      exact Nat.not_lt_zero n hlt
    · exact hg.none n hearly
    · rw [hreached] at hlt
      exact Nat.not_lt_zero n hlt

/-! ## Phases -/

theorem Phase.posts (h : Phase x s g) (hr : s.state ≠ .resetting) (outbound : Queue)
    (events : List Event) (queue : List Parcel) :
    Phase x { s with outbound := outbound, events := events } { g with queue := queue } :=
  { h with resetting := fun e => absurd e hr }

theorem Phase.alive_of_state (h : Phase x s g)
    (hst : s.state = .connected ∨ s.state = .disconnecting) : g.alive = true := by
  rw [← h.alive]
  unfold Session.isWaiting
  rcases hst with hst | hst <;> rw [hst]

/-- An end that waits for what its peer sends is in the phase that its state tells. -/
theorem Phase.of_alive (ha : g.alive = true) (hst : s.isWaiting = true)
    (hconnecting : s.state = .connecting → g.sent.length = 1 ∧ g.bulk = 1 ∧ g.known.reached = 0 ∧
      (x = .initiator → g.intake.reached = 0 ∧ ∀ n, ¬ g.intake.early n))
    (hconnected : s.state = .connected → 0 < g.sent.length ∧ g.sent.length = g.bulk)
    (hdisconnecting : s.state = .disconnecting → g.sent.length = g.bulk + 1) : Phase x s g where
  alive := hst.trans ha.symm
  dead e := nomatch ha.symm.trans e
  connecting := hconnecting
  connected := hconnected
  disconnecting := hdisconnecting
  resetting e := by
    unfold Session.isWaiting at hst
    rw [e] at hst
    cases hst

theorem Phase.of_connecting (ha : g.alive = true) (hst : s.state = .connecting)
    (h : g.sent.length = 1 ∧ g.bulk = 1 ∧ g.known.reached = 0 ∧
      (x = .initiator → g.intake.reached = 0 ∧ ∀ n, ¬ g.intake.early n)) : Phase x s g :=
  .of_alive ha (by simp [Session.isWaiting, hst]) (fun _ => h) (fun e => nomatch hst.symm.trans e)
    fun e => nomatch hst.symm.trans e

theorem Phase.of_connected (ha : g.alive = true) (hst : s.state = .connected)
    (hpos : 0 < g.sent.length) (hopen : g.sent.length = g.bulk) : Phase x s g :=
  .of_alive ha (by simp [Session.isWaiting, hst]) (fun e => nomatch hst.symm.trans e)
    (fun _ => ⟨hpos, hopen⟩) fun e => nomatch hst.symm.trans e

theorem Phase.of_disconnecting (ha : g.alive = true) (hst : s.state = .disconnecting)
    (hclosed : g.sent.length = g.bulk + 1) : Phase x s g :=
  .of_alive ha (by simp [Session.isWaiting, hst]) (fun e => nomatch hst.symm.trans e)
    (fun e => nomatch hst.symm.trans e) fun _ => hclosed

/-- An end that has died is disconnected, or waits until its reset is taken. -/
theorem Phase.of_dead (hf : s.inFlight.flights = [])
    (hst : s.state = .disconnected ∨
      (s.state = .resetting ∧ g.queue.length ≤ 1 ∧ ∀ p ∈ g.queue, p.packet.header.flags.rst = true))
    (ha : g.alive = false) : Phase x s g := by
  have hwaiting : s.isWaiting = false := by
    unfold Session.isWaiting
    rcases hst with hst | ⟨hst, -⟩ <;> rw [hst]
  refine ⟨hwaiting.trans ha.symm, fun _ => hf, ?_, ?_, ?_, ?_⟩
  · intro e
    rcases hst with hst | ⟨hst, -⟩ <;> rw [hst] at e <;> cases e
  · intro e
    rcases hst with hst | ⟨hst, -⟩ <;> rw [hst] at e <;> cases e
  · intro e
    rcases hst with hst | ⟨hst, -⟩ <;> rw [hst] at e <;> cases e
  · intro e
    rcases hst with hst | ⟨-, hq⟩
    · rw [hst] at e
      cases e
    · exact hq

/-- An end that posts packets stands as it did. -/
theorem Stands.posts (h : Stands t x s g gy out back) (hr : s.state ≠ .resetting)
    (hp : Posts t x s s' g gy out back) :
    ∃ queue outbound events, s' = { s with outbound := outbound, events := events } ∧
      Stands t x s' { g with queue := queue } gy out back := by
  obtain ⟨queue, outbound, events, rfl, hb, hs⟩ := hp
  exact ⟨queue, outbound, events, rfl, hb, h.phase.posts hr _ _ _, hs⟩

theorem Stands.postAck (h : Stands t x s g gy out back) (ha : g.alive = true)
    (hr : s.state ≠ .resetting) (hwindow : t.config.window ≤ 128) :
    ∃ queue outbound events, s.postAck = { s with outbound := outbound, events := events } ∧
      Stands t x s.postAck { g with queue := queue } gy out back :=
  h.posts hr (Posts.ack h.books h.sound ha (by omega))

theorem Stands.raise (h : Stands t x s g gy out back) (e : Event) :
    Stands t x (s.raise e) g gy out back := by
  obtain ⟨events, he⟩ := raise_fields s e
  refine ⟨h.books.raise e, ?_, h.sound⟩
  rw [he]
  exact { h.phase with }

end NarrowLink.Connection

import NarrowLink.Proofs.Session.TakesNothing

/-!
# What a session hands out is in sequence

The peer of a session may send anything.  Whatever it sends, the numbers of the packets that the
session hands out follow each other, from the one after the packet that began the connection
(`inSequence_after`).  The owner hands out what is in sequence whenever it is told that there is
something (`Watch.receive`), and uses the session in any other way in between.

The numbers are in order as long as the connection is open (`Orderly`), and nothing more is handed out
after it.
-/

namespace NarrowLink.Connection

open Wire

/-- A session, and what was seen of it. -/
structure Watch where
  session : Session
  /-- The number of the packet with which the peer began the connection. -/
  greeting : Option UInt8
  /-- The packets that were handed out, first to last. -/
  handed : List Packet

/-- What happens to a session. -/
inductive Use where
  /-- A packet arrives, whatever it is. -/
  | receive (p : Packet)
  | send (ps : List Packet) (now : Nat) (number : List Packet → List Packet)
  | close (now : Nat)
  | reset
  | tick (now : Nat)
  | fetchOutbound
  | giveBack (ps : List Packet)

namespace Watch

/-- A packet arrives.  The owner is told what happened, and takes what is available if it is told that
there is something. -/
def receive (w : Watch) (p : Packet) : Watch :=
  let (events, s) := (w.session.receive p).2.takeEvents
  let greeting := w.greeting.or (if s.state = .connected then some p.header.relSeq else none)
  if .inboundAvailable s.localPort ∈ events then
    let (ps, s) := s.fetchInbound
    ⟨s, greeting, w.handed ++ ps⟩
  else ⟨s, greeting, w.handed⟩

/-- The session in another state. -/
def update (w : Watch) (s : Session) : Watch := { w with session := s }

/-- What a use makes of a session. -/
def apply (w : Watch) : Use → Watch
  | .receive p => w.receive p
  | .send ps now number => w.update (w.session.send ps now fun ps => (number ps, ())).2
  | .close now => w.update (w.session.close now).2
  | .reset => w.update w.session.reset
  | .tick now => w.update (w.session.checkTimers now)
  | .fetchOutbound => w.update w.session.fetchOutbound.2
  | .giveBack ps => w.update (w.session.giveBack ps)

/-- What a run of uses makes of a session. -/
def after (w : Watch) (uses : List Use) : Watch := uses.foldl apply w

/-- The session of an initiator that has asked for a connection. -/
def asking (config : Config) (localPort remotePort channel : UInt8) (options : Options) (now : Nat) :
    Watch :=
  ⟨((Session.new config .initiator localPort remotePort channel options).connect now).2, none, []⟩

/-- The session of a responder that was asked for a connection. -/
def asked (config : Config) (localPort remotePort channel : UInt8) (options : Options) (syn : Packet)
    (now : Nat) : Watch :=
  ⟨((Session.new config .responder localPort remotePort channel options).accept syn now).2,
    some syn.header.relSeq, []⟩

/-- What was handed out is in sequence from the number after the greeting on, and while the connection
is open, the session expects the number after it and keeps each packet that arrived early once. -/
structure InSequence (w : Watch) : Prop where
  handed : ∀ g, w.greeting = some g → (w.handed.map fun p => p.header.relSeq) =
    (List.range w.handed.length).map (Serial.forward (Serial.next g))
  ungreeted : w.greeting = none → w.handed = []
  expected : w.session.Open → ∃ g, w.greeting = some g ∧
    w.session.expected = Serial.forward (Serial.next g) w.handed.length
  nodup : w.session.Open →
    ((w.session.inbound.packets w.session.localPort).map fun p => p.header.relSeq).Nodup
  early : w.session.Open → ∀ b, w.session.early.get b = true ↔
    ∃ p ∈ w.session.inbound.packets w.session.localPort, p.header.relSeq = b
  others : w.session.Open → ∀ port, port ≠ w.session.localPort → w.session.inbound.packets port = []

end Watch

/-! ## An orderly session -/

/-- Nothing has arrived yet. -/
structure Blank (s : Session) : Prop where
  holds : s.inbound.Holds s.localPort []
  early : ∀ b, s.early.get b = false

/-- A session that has handed out `n` packets, and has `k` more in sequence. -/
structure Orderly (port : UInt8) (s : Session) (greeting : Option UInt8) (n k : Nat) : Prop where
  localPort : s.localPort = port
  window : s.config.window ≤ 128
  begins : s.state = .connecting → n = 0 ∧ Blank s
  initiator : s.state = .connecting → s.role = .initiator → greeting = none
  responder : s.state = .connecting → s.role = .responder →
    ∃ g, greeting = some g ∧ s.expected = Serial.next g
  follows : s.Open → ∃ g ps, greeting = some g ∧ Waits s (Serial.forward (Serial.next g) n) k ps

/-- A session that may have taken more packets in sequence, of which its owner is to be told. -/
def Rises (port : UInt8) (s : Session) (greeting : Option UInt8) (n : Nat) : Prop :=
  ∃ k, Orderly port s greeting n k ∧ (k ≠ 0 → s.Reports) ∧ (s.Reports → s.Open)

variable {s s' : Session} {greeting : Option UInt8} {n k : Nat} {p : Packet}
  {port : UInt8}

theorem Blank.waits (h : Blank s) : Waits s s.expected 0 [] :=
  ⟨h.holds, .nil, by simp, rfl, by simp, by simpa using h.early⟩

theorem Blank.congr (h : Blank s) (hport : s'.localPort = s.localPort)
    (hinbound : s'.inbound = s.inbound) (hearly : s'.early = s.early) : Blank s' :=
  ⟨hinbound ▸ hport ▸ h.holds, hearly ▸ h.early⟩

theorem Waits.congr {e : UInt8} {ps : List Packet} (h : Waits s e k ps)
    (hport : s'.localPort = s.localPort) (hinbound : s'.inbound = s.inbound)
    (hearly : s'.early = s.early) (hexpected : s'.expected = s.expected) : Waits s' e k ps :=
  ⟨hinbound ▸ hport ▸ h.holds, h.sorted, h.near, hexpected.trans h.expected, h.run, hearly ▸ h.early⟩

theorem Session.Open.not_over (h : s.Open) : ¬ s.Over := by
  rintro (ho | ho) <;> rcases h with h | h <;> rw [h] at ho <;> cases ho

theorem Session.not_over_of_connecting (h : s.state = .connecting) : ¬ s.Over := by
  rintro (ho | ho) <;> rw [h] at ho <;> cases ho

theorem TakesNothing.of_open (ht : TakesNothing s s') (h : s'.Open) : s.Open := by
  rcases ht.state with he | ⟨hc, -⟩ | hover
  · rwa [Session.Open, he] at h
  · exact .inl hc
  · exact absurd hover h.not_over

theorem TakesNothing.of_connecting (ht : TakesNothing s s') (h : s'.state = .connecting) :
    s.state = .connecting := by
  rcases ht.state with he | ⟨-, hd⟩ | hover | hover
  · exact he.symm.trans h
  all_goals
    rw [h] at *
    contradiction

theorem TakesNothing.intake_of_not_over (ht : TakesNothing s s') (h : ¬ s'.Over) :
    s'.inbound = s.inbound ∧ s'.early = s.early ∧ s'.expected = s.expected ∧ s'.hasGap = s.hasGap :=
  ht.intake.resolve_left h

theorem Orderly.takesNothing (h : Orderly port s greeting n k) (ht : TakesNothing s s') :
    Orderly port s' greeting n k := by
  refine ⟨ht.localPort.trans h.localPort, ht.config ▸ h.window, ?_, ?_, ?_, ?_⟩
  · intro hs
    obtain ⟨hinbound, hearly, -, -⟩ := ht.intake_of_not_over (Session.not_over_of_connecting hs)
    obtain ⟨hn, hblank⟩ := h.begins (ht.of_connecting hs)
    exact ⟨hn, hblank.congr ht.localPort hinbound hearly⟩
  · exact fun hs hrole => h.initiator (ht.of_connecting hs) (ht.role ▸ hrole)
  · intro hs hrole
    obtain ⟨-, -, hexpected, -⟩ := ht.intake_of_not_over (Session.not_over_of_connecting hs)
    rw [hexpected]
    exact h.responder (ht.of_connecting hs) (ht.role ▸ hrole)
  · intro hs
    obtain ⟨hinbound, hearly, hexpected, -⟩ := ht.intake_of_not_over hs.not_over
    obtain ⟨g, ps, hg, hw⟩ := h.follows (ht.of_open hs)
    exact ⟨g, ps, hg, hw.congr ht.localPort hinbound hearly hexpected⟩

theorem Orderly.rises (h : Orderly port s greeting n 0) (hq : ¬ s.Reports) (ht : TakesNothing s s') :
    Rises port s' greeting n :=
  ⟨0, h.takesNothing ht, fun e => absurd rfl e, fun hr => absurd (ht.reports.1 hr) hq⟩

/-! ## Packets that arrive -/

theorem Session.Open.not_connecting (h : s.Open) : s.state ≠ .connecting := by
  rcases h with h | h <;> rw [h] <;> decide

/-- Of an open session, only what it has taken matters. -/
theorem Orderly.of_open (hlocal : s.localPort = port) (hwindow : s.config.window ≤ 128) (hopen : s.Open)
    (h : ∃ g ps, greeting = some g ∧ Waits s (Serial.forward (Serial.next g) n) k ps) :
    Orderly port s greeting n k :=
  ⟨hlocal, hwindow, fun hs => absurd hs hopen.not_connecting, fun hs => absurd hs hopen.not_connecting,
    fun hs => absurd hs hopen.not_connecting, fun _ => h⟩

theorem Orderly.absorb (h : Orderly port s greeting n 0) (hopen : s.Open) (hport : p.port = port)
    (hnear : Serial.distance s.expected p.header.relSeq < s.config.window)
    (hnew : s.early.get p.header.relSeq = false) {q : Queue} (hpush : s.inbound.push p = .ok q) :
    Rises port (s.absorb q p.header.relSeq).postAck greeting n := by
  obtain ⟨g, ps, hg, hw⟩ := h.follows hopen
  have hexpected : s.expected = Serial.forward (Serial.next g) n := hw.expected
  have hahead : ahead (Serial.forward (Serial.next g) n) p < 128 := by
    unfold ahead
    rw [← hexpected]
    exact Nat.lt_of_lt_of_le hnear h.window
  obtain ⟨k, hw', htold⟩ := hw.absorb (hport.trans h.localPort.symm) hahead hnew hpush
  have ht := TakesNothing.postAck (s.absorb q p.header.relSeq)
  obtain ⟨early, expected, hasGap, events, hfields⟩ := absorb_fields s q p.header.relSeq
  rw [hfields] at hw' htold ht ⊢
  have hstands : Orderly port { s with
      inbound := q, early := early, expected := expected, hasGap := hasGap, events := events }
      greeting n k := .of_open h.localPort h.window hopen ⟨g, _, hg, hw'⟩
  refine ⟨k, hstands.takesNothing ht, fun hk => ht.reports.2 (htold hk), fun _ => ?_⟩
  obtain ⟨outbound, events', hack⟩ := postAck_fields { s with
    inbound := q, early := early, expected := expected, hasGap := hasGap, events := events }
  rw [hack]
  exact hopen

/-- The acknowledgement in a packet takes nothing, and leaves the connection open. -/
theorem TakesNothing.credit (hopen : s.Open) (p : Packet) :
    TakesNothing s (if p.header.flags.ack then s.acknowledge p.header.ack else s) ∧
      (if p.header.flags.ack then s.acknowledge p.header.ack else s).Open := by
  split
  · refine ⟨.acknowledge s _, ?_⟩
    obtain ⟨inFlight, oldest, he⟩ := acknowledge_fields s p.header.ack
    rw [he]
    exact hopen
  · exact ⟨.refl s, hopen⟩

theorem Orderly.receiveData (h : Orderly port s greeting n 0) (hq : ¬ s.Reports) (hopen : s.Open)
    (hport : p.port = port) : Rises port (s.receiveData p).2 greeting n := by
  unfold Session.receiveData
  simp only
  split
  · split
    · exact h.rises hq (.postAck s)
    · exact h.rises hq (.refl s)
  rename_i hnear
  split
  · exact h.rises hq (.postAck s)
  rename_i hnew
  split
  · exact h.rises hq (.refl s)
  · rename_i q hpush
    exact h.absorb hopen hport (Nat.not_le.1 hnear) (Bool.not_eq_true _ ▸ hnew) hpush

theorem Orderly.receiveOpen (h : Orderly port s greeting n 0) (hq : ¬ s.Reports) (hopen : s.Open)
    (hport : p.port = port) : Rises port (s.receiveOpen p).2 greeting n := by
  have hcredited := TakesNothing.credit hopen p
  unfold Session.receiveOpen
  simp only
  split
  · split
    · exact h.rises hq (.postAck s)
    · exact h.rises hq (.refl s)
  generalize (if p.header.flags.ack then s.acknowledge p.header.ack else s) = r at hcredited
  obtain ⟨ht, hr⟩ := hcredited
  split
  · split
    · exact h.rises hq ht
    · exact h.rises hq (ht.trans (.acknowledgeRanges r _))
  split
  · exact h.rises hq (ht.trans (.receiveClosing r p))
  split
  · exact (h.takesNothing ht).receiveData (fun e => hq (ht.reports.1 e)) hr hport
  · exact h.rises hq ht

/-- The greeting of a session after a packet: the packet is the greeting if it made the session open. -/
def greetingAfter (greeting : Option UInt8) (s' : Session) (p : Packet) : Option UInt8 :=
  greeting.or (if s'.state = .connected then some p.header.relSeq else none)

/-- What takes nothing is no greeting. -/
theorem Orderly.greetingAfter_eq (h : Orderly port s greeting n k) (ht : TakesNothing s s') (p : Packet) :
    greetingAfter greeting s' p = greeting := by
  unfold greetingAfter
  split
  · rename_i hs
    obtain ⟨g, -, hg, -⟩ := h.follows (ht.of_open (.inl hs))
    rw [hg]
    rfl
  · exact Option.or_none

theorem greetingAfter_some (g : UInt8) (s' : Session) (p : Packet) :
    greetingAfter (some g) s' p = some g := rfl

/-- The packet that answers the request for the connection. -/
theorem Orderly.welcomed (h : Orderly port s greeting n 0) (hs : s.state = .connecting) :
    Orderly port (s.welcomed p) (some p.header.relSeq) n 0 ∧ (s.welcomed p).state = .connected := by
  obtain ⟨hn, hblank⟩ := h.begins hs
  subst hn
  obtain ⟨hexpected, hearly⟩ := runFrom_single hblank.early p.header.relSeq
  obtain ⟨inFlight, oldest, events, hwelcomed⟩ := welcomed_eq s p
  rw [hwelcomed]
  refine ⟨.of_open h.localPort h.window (.inl rfl) ⟨_, [], rfl, ?_⟩, rfl⟩
  refine ⟨hblank.holds, .nil, by simp, hexpected, by simp, fun b => ?_⟩
  show (Session.runFrom 256 (s.early.set p.header.relSeq true) p.header.relSeq).1.get b = true ↔ _
  rw [hearly b]
  simp

theorem Orderly.receiveConnecting (h : Orderly port s greeting n 0) (hq : ¬ s.Reports)
    (hs : s.state = .connecting) (hport : p.port = port) :
    Rises port (s.receiveConnecting p).2 (greetingAfter greeting (s.receiveConnecting p).2 p) n := by
  have hidle : ∀ {s' : Session}, TakesNothing s s' → Rises port s' (greetingAfter greeting s' p) n := by
    intro s' ht
    rw [h.greetingAfter_eq ht p]
    exact h.rises hq ht
  unfold Session.receiveConnecting
  simp only
  split
  · rename_i hrole
    split
    · exact hidle (.refl s)
    split
    · exact hidle (.refl s)
    · have hgreeting : greeting = none := h.initiator hs hrole
      obtain ⟨hw, hstate⟩ := h.welcomed (p := p) hs
      have ht := TakesNothing.postAck (s.welcomed p)
      obtain ⟨outbound, events, hack⟩ := postAck_fields (s.welcomed p)
      have hconnected : (s.welcomed p).postAck.state = .connected := by
        rw [hack]
        exact hstate
      have hafter : greetingAfter greeting (s.welcomed p).postAck p = some p.header.relSeq := by
        unfold greetingAfter
        rw [hgreeting, if_pos hconnected]
        rfl
      refine ⟨0, ?_, fun e => absurd rfl e, fun _ => .inl hconnected⟩
      show Orderly port (s.welcomed p).postAck (greetingAfter greeting (s.welcomed p).postAck p) n 0
      rw [hafter]
      exact hw.takesNothing ht
  · rename_i hrole
    obtain ⟨g, hg, hexpected⟩ := h.responder hs hrole
    split
    · split
      · exact hidle (.refl s)
      · exact hidle (.post s _)
    split
    · exact hidle (.refl s)
    obtain ⟨hn, hblank⟩ := h.begins hs
    obtain ⟨events, hmove⟩ := moveTo_fields s .connected
    have hq' : ¬ (s.moveTo .connected).Reports := fun e => hq ((TakesNothing.reports_moveTo s _).1 e)
    rw [hg]
    simp only [greetingAfter_some]
    rw [hmove] at hq' ⊢
    have hconfirmed : Orderly port { s with state := .connected, events := events } (some g) n 0 := by
      subst hn
      have hw := hblank.waits
      rw [hexpected] at hw
      exact .of_open h.localPort h.window (.inl rfl) ⟨g, [], rfl, hw.congr rfl rfl rfl rfl⟩
    split
    · exact hconfirmed.receiveOpen hq' (.inl rfl) hport
    · exact hconfirmed.rises hq' (.acknowledge _ _)

theorem Orderly.receive (h : Orderly port s greeting n 0) (hq : ¬ s.Reports) (hport : p.port = port) :
    Rises port (s.receive p).2 (greetingAfter greeting (s.receive p).2 p) n := by
  have hidle : ∀ {s' : Session}, TakesNothing s s' → Rises port s' (greetingAfter greeting s' p) n := by
    intro s' ht
    rw [h.greetingAfter_eq ht p]
    exact h.rises hq ht
  have hopened : s.Open → Rises port (s.receiveOpen p).2 (greetingAfter greeting (s.receiveOpen p).2 p) n := by
    intro hopen
    obtain ⟨g, -, hg, -⟩ := h.follows hopen
    rw [hg, greetingAfter_some, ← hg]
    exact h.receiveOpen hq hopen hport
  unfold Session.receive
  split
  · exact hidle (.moveTo_over (.inl rfl) rfl rfl rfl Iff.rfl)
  cases hs : s.state with
  | connecting => exact h.receiveConnecting hq hs hport
  | connected => exact hopened (.inl hs)
  | disconnecting => exact hopened (.inr hs)
  | resetting => exact hidle (.refl s)
  | disconnected => exact hidle (.refl s)

/-! ## Runs -/

namespace Watch

/-- What is known of a session between two uses. -/
structure Kept (port : UInt8) (w : Watch) : Prop where
  orderly : Orderly port w.session w.greeting w.handed.length 0
  told : ¬ w.session.Reports
  handed : ∀ g, w.greeting = some g → (w.handed.map fun p => p.header.relSeq) =
    (List.range w.handed.length).map (Serial.forward (Serial.next g))
  ungreeted : w.greeting = none → w.handed = []

variable {w : Watch} {port : UInt8}

theorem Kept.inSequence (h : Kept port w) : InSequence w where
  handed := h.handed
  ungreeted := h.ungreeted
  expected := fun hopen => by
    obtain ⟨g, ps, hg, hw⟩ := h.orderly.follows hopen
    exact ⟨g, hg, hw.expected⟩
  nodup := fun hopen => by
    obtain ⟨g, ps, -, hw⟩ := h.orderly.follows hopen
    rw [hw.holds.packets]
    exact hw.nodup
  early := fun hopen b => by
    obtain ⟨g, ps, -, hw⟩ := h.orderly.follows hopen
    rw [hw.holds.packets, hw.early b]
    simp
  others := fun hopen => by
    obtain ⟨g, ps, -, hw⟩ := h.orderly.follows hopen
    exact hw.holds.others

theorem Kept.update (h : Kept port w) {s : Session} (ht : TakesNothing w.session s) :
    Kept port (w.update s) :=
  ⟨h.orderly.takesNothing ht, fun e => h.told (ht.reports.1 e),
    h.handed, h.ungreeted⟩

theorem Kept.receive (h : Kept port w) {p : Packet} (hport : p.port = port) :
    Kept port (w.receive p) := by
  obtain ⟨k, ho, htold, hopen⟩ := h.orderly.receive h.told hport
  let s := (w.session.receive p).2.takeEvents.2
  have hs : Orderly port s (greetingAfter w.greeting s p) w.handed.length k :=
    ⟨ho.localPort, ho.window, fun e => ⟨(ho.begins e).1, (ho.begins e).2.congr rfl rfl rfl⟩,
      ho.initiator, ho.responder, fun e => by
        obtain ⟨g, ps, hg, hw⟩ := ho.follows e
        exact ⟨g, ps, hg, hw.congr rfl rfl rfl rfl⟩⟩
  have hsilent : ¬ s.Reports := List.not_mem_nil
  have hmem : .inboundAvailable s.localPort ∈ (w.session.receive p).2.takeEvents.1 ↔
      (w.session.receive p).2.Reports := (Event.stateFirst_perm _).mem_iff
  have hold : ∀ g, greetingAfter w.greeting s p = some g → (w.handed.map fun p => p.header.relSeq) =
      (List.range w.handed.length).map (Serial.forward (Serial.next g)) := by
    intro g hg
    cases hw : w.greeting with
    | none => rw [h.ungreeted hw]; rfl
    | some g' =>
      rw [hw, greetingAfter_some] at hg
      exact h.handed g (hw.trans hg)
  by_cases hr : (w.session.receive p).2.Reports
  · have hreceive : w.receive p =
        ⟨s.fetchInbound.2, greetingAfter w.greeting s p, w.handed ++ s.fetchInbound.1⟩ :=
      if_pos (hmem.2 hr)
    obtain ⟨g, ps, hg, hw⟩ := hs.follows (hopen hr)
    obtain ⟨hnumbers, rest, q, hfetch, hrest⟩ := hw.fetchInbound
    have hlength : s.fetchInbound.1.length = k := by
      simpa using congrArg List.length hnumbers
    rw [← Serial.forward_add] at hrest
    rw [hreceive]
    refine ⟨?_, ?_, ?_, ?_⟩
    · simp only [List.length_append, hlength]
      rw [hfetch]
      exact .of_open hs.localPort hs.window (hopen hr) ⟨g, rest, hg, hrest⟩
    · rw [hfetch]
      exact hsilent
    · intro g' hg'
      obtain rfl : g' = g := Option.some.inj (hg'.symm.trans hg)
      rw [List.map_append, List.length_append, hlength, List.range_add, List.map_append, hold g' hg',
        hnumbers, List.map_map]
      congr 1
      exact List.map_congr_left fun i _ => (Serial.forward_add _ _ _).symm
    · intro hnone
      cases hnone.symm.trans hg
  · have hreceive : w.receive p = ⟨s, greetingAfter w.greeting s p, w.handed⟩ :=
      if_neg fun e => hr (hmem.1 e)
    have hk : k = 0 := by
      by_contra hk
      exact hr (htold hk)
    subst hk
    rw [hreceive]
    refine ⟨hs, hsilent, hold, fun hnone => ?_⟩
    have hungreeted : w.greeting = none := (Option.or_eq_none_iff.1 hnone).1
    exact h.ungreeted hungreeted

theorem Kept.apply (h : Kept port w) {u : Use} (hu : ∀ p, u = .receive p → p.port = port) :
    Kept port (w.apply u) := by
  cases u with
  | receive p => exact h.receive (hu p rfl)
  | send ps now number => exact h.update (.send _ _ _ _)
  | close now => exact h.update (.close _ _)
  | reset => exact h.update (.reset _)
  | tick now => exact h.update (.checkTimers _ _)
  | fetchOutbound => exact h.update (.fetchOutbound _)
  | giveBack ps => exact h.update (.giveBack _ _)

theorem Kept.after (h : Kept port w) {uses : List Use}
    (huses : ∀ p, .receive p ∈ uses → p.port = port) : Kept port (w.after uses) := by
  induction uses generalizing w with
  | nil => exact h
  | cons u uses ih =>
    exact ih (h.apply fun p hp => huses p (hp ▸ List.mem_cons_self))
      fun p hp => huses p (List.mem_cons_of_mem _ hp)

/-- A session at the beginning of a connection. -/
inductive Begins (config : Config) (localPort : UInt8) : Watch → Prop where
  /-- It has asked for the connection. -/
  | asking (remotePort channel : UInt8) (options : Options) (now : Nat) :
    Begins config localPort (asking config localPort remotePort channel options now)
  /-- It was asked for the connection. -/
  | asked (remotePort channel : UInt8) (options : Options) (syn : Packet) (now : Nat) :
    Begins config localPort (asked config localPort remotePort channel options syn now)

/-- Nothing has arrived at a session that has only begun. -/
theorem kept_of_begun {s : Session} {greeting : Option UInt8} (hport : s.localPort = port)
    (hwindow : s.config.window ≤ 128) (hstate : s.state = .disconnected ∨ s.state = .connecting)
    (hblank : Blank s) (hsilent : ¬ s.Reports) (hinitiator : s.role = .initiator → greeting = none)
    (hresponder : s.role = .responder → ∃ g, greeting = some g ∧ s.expected = Serial.next g) :
    Kept port ⟨s, greeting, []⟩ := by
  refine ⟨⟨hport, hwindow, fun _ => ⟨rfl, hblank⟩, fun _ => hinitiator, fun _ => hresponder, ?_⟩,
    hsilent, fun g _ => rfl, fun _ => rfl⟩
  intro hopen
  rcases hstate with hs | hs <;> rcases hopen with ho | ho <;> rw [hs] at ho <;> cases ho

/-- A session begins by queueing its first packet, if there is room for it. -/
theorem kept_of_postNumbered {s : Session} {greeting : Option UInt8} (hport : s.localPort = port)
    (hwindow : s.config.window ≤ 128) (hstate : s.state = .disconnected) (hblank : Blank s)
    (hsilent : ¬ s.Reports) (hinitiator : s.role = .initiator → greeting = none)
    (hresponder : s.role = .responder → ∃ g, greeting = some g ∧ s.expected = Serial.next g)
    (flags : Flags) (now : Nat) {r : Attempt Session Unit}
    (hr : r = match s.postNumbered flags now with
      | (.ok (), s') => (.ok (), s'.moveTo .connecting)
      | (.error e, s') => (.error e, s')) : Kept port ⟨r.2, greeting, []⟩ := by
  have hpost := (TakesNothing.postNumbered s flags now).reports
  rcases postNumbered_cases s flags now with ⟨e, he⟩ | ⟨s', events, he, hs'⟩
  · rw [he] at hr
    subst hr
    exact kept_of_begun hport hwindow (.inl hstate) hblank hsilent hinitiator hresponder
  · rw [he] at hr hpost
    have hsilent' : ¬ (s'.moveTo .connecting).Reports := fun h =>
      hsilent (hpost.1 ((TakesNothing.reports_moveTo s' .connecting).1 h))
    obtain ⟨events', hmove⟩ := moveTo_fields s' .connecting
    simp only at hr
    rw [hmove, hs'] at hsilent' hr
    subst hr
    exact kept_of_begun hport hwindow (.inr rfl) (hblank.congr rfl rfl rfl) hsilent' hinitiator hresponder

theorem Begins.kept {config : Config} (hconfig : config.Valid) (h : Begins config port w) :
    Kept port w := by
  have hblank : ∀ role remotePort channel options,
      Blank (Session.new config role port remotePort channel options) :=
    fun _ _ _ _ => ⟨Queue.holds_empty _ _, fun b => ByteMap.get_const _ _⟩
  cases h with
  | asking remotePort channel options now =>
    exact kept_of_postNumbered rfl hconfig.window_le rfl (hblank .initiator remotePort channel options)
      List.not_mem_nil (fun _ => rfl) (fun e => nomatch e) .opening now rfl
  | asked remotePort channel options syn now =>
    exact kept_of_postNumbered (s := { Session.new config .responder port remotePort channel options with
        expected := Serial.next syn.header.relSeq }) rfl hconfig.window_le rfl
      ((hblank .responder remotePort channel options).congr rfl rfl rfl) List.not_mem_nil
      (fun e => nomatch e) (fun _ => ⟨_, rfl, rfl⟩) .welcoming now rfl

/-- Whatever packets arrive for its port and however it is used, a session hands out packets whose numbers
follow each other from the greeting on, and keeps what it cannot hand out yet. -/
theorem inSequence_after {config : Config} (hconfig : config.Valid) (h : Begins config port w)
    {uses : List Use} (huses : ∀ p, .receive p ∈ uses → p.port = port) : (w.after uses).InSequence :=
  ((h.kept hconfig).after huses).inSequence

/-- A packet from port 7 to port 9. -/
def passing (flags : Flags) (relSeq ack : UInt8) : Packet :=
  ⟨{ kind := .connection, dst := 9, src := 7, flags := flags, relSeq := relSeq, ack := ack }, [], 0⟩

/-- The peer begins with number 254, confirms, and sends two packets that change places on the way, over
the end of the number space, and then a number that was handed out before. -/
def swapped : List Use :=
  [.receive (passing .acknowledging 255 1), .receive (passing .carrying 0 1),
    .receive (passing .carrying 255 1), .receive (passing .carrying 255 1)]

theorem inSequence_of_swapped :
    (∀ p, Use.receive p ∈ swapped → p.port = 9) ∧
      ((asked {} 9 7 0 {} (passing .opening 254 0) 0).after swapped).InSequence ∧
      ((asked {} 9 7 0 {} (passing .opening 254 0) 0).after swapped).handed.map
        (fun p => p.header.relSeq) = [255, 0] := by
  have hports : ∀ p, Use.receive p ∈ swapped → p.port = 9 := by
    intro p hp
    simp only [swapped, List.mem_cons, Use.receive.injEq, List.not_mem_nil, or_false] at hp
    rcases hp with rfl | rfl | rfl | rfl <;> rfl
  have hvalid : ({} : Config).Valid := (Config.validate_eq_ok_iff {}).1 rfl
  exact ⟨hports, inSequence_after hvalid (.asked 7 0 {} (passing .opening 254 0) 0) hports,
    by decide +kernel⟩

end Watch

end NarrowLink.Connection

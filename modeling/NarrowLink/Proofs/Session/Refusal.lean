import NarrowLink.Proofs.Session.Sequence

/-!
# What a refused packet leaves behind

A session looks at what a packet confirms or acknowledges before it looks at anything else in it.  If
it then refuses the packet, it is left as it was after this first look (`receive_refused`): a responder
may have become connected, and packets may be out of flight.  The queues, what is expected and the gaps
are never touched (`heeded_fields`).  So a refusal leaves no trace exactly if there was nothing to heed
(`refused_eq_self_iff`).
-/

namespace NarrowLink.Connection

open Wire

namespace Session

instance (s : Session) : Decidable s.Open := inferInstanceAs (Decidable (_ ∨ _))

/-- The packet confirms the answer of a responder to the request for the connection. -/
def Establishes (s : Session) (p : Packet) : Prop :=
  s.state = .connecting ∧ s.role = .responder ∧ p.header.flags.ack = true ∧
    s.confirmsNew p.header.ack = true

instance (s : Session) (p : Packet) : Decidable (s.Establishes p) :=
  inferInstanceAs (Decidable (_ ∧ _))

/-- The number lies among those that were sent, and is new or comes after a packet in flight. -/
def Clears (s : Session) (ack : UInt8) : Prop :=
  Serial.inRange ack s.oldestUnacked s.nextSeq = true ∧
    (ack ≠ s.oldestUnacked ∨
      ∃ f ∈ s.inFlight.flights, Serial.precedes f.packet.header.relSeq ack = true)

instance (s : Session) (ack : UInt8) : Decidable (s.Clears ack) :=
  inferInstanceAs (Decidable (_ ∧ _))

/-- The packet acknowledges something on an open connection. -/
def Credits (s : Session) (p : Packet) : Prop :=
  s.Open ∧ p.header.flags.syn = false ∧ p.header.flags.ack = true ∧ s.Clears p.header.ack

/-- The packet confirms or acknowledges something, whatever else it carries. -/
def Heeds (s : Session) (p : Packet) : Prop := s.Establishes p ∨ s.Credits p

instance (s : Session) (p : Packet) : Decidable (s.Heeds p) :=
  inferInstanceAs (Decidable (_ ∨ (_ ∧ _)))

/-- The session after it has looked at what a packet on an open connection acknowledges. -/
def credited (s : Session) (p : Packet) : Session :=
  if p.header.flags.syn = false ∧ p.header.flags.ack = true then s.acknowledge p.header.ack else s

/-- The session after it has looked at what a packet confirms and acknowledges. -/
def heeded (s : Session) (p : Packet) : Session :=
  if s.Establishes p then (s.moveTo .connected).credited p
  else if s.Open then s.credited p
  else s

variable {s : Session} {p : Packet} {e : Error}

/-! ## The first look -/

theorem acknowledgeBefore_eq_self_iff (f : InFlight) (ack : UInt8) :
    f.acknowledgeBefore ack = f ↔
      ¬ ∃ e ∈ f.flights, Serial.precedes e.packet.header.relSeq ack = true := by
  have hfilter := List.filter_eq_self (l := f.flights)
    (p := fun e => !Serial.precedes e.packet.header.relSeq ack)
  rw [InFlight.acknowledgeBefore, InFlight.mk.injEq, hfilter]
  simp

theorem acknowledge_eq_self_iff (s : Session) (ack : UInt8) :
    s.acknowledge ack = s ↔ ¬ s.Clears ack := by
  have hflights := acknowledgeBefore_eq_self_iff s.inFlight ack
  unfold acknowledge Clears
  split
  · rename_i hrange
    rw [and_iff_right hrange, not_or, not_not, ← hflights]
    constructor
    · intro h
      exact ⟨congrArg oldestUnacked h, congrArg inFlight h⟩
    · rintro ⟨hack, hkept⟩
      rw [hack] at hkept ⊢
      rw [hkept]
  · rename_i hrange
    exact ⟨fun _ h => hrange h.1, fun _ => rfl⟩

theorem credited_eq_self_iff (hopen : s.Open) : s.credited p = s ↔ ¬ s.Credits p := by
  unfold credited Credits
  split
  · rename_i hflags
    rw [acknowledge_eq_self_iff]
    exact not_congr ⟨fun h => ⟨hopen, hflags.1, hflags.2, h⟩, fun h => h.2.2.2⟩
  · rename_i hflags
    exact ⟨fun _ h => hflags ⟨h.2.1, h.2.2.1⟩, fun _ => rfl⟩

theorem credited_fields (s : Session) (p : Packet) : ∃ inFlight oldest,
    s.credited p = { s with inFlight := inFlight, oldestUnacked := oldest } := by
  unfold credited
  split
  · exact acknowledge_fields s p.header.ack
  · exact ⟨s.inFlight, s.oldestUnacked, rfl⟩

theorem heeded_of_open (hopen : s.Open) (p : Packet) : s.heeded p = s.credited p := by
  have hnot : ¬ s.Establishes p := fun h => hopen.not_connecting h.1
  rw [heeded, if_neg hnot, if_pos hopen]

theorem heeded_of_not_open (hopen : ¬ s.Open) (hnot : ¬ s.Establishes p) : s.heeded p = s := by
  rw [heeded, if_neg hnot, if_neg hopen]

/-- All that the first look at a packet touches. -/
theorem heeded_fields (s : Session) (p : Packet) : ∃ state inFlight oldest events,
    s.heeded p =
      { s with state := state, inFlight := inFlight, oldestUnacked := oldest, events := events } := by
  unfold heeded
  split
  · obtain ⟨events, hmove⟩ := moveTo_fields s .connected
    obtain ⟨inFlight, oldest, hcredit⟩ :=
      credited_fields { s with state := .connected, events := events } p
    exact ⟨.connected, inFlight, oldest, events, by rw [hmove, hcredit]⟩
  split
  · obtain ⟨inFlight, oldest, hcredit⟩ := credited_fields s p
    exact ⟨s.state, inFlight, oldest, s.events, hcredit⟩
  · exact ⟨s.state, s.inFlight, s.oldestUnacked, s.events, rfl⟩

theorem Establishes.state_heeded (h : s.Establishes p) : (s.heeded p).state = .connected := by
  obtain ⟨events, hmove⟩ := moveTo_fields s .connected
  obtain ⟨inFlight, oldest, hcredit⟩ :=
    credited_fields { s with state := .connected, events := events } p
  rw [heeded, if_pos h, hmove, hcredit]

theorem heeded_eq_self_iff (s : Session) (p : Packet) : s.heeded p = s ↔ ¬ s.Heeds p := by
  by_cases hestablishes : s.Establishes p
  · refine iff_of_false (fun heq => ?_) (fun hnot => hnot (.inl hestablishes))
    have hconnected := hestablishes.state_heeded
    rw [heq, hestablishes.1] at hconnected
    cases hconnected
  rw [Heeds, or_iff_right hestablishes]
  by_cases hopen : s.Open
  · rw [heeded_of_open hopen]
    exact credited_eq_self_iff hopen
  · exact iff_of_true (heeded_of_not_open hopen hestablishes) fun h => hopen h.1

/-! ## What is refused -/

theorem receiveClosing_refused (h : (s.receiveClosing p).1 = .error e) : (s.receiveClosing p).2 = s := by
  unfold receiveClosing at h ⊢
  split at h
  · rename_i hack
    rw [if_pos hack]
    split at h
    · cases h
    · rename_i hstate
      rw [if_neg hstate]
      rfl
  · rename_i hack
    rw [if_neg hack]
    split at h
    · rename_i hseq
      rw [if_pos hseq]
      rfl
    · cases h

theorem receiveData_refused (h : (s.receiveData p).1 = .error e) : (s.receiveData p).2 = s := by
  unfold receiveData at h ⊢
  simp only at h ⊢
  split at h
  · rename_i hfar
    rw [if_pos hfar]
    split at h
    · cases h
    · rename_i hnew
      rw [if_neg hnew]
      rfl
  · rename_i hnear
    rw [if_neg hnear]
    split at h
    · cases h
    rename_i hnew
    rw [if_neg hnew]
    split at h
    · rfl
    · cases h

/-- On an open connection, a packet that is refused was looked at for what it acknowledges. -/
theorem receiveOpen_refused (h : (s.receiveOpen p).1 = .error e) :
    (s.receiveOpen p).2 = s.credited p := by
  unfold receiveOpen at h ⊢
  by_cases hsyn : p.header.flags.syn = true
  · have hcredit : s.credited p = s := if_neg fun hflags => by simp [hsyn] at hflags
    simp only [if_pos hsyn] at h ⊢
    rw [hcredit]
    split at h
    · cases h
    · rename_i hanswer
      rw [if_neg hanswer]
      rfl
  · have hcredit : (if p.header.flags.ack then s.acknowledge p.header.ack else s) = s.credited p := by
      simp [credited, hsyn]
    simp only [if_neg hsyn, hcredit] at h ⊢
    split at h
    · rename_i hctrl
      rw [if_pos hctrl]
      split at h
      · rfl
      · cases h
    rename_i hctrl
    rw [if_neg hctrl]
    split at h
    · rename_i hfin
      rw [if_pos hfin]
      exact receiveClosing_refused h
    rename_i hfin
    rw [if_neg hfin]
    split at h
    · rename_i hdata
      rw [if_pos hdata]
      exact receiveData_refused h
    · cases h

/-- While connecting, only a packet that confirms the answer of a responder is heeded. -/
theorem receiveConnecting_refused (hstate : s.state = .connecting)
    (h : (s.receiveConnecting p).1 = .error e) : (s.receiveConnecting p).2 = s.heeded p := by
  have hclosed : ¬ s.Open := by
    rw [Open, hstate]
    decide
  unfold receiveConnecting at h ⊢
  cases hrole : s.role with
  | initiator =>
    have hnot : ¬ s.Establishes p := fun he => by simp [Establishes, hrole] at he
    rw [heeded_of_not_open hclosed hnot]
    simp only [hrole] at h ⊢
    split at h
    · rename_i hflags
      rw [if_pos hflags]
      rfl
    split at h
    · rename_i hflags hack
      rw [if_neg hflags, if_pos hack]
      rfl
    · cases h
  | responder =>
    simp only [hrole] at h ⊢
    split at h
    · rename_i hflags
      have hnot : ¬ s.Establishes p := fun he => by
        have hack := he.2.2.1
        rw [hflags] at hack
        cases hack
      rw [if_pos hflags, heeded_of_not_open hclosed hnot]
      split at h
      · rename_i hother
        rw [if_pos hother]
        rfl
      · cases h
    rename_i hflags
    rw [if_neg hflags]
    split at h
    · rename_i hack
      have hnot : ¬ s.Establishes p := fun he => by simp [he.2.2.1, he.2.2.2] at hack
      rw [if_pos hack, heeded_of_not_open hclosed hnot]
      rfl
    rename_i hack
    have hestablishes : s.Establishes p := ⟨hstate, hrole, by simpa using hack⟩
    rw [if_neg hack, heeded, if_pos hestablishes]
    split at h
    · rename_i hmore
      rw [if_pos hmore]
      exact receiveOpen_refused h
    · cases h

/-- A session that refuses a packet has only looked at what the packet confirms and acknowledges. -/
theorem receive_refused (h : (s.receive p).1 = .error e) : (s.receive p).2 = s.heeded p := by
  unfold receive at h ⊢
  split at h
  · cases h
  rename_i hrst
  rw [if_neg hrst]
  cases hstate : s.state with
  | connecting =>
    simp only [hstate] at h ⊢
    exact receiveConnecting_refused hstate h
  | connected =>
    simp only [hstate] at h ⊢
    rw [heeded_of_open (.inl hstate)]
    exact receiveOpen_refused h
  | disconnecting =>
    simp only [hstate] at h ⊢
    rw [heeded_of_open (.inr hstate)]
    exact receiveOpen_refused h
  | resetting =>
    simp only [hstate] at h
    cases h
  | disconnected =>
    simp only [hstate] at h ⊢
    have hnot : ¬ s.Establishes p := fun he => by simp [Establishes, hstate] at he
    rw [heeded_of_not_open (by simp [Open, hstate]) hnot]

/-- A refused packet leaves the session as it was exactly if it confirms and acknowledges nothing. -/
theorem refused_eq_self_iff (h : (s.receive p).1 = .error e) :
    (s.receive p).2 = s ↔ ¬ s.Heeds p := by
  rw [receive_refused h]
  exact heeded_eq_self_iff s p

end Session

namespace Watch

/-- A responder whose connection the peer has confirmed. -/
def confirmed : Watch :=
  (asked {} 9 7 0 {} (passing .opening 254 0) 0).after [.receive (passing .acknowledging 255 1)]

/-- Data far ahead is refused, and acknowledges nothing new. -/
theorem refused_eq_self_of_far_data :
    (confirmed.session.receive (passing .carrying 100 1)).1 =
        .error (.inconsistent (.outsideWindow 100 255)) ∧
      (confirmed.session.receive (passing .carrying 100 1)).2 = confirmed.session := by
  have hrefused : (confirmed.session.receive (passing .carrying 100 1)).1 =
      .error (.inconsistent (.outsideWindow 100 255)) := by
    decide +kernel
  exact ⟨hrefused, (Session.refused_eq_self_iff hrefused).2 (by decide +kernel)⟩

/-- Whatever happened to the session, a packet that it refuses leaves it as it was. -/
def RefusesUntouched (w : Watch) : Prop :=
  ∀ uses p e, ((w.after uses).session.receive p).1 = .error e →
    ((w.after uses).session.receive p).2 = (w.after uses).session

/-- A responder is asked to part before it has closed, by the packet that confirms the connection.  It
refuses the packet, and is connected all the same. -/
theorem not_refusesUntouched_of_parting :
    ¬ ∀ (config : Config) (port : UInt8) (w : Watch), config.Valid → Begins config port w →
      w.RefusesUntouched := by
  intro h
  have hvalid : ({} : Config).Valid := (Config.validate_eq_ok_iff {}).1 rfl
  have hsame := h {} 9 _ hvalid (.asked 7 0 {} (passing .opening 254 0) 0) []
    (passing .parting 255 1) (.inconsistent .partingWithoutClosing) (by decide +kernel)
  have hstate := congrArg Session.state hsame
  revert hstate
  decide +kernel

end Watch

end NarrowLink.Connection

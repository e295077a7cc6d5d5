import NarrowLink.Proofs.Session.Intake

/-!
# What leaves alone what a session has taken

What a session does apart from taking data leaves its inbound queue alone, what it expects next and what
it knows of gaps, unless it ends the connection (`TakesNothing`).  So it does when it sends, looks at its
timers or is closed, and when it answers packets without data.
-/

namespace NarrowLink.Connection

open Wire

namespace Session

/-- Data can arrive. -/
def Open (s : Session) : Prop := s.state = .connected ∨ s.state = .disconnecting

/-- The connection has ended, or ends as soon as the reset is taken. -/
def Over (s : Session) : Prop := s.state = .disconnected ∨ s.state = .resetting

/-- The owner is yet to be told that packets in sequence are available. -/
def Reports (s : Session) : Prop := .inboundAvailable s.localPort ∈ s.events

end Session

/-- The second session has taken no data since the first, and may have ended. -/
structure TakesNothing (s s' : Session) : Prop where
  config : s'.config = s.config
  role : s'.role = s.role
  localPort : s'.localPort = s.localPort
  reports : s'.Reports ↔ s.Reports
  state : s'.state = s.state ∨ s.state = .connected ∧ s'.state = .disconnecting ∨ s'.Over
  intake : s'.Over ∨ s'.inbound = s.inbound ∧ s'.early = s.early ∧ s'.expected = s.expected ∧
    s'.hasGap = s.hasGap

namespace TakesNothing

variable {s s' s'' : Session}

theorem refl (s : Session) : TakesNothing s s :=
  ⟨rfl, rfl, rfl, Iff.rfl, .inl rfl, .inr ⟨rfl, rfl, rfl, rfl⟩⟩

theorem trans (h : TakesNothing s s') (h' : TakesNothing s' s'') : TakesNothing s s'' := by
  refine ⟨h'.config.trans h.config, h'.role.trans h.role, h'.localPort.trans h.localPort,
    h'.reports.trans h.reports, ?_, ?_⟩
  · rcases h'.state with he | ⟨hc, hd⟩ | hover
    · rcases h.state with he' | ⟨hc', hd'⟩ | hover'
      · exact .inl (he.trans he')
      · exact .inr (.inl ⟨hc', he.trans hd'⟩)
      · exact .inr (.inr (by rwa [Session.Over, he]))
    · rcases h.state with he' | ⟨-, hd'⟩ | hover' | hover'
      · exact .inr (.inl ⟨he' ▸ hc, hd⟩)
      · rw [hc] at hd'
        cases hd'
      · rw [hc] at hover'
        cases hover'
      · rw [hc] at hover'
        cases hover'
    · exact .inr (.inr hover)
  · rcases h'.intake with hover | ⟨hi', he', hx', hg'⟩
    · exact .inl hover
    rcases h.intake with hover | ⟨hi, he, hx, hg⟩
    · refine .inl ?_
      rcases h'.state with hstate | ⟨hc, -⟩ | hover'
      · rwa [Session.Over, hstate]
      · rcases hover with hover | hover
        · rw [hc] at hover
          cases hover
        · rw [hc] at hover
          cases hover
      · exact hover'
    · exact .inr ⟨hi'.trans hi, he'.trans he, hx'.trans hx, hg'.trans hg⟩

/-- Nothing that was taken changes. -/
theorem of_intake (hconfig : s'.config = s.config) (hrole : s'.role = s.role)
    (hport : s'.localPort = s.localPort) (hevents : s'.events = s.events) (hstate : s'.state = s.state)
    (hinbound : s'.inbound = s.inbound) (hearly : s'.early = s.early)
    (hexpected : s'.expected = s.expected) (hgap : s'.hasGap = s.hasGap) : TakesNothing s s' :=
  ⟨hconfig, hrole, hport, by rw [Session.Reports, hevents, hport, Session.Reports], .inl hstate,
    .inr ⟨hinbound, hearly, hexpected, hgap⟩⟩

theorem raise (s : Session) {e : Event} (he : e ≠ .inboundAvailable s.localPort) :
    TakesNothing s (s.raise e) := by
  have hmem := mem_events_raise s e (.inboundAvailable s.localPort)
  obtain ⟨events, hfields⟩ := raise_fields s e
  rw [hfields] at hmem ⊢
  refine ⟨rfl, rfl, rfl, ?_, .inl rfl, .inr ⟨rfl, rfl, rfl, rfl⟩⟩
  exact hmem.trans (or_iff_left fun h => he h.symm)

theorem queued (s : Session) (q : Queue) : TakesNothing s { s with outbound := q } :=
  of_intake rfl rfl rfl rfl rfl rfl rfl rfl rfl

/-- Closing in order takes nothing. -/
theorem moveTo_disconnecting (h : s.state = .connected) : TakesNothing s (s.moveTo .disconnecting) := by
  have hraise := raise { s with state := .disconnecting }
    (e := .stateChanged s.localPort s.remotePort s.state .disconnecting) (by simp)
  have hmoved : TakesNothing s { s with state := .disconnecting } :=
    ⟨rfl, rfl, rfl, Iff.rfl, .inr (.inl ⟨h, rfl⟩), .inr ⟨rfl, rfl, rfl, rfl⟩⟩
  unfold Session.moveTo
  rw [if_neg (by rw [h]; decide)]
  exact hmoved.trans hraise

theorem reports_moveTo (s : Session) (state : State) : (s.moveTo state).Reports ↔ s.Reports := by
  unfold Session.moveTo
  split
  · exact Iff.rfl
  · exact (raise { s with state := state }
      (e := .stateChanged s.localPort s.remotePort s.state state) (by simp)).reports

/-- Ending the connection takes nothing, whatever is dropped. -/
theorem moveTo_over {state : State} (hstate : state = .disconnected ∨ state = .resetting)
    (hconfig : s'.config = s.config) (hrole : s'.role = s.role) (hport : s'.localPort = s.localPort)
    (hreports : s'.Reports ↔ s.Reports) : TakesNothing s (s'.moveTo state) := by
  have hmoved := (reports_moveTo s' state).trans hreports
  obtain ⟨events, he⟩ := moveTo_fields s' state
  rw [he] at hmoved ⊢
  exact ⟨hconfig, hrole, hport, hmoved, .inr (.inr hstate), .inl hstate⟩

theorem post (s : Session) (p : Packet) : TakesNothing s (s.post p) := by
  unfold Session.post
  split
  · rename_i q _
    exact (queued s q).trans (raise { s with outbound := q } (by simp))
  · exact refl s

theorem postGapReport (s : Session) : TakesNothing s s.postGapReport := by
  unfold Session.postGapReport
  split
  · exact post s _
  · exact refl s

theorem postAck (s : Session) : TakesNothing s s.postAck := (post s _).trans (postGapReport _)

theorem acknowledge (s : Session) (ack : UInt8) : TakesNothing s (s.acknowledge ack) := by
  unfold Session.acknowledge
  split
  · exact of_intake rfl rfl rfl rfl rfl rfl rfl rfl rfl
  · exact refl s

theorem acknowledgeRanges (s : Session) (ranges : List (UInt8 × UInt8)) :
    TakesNothing s (s.acknowledgeRanges ranges) :=
  of_intake rfl rfl rfl rfl rfl rfl rfl rfl rfl

theorem postNumbered (s : Session) (flags : Flags) (now : Nat) :
    TakesNothing s (s.postNumbered flags now).2 := by
  have hgiven : ∀ f, TakesNothing s { s with nextSeq := Serial.next s.nextSeq, inFlight := f } :=
    fun f => of_intake rfl rfl rfl rfl rfl rfl rfl rfl rfl
  unfold Session.postNumbered
  simp only
  split
  · split
    · exact ((hgiven _).trans (queued _ _)).trans (raise _ (by simp))
    · exact hgiven _
  · exact refl s

theorem reset (s : Session) : TakesNothing s s.reset := by
  have hposted := post s.discard (s.discard.packet .resetting s.nextSeq [])
  unfold Session.reset
  split
  · exact refl s
  · exact refl s
  · exact moveTo_over (.inr rfl) hposted.config hposted.role hposted.localPort hposted.reports

theorem close (s : Session) (now : Nat) : TakesNothing s (s.close now).2 := by
  unfold Session.close
  split
  · rename_i hstate
    have hpost := postNumbered s .closing now
    rcases postNumbered_cases s .closing now with ⟨e, he⟩ | ⟨s', events, he, hs'⟩ <;> rw [he] at hpost ⊢
    · exact hpost
    · exact hpost.trans (moveTo_disconnecting (by rw [hs']; exact hstate))
  · exact reset s
  · exact refl s
  · exact refl s
  · exact refl s

theorem stamp (s : Session) (ps : List Packet) : TakesNothing s (s.stamp ps).2 := by
  induction ps generalizing s with
  | nil => exact refl s
  | cons p ps ih =>
    have hgiven : TakesNothing s { s with nextSeq := Serial.next s.nextSeq } :=
      of_intake rfl rfl rfl rfl rfl rfl rfl rfl rfl
    exact hgiven.trans (ih _)

theorem launch (s : Session) (now : Nat) (ps : List Packet) : TakesNothing s (s.launch now ps).2 := by
  induction ps generalizing s with
  | nil => exact refl s
  | cons p ps ih =>
    have hflying : TakesNothing s { s with inFlight := s.inFlight.push p now } :=
      of_intake rfl rfl rfl rfl rfl rfl rfl rfl rfl
    unfold Session.launch
    simp only
    split
    · exact hflying
    · exact (hflying.trans (queued _ _)).trans (ih _)

theorem send {α : Type} (s : Session) (ps : List Packet) (now : Nat)
    (number : List Packet → List Packet × α) : TakesNothing s (s.send ps now number).2 := by
  have hstamped := (postGapReport s).trans (stamp s.postGapReport ps)
  have hlaunched := hstamped.trans
    (launch (s.postGapReport.stamp ps).2 now (number (s.postGapReport.stamp ps).1).1)
  unfold Session.send
  split
  · exact refl s
  simp only
  split <;> rename_i he <;> rw [he] at hlaunched
  · exact hlaunched
  · exact hlaunched.trans (raise _ (by simp))

theorem sendDue (s : Session) (ps : List Packet) : TakesNothing s
    (ps.foldl (fun s p => s.post { p with header := { p.header with ack := s.expected } }) s) := by
  induction ps generalizing s with
  | nil => exact refl s
  | cons p ps ih => exact (post s _).trans (ih _)

theorem checkTimers (s : Session) (now : Nat) : TakesNothing s (s.checkTimers now) := by
  have hreminded : TakesNothing s
      (if s.outbound.isEmpty then s else s.raise (.outboundAvailable s.localPort)) := by
    split
    · exact refl s
    · exact raise s (by simp)
  have hcounted : ∀ (s : Session) f, TakesNothing s { s with inFlight := f } :=
    fun s f => of_intake rfl rfl rfl rfl rfl rfl rfl rfl rfl
  unfold Session.checkTimers
  generalize (if s.outbound.isEmpty then s else s.raise (.outboundAvailable s.localPort)) = r at hreminded
  simp only
  split
  · split
    · exact (hreminded.trans (hcounted r _)).trans (sendDue _ _)
    · exact (hreminded.trans (hcounted r _)).trans (reset _)
  · exact hreminded

theorem fetchOutbound (s : Session) : TakesNothing s s.fetchOutbound.2 :=
  fetchOutbound_keeps (P := TakesNothing s) (fun q h => h.trans (queued _ q))
    (fun h => h.trans (moveTo_over (.inl rfl) rfl rfl rfl Iff.rfl)) (refl s)

theorem giveBack (s : Session) (ps : List Packet) : TakesNothing s (s.giveBack ps) :=
  giveBack_keeps (P := TakesNothing s) (fun q h => h.trans (queued _ q)) (refl s) ps

/-- Closing takes no data, whether it is a request or an answer. -/
theorem receiveClosing (s : Session) (p : Packet) : TakesNothing s (s.receiveClosing p).2 := by
  let passed : Session := { s with expected := Serial.next s.expected }
  have hposted := post passed (passed.packet .parting s.nextSeq [])
  unfold Session.receiveClosing
  split
  · split
    · exact moveTo_over (.inl rfl) rfl rfl rfl Iff.rfl
    · exact refl s
  split
  · exact refl s
  · exact moveTo_over (.inl rfl) hposted.config hposted.role hposted.localPort hposted.reports

end TakesNothing

end NarrowLink.Connection

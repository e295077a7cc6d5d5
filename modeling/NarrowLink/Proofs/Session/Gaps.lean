import NarrowLink.Proofs.Session.Ranges
import NarrowLink.Proofs.Session.Reporting
import NarrowLink.Proofs.Session.Sequence

/-!
# A report says exactly what arrived early

What a session has taken beyond a gap lies in its receive window, ahead of what is expected next, and the
session knows whether there is anything (`Aware`).  So the ranges that it reports are those of the
numbers that arrived early, and of no others.  They come back unchanged from the payload of a report, and
the peer takes out of flight what has arrived and keeps the rest (`ReportsExactly`).  This does not
depend on what arrives, nor on when the owner takes what there is for it (`reportsExactly_after`).
-/

namespace NarrowLink.Connection

open Wire

/-- Something that happens to a session.  The owner takes what there is for it whenever it likes. -/
inductive Handling where
  | use (u : Use)
  | takeEvents
  | fetchInbound

namespace Session

/-- What comes of it. -/
def handle (s : Session) : Handling → Session
  | .use (.receive p) => (s.receive p).2
  | .use (.send ps now number) => (s.send ps now fun ps => (number ps, ())).2
  | .use (.close now) => (s.close now).2
  | .use .reset => s.reset
  | .use (.tick now) => s.checkTimers now
  | .use .fetchOutbound => s.fetchOutbound.2
  | .use (.giveBack ps) => s.giveBack ps
  | .takeEvents => s.takeEvents.2
  | .fetchInbound => s.fetchInbound.2

/-- One thing after the other. -/
def after (s : Session) (hs : List Handling) : Session := hs.foldl handle s

/-- A session that has asked for a connection or answers the request for one, if there was room to. -/
inductive Started (config : Config) : Session → Prop where
  | connect (role : Role) (localPort remotePort channel : UInt8) (options : Options) (now : Nat) :
    Started config ((Session.new config role localPort remotePort channel options).connect now).2
  | accept (role : Role) (localPort remotePort channel : UInt8) (options : Options) (syn : Packet)
      (now : Nat) :
    Started config ((Session.new config role localPort remotePort channel options).accept syn now).2

/-- The session reports what arrived beyond a gap, all of it and nothing else. -/
structure ReportsExactly (s : Session) : Prop where
  ahead : ∀ b, s.early.get b = true →
    1 ≤ Serial.distance s.expected b ∧ Serial.distance s.expected b ≤ s.config.window - 1
  hasGap_iff : s.hasGap = true ↔ ∃ b, s.early.get b = true
  length_le : s.gapRanges.length ≤ 64
  /-- No range is empty. -/
  ends : ∀ r ∈ s.gapRanges, Serial.distance s.expected r.1 ≤ Serial.distance s.expected r.2
  /-- The ranges ascend, and at least one number is missing between two of them. -/
  apart : s.gapRanges.Pairwise fun r r' =>
    Serial.distance s.expected r.2 + 1 < Serial.distance s.expected r'.1
  early_iff : ∀ b, s.early.get b = true ↔ ∃ r ∈ s.gapRanges, Serial.inRange b r.1 r.2 = true
  decode_encode : Sack.decode (Sack.encode s.gapRanges) = .ok s.gapRanges
  acknowledges : ∀ f : InFlight,
    (s.gapRanges.foldl (fun f r => f.acknowledgeWithin r.1 r.2) f).flights =
      f.flights.filter fun e => !s.early.get e.packet.header.relSeq

/-- What arrived beyond a gap lies in the receive window, and the session knows if there is anything. -/
structure Aware (config : Config) (s : Session) : Prop where
  begins : s.state = .connecting → ∀ b, s.early.get b = false
  ahead : ¬ s.Over → ∀ b, s.early.get b = true →
    0 < Serial.distance s.expected b ∧ Serial.distance s.expected b < config.window
  hasGap_iff : ¬ s.Over → (s.hasGap = true ↔ ∃ b, s.early.get b = true)
  config : s.config = config

variable {config : Config} {s s' : Session}

/-! ## Nothing arrives -/

theorem aware_of_blank (hconfig : s.config = config) (hearly : ∀ b, s.early.get b = false)
    (hgap : s.hasGap = false) : s.Aware config where
  config := hconfig
  begins _ := hearly
  ahead _ b hb := by simp [hearly] at hb
  hasGap_iff _ := by simp [hgap, hearly]

theorem Aware.hasGap_eq_false (h : s.Aware config) (hst : s.state = .connecting) : s.hasGap = false := by
  rw [← Bool.not_eq_true, h.hasGap_iff (not_over_of_connecting hst)]
  simp [h.begins hst]

theorem Aware.congr (h : s.Aware config) (hconfig : s'.config = s.config) (hstate : s'.state = s.state)
    (hearly : s'.early = s.early) (hexpected : s'.expected = s.expected) (hgap : s'.hasGap = s.hasGap) :
    s'.Aware config := by
  refine ⟨?_, ?_, ?_, hconfig.trans h.config⟩
  · rw [hstate, hearly]
    exact h.begins
  · rw [Over, hstate, hearly, hexpected]
    exact h.ahead
  · rw [Over, hstate, hearly, hgap]
    exact h.hasGap_iff

theorem Aware.takesNothing (h : s.Aware config) (ht : TakesNothing s s') : s'.Aware config := by
  have hbefore : ¬ s'.Over → ¬ s.Over := by
    intro hover
    rcases ht.state with he | ⟨hc, -⟩ | hover'
    · rwa [Over, ← he]
    · exact Open.not_over (.inl hc)
    · exact absurd hover' hover
  refine ⟨fun hst => ?_, fun hover => ?_, fun hover => ?_, ht.config.trans h.config⟩
  · obtain ⟨-, hearly, -, -⟩ := ht.intake_of_not_over (not_over_of_connecting hst)
    rw [hearly]
    exact h.begins (ht.of_connecting hst)
  · obtain ⟨-, hearly, hexpected, -⟩ := ht.intake_of_not_over hover
    rw [hearly, hexpected]
    exact h.ahead (hbefore hover)
  · obtain ⟨-, hearly, -, hgap⟩ := ht.intake_of_not_over hover
    rw [hearly, hgap]
    exact h.hasGap_iff (hbefore hover)

/-! ## Something arrives -/

/-- What is left behind an unbroken run lies ahead of the number where the run ends, and no further than
before. -/
theorem distance_runFrom {early : ByteMap Bool} {e b : UInt8} {n : Nat}
    (h : ∀ b, early.get b = true → Serial.distance e b < n)
    (hb : (runFrom 256 early e).1.get b = true) :
    0 < Serial.distance (runFrom 256 early e).2 b ∧ Serial.distance (runFrom 256 early e).2 b < n := by
  have hstop := runFrom_stops early e
  obtain ⟨k, -, hend, -, -, hleft⟩ := runFrom_spec 256 (Nat.le_refl _) early e
  obtain ⟨harrived, hbehind⟩ := (hleft b).1 hb
  have hturn : Serial.distance e b < 256 := Serial.distance_lt e b
  have hk : k ≤ Serial.distance e b := by
    by_contra hlt
    exact hbehind _ (Nat.not_le.1 hlt) (Serial.forward_distance e b).symm
  have hself : Serial.distance e (Serial.forward e k) = k :=
    Serial.distance_forward_self e (Nat.lt_of_le_of_lt hk hturn)
  have hne : (runFrom 256 early e).2 ≠ b := by
    rintro rfl
    rw [hstop] at hb
    cases hb
  refine ⟨Nat.pos_of_ne_zero fun hzero => hne ((Serial.distance_eq_zero_iff _ _).1 hzero), ?_⟩
  rw [hend, Serial.distance_sub (by rw [hself]; exact hk), hself]
  exact Nat.lt_of_le_of_lt (Nat.sub_le _ _) (h b harrived)

/-- Data in the window goes in front of a gap or beyond it. -/
theorem Aware.absorb (h : s.Aware config) (hopen : s.Open) {relSeq : UInt8}
    (hnear : Serial.distance s.expected relSeq < config.window) (q : Queue) :
    (s.absorb q relSeq).Aware config := by
  have hwindow : ∀ b, (s.early.set relSeq true).get b = true →
      Serial.distance s.expected b < config.window := by
    intro b hb
    rw [ByteMap.get_set] at hb
    split at hb
    · rename_i he
      rwa [← he]
    · exact (h.ahead hopen.not_over b hb).2
  obtain ⟨events, hfields, -⟩ := absorb_eq s q relSeq
  rw [hfields]
  exact {
    config := h.config
    begins := fun hst => absurd hst hopen.not_connecting
    ahead := fun _ b hb => distance_runFrom hwindow hb
    hasGap_iff := fun _ => ByteMap.any_values_iff }

/-- The first number that arrives leaves no gap. -/
theorem Aware.welcomed (h : s.Aware config) (hst : s.state = .connecting) (p : Packet) :
    (s.welcomed p).Aware config := by
  obtain ⟨-, hearly⟩ := runFrom_single (h.begins hst) p.header.relSeq
  obtain ⟨inFlight, oldest, events, hfields⟩ := welcomed_eq s p
  rw [hfields]
  refine aware_of_blank h.config hearly ?_
  rw [← Bool.not_eq_true, ByteMap.any_values_iff]
  simp [hearly]

theorem Aware.receiveData (h : s.Aware config) (hopen : s.Open) (p : Packet) :
    (s.receiveData p).2.Aware config := by
  unfold Session.receiveData
  simp only
  split
  · split
    · exact h.takesNothing (.postAck s)
    · exact h
  rename_i hnear
  split
  · exact h.takesNothing (.postAck s)
  split
  · exact h
  · rename_i q _
    rw [h.config, Nat.not_le] at hnear
    exact (h.absorb hopen hnear q).takesNothing (.postAck _)

theorem Aware.receiveOpen (h : s.Aware config) (hopen : s.Open) (p : Packet) :
    (s.receiveOpen p).2.Aware config := by
  have hcredited := TakesNothing.credit hopen p
  unfold Session.receiveOpen
  simp only
  split
  · split
    · exact h.takesNothing (.postAck s)
    · exact h
  generalize (if p.header.flags.ack then s.acknowledge p.header.ack else s) = r at hcredited
  obtain ⟨ht, hr⟩ := hcredited
  split
  · split
    · exact h.takesNothing ht
    · exact h.takesNothing (ht.trans (.acknowledgeRanges r _))
  split
  · exact h.takesNothing (ht.trans (.receiveClosing r p))
  split
  · exact (h.takesNothing ht).receiveData hr p
  · exact h.takesNothing ht

theorem Aware.receiveConnecting (h : s.Aware config) (hst : s.state = .connecting) (p : Packet) :
    (s.receiveConnecting p).2.Aware config := by
  unfold Session.receiveConnecting
  simp only
  split
  · split
    · exact h
    split
    · exact h
    · exact (h.welcomed hst p).takesNothing (.postAck _)
  · split
    · split
      · exact h
      · exact h.takesNothing (.post s _)
    split
    · exact h
    obtain ⟨events, hmove⟩ := moveTo_fields s .connected
    rw [hmove]
    have hconfirmed : Aware config { s with state := .connected, events := events } :=
      aware_of_blank h.config (h.begins hst) (h.hasGap_eq_false hst)
    split
    · exact hconfirmed.receiveOpen (.inl rfl) p
    · exact hconfirmed.takesNothing (.acknowledge _ _)

theorem Aware.receive (h : s.Aware config) (p : Packet) : (s.receive p).2.Aware config := by
  unfold Session.receive
  split
  · exact h.takesNothing (.moveTo_over (.inl rfl) rfl rfl rfl Iff.rfl)
  split
  · rename_i hst
    exact h.receiveConnecting hst p
  · rename_i hst
    exact h.receiveOpen (.inl hst) p
  · rename_i hst
    exact h.receiveOpen (.inr hst) p
  · exact h
  · exact h

/-! ## Runs -/

theorem Started.aware (h : Started config s) : s.Aware config := by
  cases h with
  | connect role localPort remotePort channel options now =>
    rcases connect_cases (s := .new config role localPort remotePort channel options) rfl now with
      he | ⟨events, he⟩ <;> rw [he]
    all_goals exact aware_of_blank rfl (fun b => ByteMap.get_const _ _) rfl
  | accept role localPort remotePort channel options syn now =>
    rcases accept_cases (s := .new config role localPort remotePort channel options) rfl syn now rfl with
      he | ⟨events, he⟩ <;> rw [he]
    all_goals exact aware_of_blank rfl (fun b => ByteMap.get_const _ _) rfl

theorem Aware.handle (h : s.Aware config) (x : Handling) : (s.handle x).Aware config := by
  match x with
  | .use (.receive p) => exact h.receive p
  | .use (.send ps now number) => exact h.takesNothing (.send _ _ _ _)
  | .use (.close now) => exact h.takesNothing (.close _ _)
  | .use .reset => exact h.takesNothing (.reset _)
  | .use (.tick now) => exact h.takesNothing (.checkTimers _ _)
  | .use .fetchOutbound => exact h.takesNothing (.fetchOutbound _)
  | .use (.giveBack ps) => exact h.takesNothing (.giveBack _ _)
  | .takeEvents => exact h.congr rfl rfl rfl rfl rfl
  | .fetchInbound =>
    obtain ⟨q, he⟩ := fetchInbound_fields s
    show s.fetchInbound.2.Aware config
    rw [he]
    exact h.congr rfl rfl rfl rfl rfl

theorem Aware.after (h : s.Aware config) (xs : List Handling) : (s.after xs).Aware config := by
  induction xs generalizing s with
  | nil => exact h
  | cons x xs ih => exact ih (h.handle x)

/-- A session that is aware of what arrived early reports it. -/
theorem Aware.reportsExactly (h : s.Aware config) (hwindow : config.window ≤ 128) (hover : ¬ s.Over) :
    s.ReportsExactly := by
  have hahead := h.ahead hover
  have hself := Serial.distance_self s.expected
  have hmissing : s.early.get s.expected = false := by
    rw [← Bool.not_eq_true]
    intro hb
    have := (hahead _ hb).1
    omega
  have hruns : Runs s.early s.expected 0 config.window s.gapRanges := by
    have hall := (runs_rangesFrom s.early (e := s.expected) (k := s.expected) (n := config.window)
      (by omega)).1
    rw [hself, Nat.zero_add] at hall
    rwa [gapRanges, h.config]
  have hlength := length_rangesFrom_of_missing hmissing s.config.window
  rw [← gapRanges, h.config] at hlength
  have hin : ∀ r ∈ s.gapRanges, ∀ b, Serial.inRange b r.1 r.2 = true ↔
      Serial.distance s.expected r.1 ≤ Serial.distance s.expected b ∧
        Serial.distance s.expected b ≤ Serial.distance s.expected r.2 :=
    fun r hr b => Serial.inRange_iff_distance (hruns.inside r hr).2.1 b
  have hiff : ∀ b, s.early.get b = true ↔ ∃ r ∈ s.gapRanges, Serial.inRange b r.1 r.2 = true := by
    intro b
    constructor
    · intro hb
      obtain ⟨r, hr, hends⟩ := (hruns.early_iff b (Nat.zero_le _) (hahead b hb).2).1 hb
      exact ⟨r, hr, (hin r hr b).2 hends⟩
    · rintro ⟨r, hr, hb⟩
      have hends := (hin r hr b).1 hb
      have hlt := Nat.lt_of_le_of_lt hends.2 (hruns.inside r hr).2.2
      exact (hruns.early_iff b (Nat.zero_le _) hlt).2 ⟨r, hr, hends⟩
  exact {
    ahead := fun b hb => by
      have := hahead b hb
      rw [h.config]
      omega
    hasGap_iff := h.hasGap_iff hover
    length_le := by omega
    ends := fun r hr => (hruns.inside r hr).2.1
    apart := hruns.apart
    early_iff := hiff
    decode_encode := Sack.decode_encode (by omega)
    acknowledges := fun f => by
      rw [InFlight.flights_foldl_acknowledgeWithin]
      refine List.filter_congr fun e _ => ?_
      rw [Bool.not_eq_eq_eq_not, Bool.not_not, Bool.eq_iff_iff, List.any_eq_true, hiff] }

/-- Whatever arrives at a session and however it is used, it reports exactly what arrived beyond a gap, as
long as its connection has not ended and is not being reset. -/
theorem reportsExactly_after (hconfig : config.Valid) (hs : Started config s) (xs : List Handling)
    (hover : ¬ (s.after xs).Over) : (s.after xs).ReportsExactly :=
  (hs.aware.after xs).reportsExactly hconfig.window_le hover

/-- The peer begins with number 249, and some of what it sends next is missing, over the end of the number
space. -/
theorem reportsExactly_of_wrapping :
    let s := ((Session.new {} .responder 9 7 0 { selectiveAck := true }).accept
      (Watch.passing .opening 249 0) 0).2
    let data := fun relSeq => Handling.use (.receive (Watch.passing .carrying relSeq 1))
    let xs := [.use (.receive (Watch.passing .acknowledging 250 1)), data 253, data 1, data 255,
      .fetchInbound, data 250, data 3, .use (.tick 5), .takeEvents, data 0]
    (s.after xs).ReportsExactly ∧ (s.after xs).expected = 251 ∧
      (s.after xs).gapRanges = [(253, 253), (255, 1), (3, 3)] := by
  intro s data xs
  have hvalid : ({} : Config).Valid := (Config.validate_eq_ok_iff {}).1 rfl
  have hrun : (s.after xs).state = .connected ∧ (s.after xs).expected = 251 ∧
      (s.after xs).gapRanges = [(253, 253), (255, 1), (3, 3)] := by
    decide +kernel
  have hover : ¬ (s.after xs).Over := Open.not_over (.inl hrun.1)
  exact ⟨reportsExactly_after hvalid (.accept .responder 9 7 0 _ _ 0) xs hover, hrun.2⟩

end Session

end NarrowLink.Connection

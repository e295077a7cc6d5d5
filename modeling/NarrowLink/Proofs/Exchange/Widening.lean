import Mathlib.Tactic.Simps.Basic
import NarrowLink.Proofs.Exchange.Steps
import NarrowLink.Proofs.Serial.Forward

/-!
# Wider windows

A session with a wider window does what it does with a narrower one, as long as the narrower one admits
what is sent, and holds what arrives and what has arrived early.  The other options may differ as well,
if gaps are reported where there are any and nobody looks at the timers.
-/

namespace NarrowLink.Connection

open Wire

namespace Session

/-- The session with another configuration and other options. -/
@[simps] def widen (c : Config) (o : Options) (s : Session) : Session :=
  { s with config := c, options := o }

/-- If there is a gap, the session reports it, and what has arrived beyond it lies in the window. -/
def Snug (s : Session) : Prop :=
  s.hasGap = true → s.options.selectiveAck = true ∧
    ∀ b, s.early.get b = true → Serial.distance s.expected b < s.config.window

/-- The window of the other configuration is wider, and if the session reports gaps, it does so with the
other options. -/
structure Widens (s : Session) (c : Config) (o : Options) : Prop where
  window_le : s.config.window ≤ c.window
  le : c.window ≤ 128
  reports : s.options.selectiveAck = true → o.selectiveAck = true

theorem Widens.congr {s u : Session} {c : Config} {o : Options} (h : s.Widens c o)
    (hconfig : u.config = s.config) (hoptions : u.options = s.options) : u.Widens c o := by
  refine ⟨?_, h.le, ?_⟩
  · rw [hconfig]
    exact h.window_le
  · rw [hoptions]
    exact h.reports

/-! ## Reports -/

theorem rangesFrom_none {early : ByteMap Bool} {n : Nat} {k : UInt8}
    (h : ∀ i < n, early.get (Serial.forward k i) = false) : rangesFrom early n k none = [] := by
  induction n generalizing k with
  | zero => rfl
  | succ n ih =>
    have hk := h 0 (Nat.succ_pos n)
    rw [Serial.forward_zero] at hk
    unfold rangesFrom
    rw [hk, if_neg Bool.false_ne_true]
    refine ih fun i hi => ?_
    rw [Serial.forward_next]
    exact h (i + 1) (Nat.succ_lt_succ hi)

/-- Numbers that have not arrived add nothing to the ranges before them. -/
theorem rangesFrom_add {early : ByteMap Bool} {m n : Nat} {k : UInt8}
    (h : ∀ i < n, early.get (Serial.forward k (m + i)) = false) (begun : Option UInt8) :
    rangesFrom early (m + n) k begun = rangesFrom early m k begun := by
  induction m generalizing k begun with
  | zero =>
    cases n with
    | zero => rfl
    | succ n =>
      have hnone := rangesFrom_none (n := n + 1) (k := k) fun i hi => by
        simpa only [Nat.zero_add] using h i hi
      rw [Nat.zero_add]
      cases begun with
      | none => exact hnone
      | some first =>
        have hk := h 0 (Nat.succ_pos n)
        rw [Nat.zero_add, Serial.forward_zero] at hk
        unfold rangesFrom at hnone ⊢
        rw [hk, if_neg Bool.false_ne_true] at hnone ⊢
        exact congrArg _ hnone
  | succ m ih =>
    have hrest : ∀ i < n, early.get (Serial.forward (Serial.next k) (m + i)) = false := by
      intro i hi
      rw [Serial.forward_next, Nat.add_right_comm]
      exact h i hi
    rw [Nat.add_right_comm]
    unfold rangesFrom
    simp only [ih hrest]

variable {s : Session} {c : Config} {o : Options}

theorem gapRanges_widen (h : s.Snug) (hgap : s.hasGap = true) (hw : s.Widens c o) :
    (s.widen c o).gapRanges = s.gapRanges := by
  obtain ⟨n, hn⟩ := Nat.exists_eq_add_of_le hw.window_le
  have hle := hw.le
  unfold gapRanges
  rw [widen_config, widen_early, widen_expected, hn]
  refine rangesFrom_add (fun i hi => ?_) none
  have hd : Serial.distance s.expected (Serial.forward s.expected (s.config.window + i)) =
      s.config.window + i :=
    Serial.distance_forward_self _ (by simp only [Serial.half]; omega)
  refine Bool.eq_false_iff.2 fun he => ?_
  have hlt := (h hgap).2 _ he
  rw [hd] at hlt
  omega

theorem packet_widen (flags : Flags) (relSeq : UInt8) (payload : List UInt8) :
    (s.widen c o).packet flags relSeq payload = s.packet flags relSeq payload := rfl

theorem gapReport_widen (h : s.Snug) (hw : s.Widens c o) :
    (s.widen c o).gapReport = s.gapReport := by
  unfold gapReport
  rw [widen_hasGap, widen_options]
  cases hgap : s.hasGap with
  | false => rfl
  | true =>
    have hreports := (h hgap).1
    rw [hreports, hw.reports hreports, gapRanges_widen h hgap hw, packet_widen, widen_nextSeq]

/-! ## Steps -/

variable (s c o)

theorem raise_widen (e : Event) : (s.widen c o).raise e = (s.raise e).widen c o := by
  unfold raise
  rw [apply_ite (widen c o)]
  rfl

theorem moveTo_widen (new : State) : (s.widen c o).moveTo new = (s.moveTo new).widen c o := by
  unfold moveTo
  rw [apply_ite (widen c o), ← raise_widen]
  rfl

theorem post_widen (p : Packet) : (s.widen c o).post p = (s.post p).widen c o := by
  unfold post
  rw [widen_outbound]
  cases s.outbound.push p with
  | ok q => exact raise_widen { s with outbound := q } c o _
  | error => rfl

theorem postNumbered_widen (flags : Flags) (now : Nat) : (s.widen c o).postNumbered flags now =
    Prod.map id (widen c o) (s.postNumbered flags now) := by
  unfold postNumbered
  simp only [widen_outbound, widen_nextSeq, packet_widen]
  split
  · cases s.outbound.push (s.packet flags s.nextSeq []) with
    | ok q =>
      let s' : Session := {
        s with
        nextSeq := Serial.next s.nextSeq
        inFlight := s.inFlight.push (s.packet flags s.nextSeq []) now
        outbound := q }
      exact congrArg (Prod.mk _) (raise_widen s' c o (.outboundAvailable s.localPort))
    | error => rfl
  · rfl

theorem acknowledge_widen (ack : UInt8) :
    (s.widen c o).acknowledge ack = (s.acknowledge ack).widen c o := by
  unfold acknowledge
  rw [apply_ite (widen c o)]
  rfl

theorem advance_widen : (s.widen c o).advance = s.advance.widen c o := by
  unfold advance
  rw [widen_early, widen_expected]
  cases runFrom 256 s.early s.expected
  rfl

theorem reset_widen : (s.widen c o).reset = s.reset.widen c o := by
  unfold reset
  rw [widen_state]
  cases s.state with
  | resetting | disconnected => rfl
  | connecting | connected | disconnecting =>
    simp only
    rw [← moveTo_widen, ← post_widen]
    rfl

/-- A packet that consumes a number is posted, and the session moves on. -/
theorem postNumbered_moveTo_widen (flags : Flags) (now : Nat) (new : State) :
    (match (s.widen c o).postNumbered flags now with
      | (.ok (), s') => ((.ok (), s'.moveTo new) : Attempt Session Unit)
      | (.error e, s') => (.error e, s')) =
    Prod.map id (widen c o)
      (match s.postNumbered flags now with
        | (.ok (), s') => (.ok (), s'.moveTo new)
        | (.error e, s') => (.error e, s')) := by
  rw [postNumbered_widen]
  cases s.postNumbered flags now with
  | mk answer s' =>
    cases answer with
    | ok => exact congrArg (Prod.mk _) (moveTo_widen s' c o new)
    | error => rfl

theorem connect_widen (now : Nat) :
    (s.widen c o).connect now = Prod.map id (widen c o) (s.connect now) := by
  unfold connect
  rw [widen_state]
  split
  · rfl
  · exact postNumbered_moveTo_widen s c o .opening now .connecting

theorem accept_widen (syn : Packet) (now : Nat) :
    (s.widen c o).accept syn now = Prod.map id (widen c o) (s.accept syn now) := by
  unfold accept
  rw [widen_state]
  split
  · rfl
  · exact postNumbered_moveTo_widen { s with expected := _ } c o .welcoming now .connecting

theorem close_widen (now : Nat) :
    (s.widen c o).close now = Prod.map id (widen c o) (s.close now) := by
  unfold close
  rw [widen_state]
  cases s.state with
  | connected => exact postNumbered_moveTo_widen s c o .closing now .disconnecting
  | connecting => exact congrArg (Prod.mk _) (reset_widen s c o)
  | disconnecting | resetting | disconnected => rfl

theorem fetchOutbound_widen :
    (s.widen c o).fetchOutbound = Prod.map id (widen c o) s.fetchOutbound := by
  have hupto : ∀ n (s : Session), (s.widen c o).fetchOutboundUpTo n =
      Prod.map id (widen c o) (s.fetchOutboundUpTo n) := by
    intro n
    induction n with
    | zero => exact fun _ => rfl
    | succ n ih =>
      intro s
      unfold fetchOutboundUpTo
      rw [widen_outbound]
      cases s.outbound.popNext with
      | none => rfl
      | some taken =>
        obtain ⟨p, q⟩ := taken
        simp only [widen_state]
        split
        · exact congrArg (Prod.mk _) (moveTo_widen { s with outbound := q } c o .disconnected)
        · have hrest := ih { s with outbound := q }
          exact congrArg (fun r => (p :: r.1, r.2)) hrest
  exact hupto _ s

theorem fetchInbound_widen :
    (s.widen c o).fetchInbound = Prod.map id (widen c o) s.fetchInbound := by
  have hupto : ∀ n (s : Session), (s.widen c o).fetchInboundUpTo n =
      Prod.map id (widen c o) (s.fetchInboundUpTo n) := by
    intro n
    induction n with
    | zero => exact fun _ => rfl
    | succ n ih =>
      intro s
      unfold fetchInboundUpTo
      rw [widen_inbound, widen_localPort, widen_expected]
      cases s.inbound.pop s.localPort with
      | none => rfl
      | some taken =>
        obtain ⟨p, q⟩ := taken
        simp only
        split
        · have hrest := ih { s with inbound := q }
          exact congrArg (fun r => (p :: r.1, r.2)) hrest
        · rfl
  exact hupto _ s

/-! ## Sending -/

section Sending

variable {s c o}

theorem postGapReport_widen (h : s.Snug) (hw : s.Widens c o) :
    (s.widen c o).postGapReport = s.postGapReport.widen c o := by
  unfold postGapReport
  rw [gapReport_widen h hw]
  cases s.gapReport with
  | none => rfl
  | some r => exact post_widen s c o r

theorem admits_widen (h : s.Snug) (hw : s.Widens c o) {ps : List Packet}
    (hadmits : s.admits ps = .ok ()) : (s.widen c o).admits ps = .ok () := by
  obtain ⟨hst, hwindow, hfits⟩ := admits_eq_ok hadmits
  have hle := hw.window_le
  unfold admits
  rw [widen_state, widen_config, widen_inFlight, widen_outbound, gapReport_widen h hw,
    if_neg (fun hne => hne hst), if_neg (by omega)]
  simp only
  rw [if_pos hfits]

theorem stamp_widen (s : Session) (ps : List Packet) :
    (s.widen c o).stamp ps = Prod.map id (widen c o) (s.stamp ps) := by
  induction ps generalizing s with
  | nil => rfl
  | cons p ps ih =>
    have hrest := ih { s with nextSeq := Serial.next s.nextSeq }
    exact congrArg (fun r => (s.stamped s.nextSeq p :: r.1, r.2)) hrest

theorem launch_widen (s : Session) (now : Nat) (ps : List Packet) :
    (s.widen c o).launch now ps = Prod.map id (widen c o) (s.launch now ps) := by
  induction ps generalizing s with
  | nil => rfl
  | cons p ps ih =>
    unfold launch
    simp only [widen_outbound]
    cases s.outbound.push p with
    | error => rfl
    | ok q => exact ih { s with inFlight := s.inFlight.push p now, outbound := q }

theorem send_widen {α : Type} (h : s.Snug) (hw : s.Widens c o) {ps : List Packet}
    (hadmits : s.admits ps = .ok ()) (now : Nat) (number : List Packet → List Packet × α) :
    (s.widen c o).send ps now number = Prod.map id (widen c o) (s.send ps now number) := by
  unfold send
  rw [hadmits, admits_widen h hw hadmits]
  simp only
  rw [postGapReport_widen h hw, stamp_widen]
  cases s.postGapReport.stamp ps with
  | mk qs s₁ =>
    simp only [Prod.map, id]
    rw [launch_widen]
    cases s₁.launch now (number qs).1 with
    | mk answer s₂ =>
      cases answer with
      | error => rfl
      | ok => exact congrArg (Prod.mk _) (raise_widen s₂ c o (.outboundAvailable s₂.localPort))

end Sending

/-! ## Receiving -/

section Receiving

variable {s c o}

theorem postAck_widen (h : s.postAck.Snug) (hw : s.Widens c o) :
    (s.widen c o).postAck = s.postAck.widen c o := by
  obtain ⟨outbound, events, hack⟩ := postAck_fields s
  rw [hack] at h
  obtain ⟨outbound', events', hpost⟩ := post_fields s (s.packet .acknowledging s.nextSeq [])
  unfold postAck
  rw [packet_widen, widen_nextSeq, post_widen, hpost]
  exact postGapReport_widen h ⟨hw.window_le, hw.le, hw.reports⟩

theorem receiveClosing_widen (s : Session) (p : Packet) :
    (s.widen c o).receiveClosing p = Prod.map id (widen c o) (s.receiveClosing p) := by
  unfold receiveClosing
  rw [widen_state, widen_expected]
  split
  · split
    · exact congrArg (Prod.mk _) (moveTo_widen s.discard c o .disconnected)
    · rfl
  split
  · rfl
  let s₁ : Session := { s with expected := Serial.next s.expected }
  let p₁ := s₁.packet .parting s₁.nextSeq []
  have hpost := congrArg (fun u : Session => ({ u with inFlight := {} } : Session).moveTo .disconnected)
    (post_widen s₁ c o p₁)
  have hmove := moveTo_widen { s₁.post p₁ with inFlight := {} } c o .disconnected
  exact congrArg (Prod.mk _) (hpost.trans hmove)

theorem absorb_widen (s : Session) (q : Queue) (relSeq : UInt8) :
    (s.widen c o).absorb q relSeq = (s.absorb q relSeq).widen c o := by
  have hadvance := advance_widen ({ s with inbound := q }.arrive relSeq) c o
  unfold absorb
  rw [apply_ite (widen c o), ← raise_widen, ← hadvance]
  rfl

theorem welcomed_widen (s : Session) (p : Packet) :
    (s.widen c o).welcomed p = (s.welcomed p).widen c o := by
  let u : Session := { s.acknowledge p.header.ack with expected := p.header.relSeq }
  have hadvance := congrArg (moveTo · .connected) (advance_widen (u.arrive p.header.relSeq) c o)
  unfold welcomed
  rw [acknowledge_widen]
  exact hadvance.trans (moveTo_widen _ c o .connected)

/-- What does not depend on the configuration and the options does not change them either. -/
theorem fields_of_widen {f : Session → Session}
    (h : f (s.widen s.config s.options) = (f s).widen s.config s.options) :
    (f s).config = s.config ∧ (f s).options = s.options := by
  have hconfig := congrArg config h
  have hoptions := congrArg options h
  exact ⟨hconfig, hoptions⟩

theorem takeData_widen (hw : s.Widens c o) {p : Packet} (h : (s.takeData p).2.Snug) :
    (s.widen c o).takeData p = Prod.map id (widen c o) (s.takeData p) := by
  unfold takeData at h ⊢
  rw [widen_early, widen_inbound]
  split at h
  · rename_i hearly
    rw [if_pos hearly, if_pos hearly]
    exact congrArg (Prod.mk _) (postAck_widen h hw)
  rename_i hearly
  rw [if_neg hearly, if_neg hearly]
  cases hpush : s.inbound.push p with
  | error => rfl
  | ok q =>
    rw [hpush] at h
    obtain ⟨hconfig, hoptions⟩ := fields_of_widen (f := (absorb · q p.header.relSeq))
      (absorb_widen s q p.header.relSeq)
    simp only
    rw [absorb_widen]
    exact congrArg (Prod.mk _) (postAck_widen h (hw.congr hconfig hoptions))

theorem receiveData_widen (hw : s.Widens c o) {p : Packet}
    (hwindow : Serial.distance s.expected p.header.relSeq < s.config.window)
    (h : (s.receiveData p).2.Snug) :
    (s.widen c o).receiveData p = Prod.map id (widen c o) (s.receiveData p) := by
  have hwindow' : Serial.distance (s.widen c o).expected p.header.relSeq < (s.widen c o).config.window :=
    Nat.lt_of_lt_of_le hwindow hw.window_le
  rw [receiveData_eq hwindow] at h ⊢
  rw [receiveData_eq hwindow']
  exact takeData_widen hw h

theorem receiveOpen_widen (hw : s.Widens c o) {p : Packet}
    (hwindow : p.header.flags.data = true →
      Serial.distance s.expected p.header.relSeq < s.config.window)
    (h : (s.receiveOpen p).2.Snug) :
    (s.widen c o).receiveOpen p = Prod.map id (widen c o) (s.receiveOpen p) := by
  obtain ⟨u, hu, hu', hexpected, hconfig, hoptions⟩ : ∃ u : Session,
      (if p.header.flags.ack then s.acknowledge p.header.ack else s) = u ∧
      (if p.header.flags.ack then (s.widen c o).acknowledge p.header.ack else s.widen c o) =
        u.widen c o ∧ u.expected = s.expected ∧ u.config = s.config ∧ u.options = s.options := by
    obtain ⟨inFlight, oldest, he⟩ := acknowledge_fields s p.header.ack
    rw [acknowledge_widen, ← apply_ite (widen c o), he]
    refine ⟨_, rfl, rfl, ?_⟩
    split <;> exact ⟨rfl, rfl, rfl⟩
  unfold receiveOpen at h ⊢
  simp only [widen_role, widen_expected, hu, hu'] at h ⊢
  split at h
  · rename_i hsyn
    rw [if_pos hsyn, if_pos hsyn]
    split at h
    · rename_i hagain
      rw [if_pos hagain, if_pos hagain]
      exact congrArg (Prod.mk _) (postAck_widen h hw)
    · rename_i hagain
      rw [if_neg hagain, if_neg hagain]
      rfl
  rename_i hsyn
  rw [if_neg hsyn, if_neg hsyn]
  split at h
  · rename_i hctrl
    rw [if_pos hctrl, if_pos hctrl]
    cases Sack.decode p.payload <;> rfl
  rename_i hctrl
  rw [if_neg hctrl, if_neg hctrl]
  split at h
  · rename_i hfin
    rw [if_pos hfin, if_pos hfin]
    exact receiveClosing_widen u p
  rename_i hfin
  rw [if_neg hfin, if_neg hfin]
  split at h
  · rename_i hdata
    rw [if_pos hdata, if_pos hdata]
    refine receiveData_widen (hw.congr hconfig hoptions) ?_ h
    rw [hexpected, hconfig]
    exact hwindow hdata
  · rename_i hdata
    rw [if_neg hdata, if_neg hdata]
    rfl

theorem receiveConnecting_widen (hw : s.Widens c o) {p : Packet}
    (hwindow : p.header.flags.data = true →
      Serial.distance s.expected p.header.relSeq < s.config.window)
    (h : (s.receiveConnecting p).2.Snug) :
    (s.widen c o).receiveConnecting p = Prod.map id (widen c o) (s.receiveConnecting p) := by
  have hconfirms : (s.widen c o).confirmsNew p.header.ack = s.confirmsNew p.header.ack := rfl
  unfold receiveConnecting at h ⊢
  simp only [widen_role, widen_expected, hconfirms] at h ⊢
  cases hrole : s.role with
  | initiator =>
    rw [hrole] at h
    simp only at h ⊢
    by_cases hflags : p.header.flags ≠ .welcoming
    · rw [if_pos hflags, if_pos hflags]
      rfl
    rw [if_neg hflags] at h
    rw [if_neg hflags, if_neg hflags]
    by_cases hnew : (!s.confirmsNew p.header.ack) = true
    · rw [if_pos hnew, if_pos hnew]
      rfl
    rw [if_neg hnew] at h
    rw [if_neg hnew, if_neg hnew]
    obtain ⟨hconfig, hoptions⟩ := fields_of_widen (f := (welcomed · p)) (welcomed_widen s p)
    have hack : ((s.widen c o).welcomed p).postAck = (s.welcomed p).postAck.widen c o := by
      rw [welcomed_widen]
      exact postAck_widen h (hw.congr hconfig hoptions)
    exact congrArg (Prod.mk _) hack
  | responder =>
    rw [hrole] at h
    simp only at h ⊢
    by_cases hflags : p.header.flags = .opening
    · rw [if_pos hflags, if_pos hflags]
      by_cases hother : Serial.next p.header.relSeq ≠ s.expected
      · rw [if_pos hother, if_pos hother]
        rfl
      · rw [if_neg hother, if_neg hother]
        exact congrArg (Prod.mk _) (post_widen s c o (s.packet .welcoming s.oldestUnacked []))
    rw [if_neg hflags] at h
    rw [if_neg hflags, if_neg hflags]
    by_cases hnot : (!p.header.flags.ack || !s.confirmsNew p.header.ack) = true
    · rw [if_pos hnot, if_pos hnot]
      rfl
    rw [if_neg hnot] at h
    rw [if_neg hnot, if_neg hnot, moveTo_widen]
    obtain ⟨events, hmove⟩ := moveTo_fields s .connected
    rw [hmove] at h ⊢
    have hw' : Widens { s with state := .connected, events := events } c o :=
      ⟨hw.window_le, hw.le, hw.reports⟩
    by_cases hmore : (p.header.flags.data || p.header.flags.fin || p.header.flags.ctrl) = true
    · rw [if_pos hmore] at h
      rw [if_pos hmore, if_pos hmore]
      exact receiveOpen_widen hw' hwindow h
    · rw [if_neg hmore, if_neg hmore]
      exact congrArg (Prod.mk _) (acknowledge_widen _ c o p.header.ack)

theorem receive_widen (hw : s.Widens c o) {p : Packet}
    (hwindow : p.header.flags.data = true →
      Serial.distance s.expected p.header.relSeq < s.config.window)
    (h : (s.receive p).2.Snug) :
    (s.widen c o).receive p = Prod.map id (widen c o) (s.receive p) := by
  unfold receive at h ⊢
  rw [widen_state]
  split at h
  · rename_i hrst
    rw [if_pos hrst, if_pos hrst]
    exact congrArg (Prod.mk _) (moveTo_widen s.discard c o .disconnected)
  rename_i hrst
  rw [if_neg hrst, if_neg hrst]
  cases hst : s.state with
  | connecting =>
    rw [hst] at h
    exact receiveConnecting_widen hw hwindow h
  | connected | disconnecting =>
    rw [hst] at h
    exact receiveOpen_widen hw hwindow h
  | resetting | disconnected => rfl

end Receiving

end Session

end NarrowLink.Connection

import NarrowLink.Proofs.Queue.Consistency
import NarrowLink.Proofs.Session.Sequence

/-!
# A message is sent whole or not at all

`Session.send` decides beforehand whether there is room for a message (`HasRoom`), then queues a
selective acknowledgement, gives the packets their numbers and queues them one by one.  The bytes that
were reserved are the bytes that are queued, so none of these later steps fails: a message that has
room is in flight and queued as a whole (`Session.dispatch`), and one that has not leaves no trace
(`send_whole_or_not`).
-/

namespace NarrowLink

open Wire

/-! ## Packets queued one after the other -/

namespace Order

variable {o : Order} {p : Packet}

/-- A packet is put behind the packets that it does not precede, wherever these stand. -/
theorem sublist_insert {front ps : List Packet} (hsub : front.Sublist ps)
    (hfront : ∀ x ∈ front, o.precedes p x = false) : (front ++ [p]).Sublist (o.insert p ps) := by
  obtain ⟨before, behind, rfl, hinsert, hbehind, -⟩ := o.insert_split p ps
  obtain ⟨front₁, front₂, rfl, hsub₁, hsub₂⟩ := List.sublist_append_iff.1 hsub
  have hnil : front₂ = [] := by
    refine List.eq_nil_iff_forall_not_mem.2 fun x hx => ?_
    have hno := hfront x (List.mem_append_right front₁ hx)
    rw [hbehind x (hsub₂.subset hx)] at hno
    cases hno
  rw [hinsert, hnil, List.append_nil]
  exact hsub₁.append (List.singleton_sublist.2 List.mem_cons_self)

end Order

namespace Queue

/-- Packets of one port none of which precedes an earlier one are queued in their order, behind those
that none of them precedes. -/
theorem sublist_foldl_add {q : Queue} {port : UInt8} {front ps : List Packet}
    (hsub : front.Sublist (q.packets port)) (hport : ∀ p ∈ ps, p.port = port)
    (hfront : ∀ x ∈ front, ∀ p ∈ ps, q.order.precedes p x = false)
    (hps : ps.Pairwise fun x p => q.order.precedes p x = false) :
    (front ++ ps).Sublist ((ps.foldl add q).packets port) := by
  induction ps generalizing q front with
  | nil => rwa [List.append_nil]
  | cons p ps ih =>
    obtain ⟨hp, hps⟩ := List.pairwise_cons.1 hps
    have hp' : p.port = port := hport p List.mem_cons_self
    rw [List.append_cons, List.foldl_cons]
    refine ih ?_ (fun r hr => hport r (List.mem_cons_of_mem p hr)) ?_ hps
    · rw [← hp', packets_add_self]
      exact Order.sublist_insert (hp' ▸ hsub) fun x hx => hfront x hx p List.mem_cons_self
    · intro x hx r hr
      rcases List.mem_append.1 hx with hx | hx
      · exact hfront x hx r (List.mem_cons_of_mem p hr)
      · rw [List.mem_singleton.1 hx]
        exact hp r hr

end Queue

namespace Connection

/-! ## Stamping and numbering -/

/-- The second packet is the first one, up to the fragment number. -/
def Renumbered (p q : Packet) : Prop :=
  q = { p with header := { p.header with fragSeq := q.header.fragSeq } }

/-- A way to number the fragments of a message that changes nothing else of them. -/
def NumbersFragments {α : Type} (number : List Packet → List Packet × α) : Prop :=
  ∀ ps, List.Forall₂ Renumbered ps (number ps).1

namespace Session

variable {s : Session} {ps qs : List Packet}

/-- The packets as the connection sends them, numbered from its next number on. -/
def outgoing (s : Session) (ps : List Packet) : List Packet :=
  ps.mapIdx fun i p => s.stamped (Serial.forward s.nextSeq i) p

theorem stamp_eq (s : Session) (ps : List Packet) :
    s.stamp ps = (s.outgoing ps, { s with nextSeq := Serial.forward s.nextSeq ps.length }) := by
  induction ps generalizing s with
  | nil => rfl
  | cons p ps ih =>
    have hrest : ({ s with nextSeq := Serial.next s.nextSeq } : Session).outgoing ps =
        ps.mapIdx fun i p => s.stamped (Serial.forward s.nextSeq (i + 1)) p := by
      unfold outgoing
      simp only [Serial.forward_next]
      rfl
    unfold stamp
    simp only
    rw [ih, hrest, outgoing, List.mapIdx_cons, List.length_cons, ← Serial.forward_next]
    rfl

theorem length_outgoing (s : Session) (ps : List Packet) : (s.outgoing ps).length = ps.length :=
  List.length_mapIdx

theorem relSeqs_outgoing (s : Session) (ps : List Packet) :
    (s.outgoing ps).map (fun p => p.header.relSeq) =
      (List.range ps.length).map (Serial.forward s.nextSeq) := by
  refine List.ext_getElem (by simp [outgoing]) fun i _ _ => ?_
  simp [outgoing, stamped]

theorem port_of_mem_outgoing {p : Packet} (h : p ∈ s.outgoing ps) : p.port = s.remotePort := by
  obtain ⟨i, _, rfl⟩ := List.mem_mapIdx.1 h
  rfl

/-- What does not look at the header fields of the connection is the same for the packets as they are
sent. -/
theorem map_outgoing (s : Session) {α : Type} {f : Packet → α}
    (hf : ∀ relSeq p, f (s.stamped relSeq p) = f p) (ps : List Packet) :
    (s.outgoing ps).map f = ps.map f := by
  refine List.ext_getElem (by simp [outgoing]) fun i _ _ => ?_
  simp [outgoing, hf]

theorem wireLengths_outgoing (s : Session) (ps : List Packet) :
    wireLengths (s.outgoing ps) = wireLengths ps := by
  unfold wireLengths
  rw [s.map_outgoing fun _ _ => rfl]

end Session

/-- What does not look at the fragment number is the same for renumbered packets. -/
theorem map_eq_of_renumbered {α : Type} {f : Packet → α} {ps qs : List Packet}
    (h : List.Forall₂ Renumbered ps qs) (hf : ∀ p q, Renumbered p q → f q = f p) :
    qs.map f = ps.map f := by
  induction h with
  | nil => rfl
  | cons hpq _ ih => rw [List.map_cons, List.map_cons, ih, hf _ _ hpq]

/-! ## Room for a message -/

namespace Session

variable {s : Session} {ps qs : List Packet}

/-- The connection is open, and there is room for the packets: in the window, and in the outbound queue
beside the selective acknowledgement that is due. -/
structure HasRoom (s : Session) (ps : List Packet) : Prop where
  connected : s.state = .connected
  window : s.unacknowledged + ps.length ≤ s.config.window
  outbound : s.outbound.used + wireLengths s.gapReport.toList + wireLengths ps ≤ s.outbound.capacity

/-- Why a message is refused. -/
def refusal (s : Session) : Error :=
  if s.state = .connected then .queueFull else .notConnected s.localPort

theorem gapReport_eq_some {r : Packet} (h : s.gapReport = some r) :
    s.hasGap = true ∧ r = s.packet .reporting s.nextSeq (Sack.encode s.gapRanges) := by
  unfold gapReport at h
  split at h
  · rename_i hdue
    cases h
    exact ⟨(Bool.and_eq_true_iff.1 hdue).1, rfl⟩
  · cases h

theorem wireLengths_gapReport (s : Session) :
    (s.gapReport.map Packet.wireLength).getD 0 = wireLengths s.gapReport.toList := by
  cases s.gapReport with
  | none => rfl
  | some r => simp

theorem admits_of_hasRoom (h : s.HasRoom ps) : s.admits ps = .ok () := by
  have hwindow : ¬ s.config.window < s.inFlight.length + ps.length := Nat.not_lt.2 h.window
  have hbytes := h.outbound
  unfold admits
  rw [if_neg (fun hne => hne h.connected), if_neg hwindow, wireLengths_gapReport]
  refine if_pos ?_
  unfold Queue.fits
  rw [decide_eq_true_eq]
  omega

theorem admits_of_not_hasRoom (h : ¬ s.HasRoom ps) : s.admits ps = .error s.refusal := by
  unfold admits refusal
  by_cases hst : s.state = .connected
  · rw [if_neg (fun hne => hne hst), if_pos hst]
    by_cases hwindow : s.config.window < s.inFlight.length + ps.length
    · rw [if_pos hwindow]
    · rw [if_neg hwindow, wireLengths_gapReport]
      refine if_neg fun hfits => h ⟨hst, Nat.not_lt.1 hwindow, ?_⟩
      unfold Queue.fits at hfits
      rw [decide_eq_true_eq] at hfits
      omega
  · rw [if_pos hst, if_neg hst]

/-! ## Queueing what was admitted -/

theorem raise_eq (s : Session) (e : Event) :
    s.raise e = { s with events := if e ∈ s.events then s.events else s.events ++ [e] } := by
  unfold raise
  split <;> rfl

/-- Packets that have room are put in flight and queued, every one of them. -/
theorem launch_eq (now : Nat) (h : s.outbound.used + wireLengths qs ≤ s.outbound.capacity) :
    s.launch now qs = (.ok (),
      { s with
        inFlight := ⟨s.inFlight.flights ++ qs.map fun q => ⟨q, now, 0⟩⟩
        outbound := qs.foldl Queue.add s.outbound }) := by
  induction qs generalizing s with
  | nil => simp [launch]
  | cons q qs ih =>
    rw [wireLengths_cons] at h
    have hpush : s.outbound.push q = .ok (s.outbound.add q) :=
      Queue.push_eq_ok_iff.2 ⟨by omega, rfl⟩
    unfold launch
    simp only [hpush]
    rw [ih (by simp only [Queue.add]; omega)]
    simp [InFlight.push]

/-- A selective acknowledgement that has room is queued, and its event is the one that is raised for the
message. -/
theorem postGapReport_eq (s : Session)
    (h : s.outbound.used + wireLengths s.gapReport.toList ≤ s.outbound.capacity) :
    ∃ events, s.postGapReport =
        { s with outbound := s.gapReport.toList.foldl Queue.add s.outbound, events := events } ∧
      ∀ t : Session, { t with events := events }.raise (.outboundAvailable s.localPort) =
        { t with events := s.events }.raise (.outboundAvailable s.localPort) := by
  unfold postGapReport
  cases hreport : s.gapReport with
  | none => exact ⟨s.events, rfl, fun t => rfl⟩
  | some r =>
    rw [hreport, Option.toList_some, wireLengths_cons, wireLengths_nil] at h
    have hpush : s.outbound.push r = .ok (s.outbound.add r) :=
      Queue.push_eq_ok_iff.2 ⟨by omega, rfl⟩
    simp only [post, hpush, raise_eq]
    refine ⟨_, rfl, fun t => ?_⟩
    split <;> simp_all

theorem wireLengths_eq_of_renumbered (h : List.Forall₂ Renumbered (s.outgoing ps) qs) :
    wireLengths qs = wireLengths ps := by
  rw [← wireLengths_outgoing s ps]
  unfold wireLengths
  rw [map_eq_of_renumbered h fun p q hpq => by rw [hpq]; rfl]

/-- The connection after it put packets in flight and queued them, behind the selective acknowledgement
that is due. -/
def dispatch (s : Session) (qs : List Packet) (now : Nat) : Session :=
  let sent : Session := { s with
    nextSeq := Serial.forward s.nextSeq qs.length
    inFlight := ⟨s.inFlight.flights ++ qs.map fun q => ⟨q, now, 0⟩⟩
    outbound := (s.gapReport.toList ++ qs).foldl Queue.add s.outbound }
  sent.raise (.outboundAvailable s.localPort)

/-- The selective acknowledgement and the message are queued in this order: their numbers ascend, and
span less than half the number space. -/
theorem inOrder_foldl_add (horder : s.outbound.order = .reliability) (hlen : ps.length ≤ 128)
    (hqs : List.Forall₂ Renumbered (s.outgoing ps) qs) :
    (s.gapReport.toList ++ qs).Sublist
      (((s.gapReport.toList ++ qs).foldl Queue.add s.outbound).packets s.remotePort) := by
  have hrel : qs.map (fun p => p.header.relSeq) =
      (List.range ps.length).map (Serial.forward s.nextSeq) := by
    rw [map_eq_of_renumbered hqs fun p q h => by rw [h], relSeqs_outgoing]
  have hstep : ∀ i j, i ≤ j → j < ps.length →
      Serial.precedes (Serial.forward s.nextSeq j) (Serial.forward s.nextSeq i) = false := by
    intro i j hij hj
    refine Bool.eq_false_iff.2 fun hp => ?_
    have hhalf : Serial.half UInt8 = 128 := rfl
    have := (Serial.precedes_forward_iff s.nextSeq (by omega) (by omega)).1 hp
    omega
  have hqs_port : ∀ p ∈ qs, p.port = s.remotePort := by
    intro q hq
    have hports : qs.map Packet.port = (s.outgoing ps).map Packet.port :=
      map_eq_of_renumbered hqs fun p q h => by rw [h]; rfl
    have hmem : q.port ∈ (s.outgoing ps).map Packet.port := hports ▸ List.mem_map_of_mem hq
    obtain ⟨p, hp, he⟩ := List.mem_map.1 hmem
    rw [← he, port_of_mem_outgoing hp]
  have hascending : qs.Pairwise fun x p => s.outbound.order.precedes p x = false := by
    have hnumbers : ((List.range ps.length).map (Serial.forward s.nextSeq)).Pairwise
        fun a b => Serial.precedes b a = false :=
      List.pairwise_map.2 (List.pairwise_lt_range.imp_of_mem fun _ hj hij =>
        hstep _ _ (Nat.le_of_lt hij) (List.mem_range.1 hj))
    rw [← hrel] at hnumbers
    rw [horder]
    exact List.pairwise_map.1 hnumbers
  have hmem_rel : ∀ q ∈ qs, ∃ i < ps.length, q.header.relSeq = Serial.forward s.nextSeq i := by
    intro q hq
    have hmem := List.mem_map_of_mem (f := fun p : Packet => p.header.relSeq) hq
    rw [hrel] at hmem
    obtain ⟨i, hi, he⟩ := List.mem_map.1 hmem
    exact ⟨i, List.mem_range.1 hi, he.symm⟩
  cases hreport : s.gapReport with
  | none =>
    exact Queue.sublist_foldl_add (List.nil_sublist _) hqs_port
      (fun x hx => absurd hx List.not_mem_nil) hascending
  | some r =>
    obtain ⟨hr_rel, hr_port⟩ : r.header.relSeq = s.nextSeq ∧ r.port = s.remotePort := by
      obtain ⟨-, rfl⟩ := gapReport_eq_some hreport
      exact ⟨rfl, rfl⟩
    refine Queue.sublist_foldl_add (q := s.outbound) (List.nil_sublist _) ?_
      (fun x hx => absurd hx List.not_mem_nil) ?_
    · intro p hp
      rcases List.mem_cons.1 hp with rfl | hp
      · exact hr_port
      · exact hqs_port p hp
    · refine List.pairwise_cons.2 ⟨fun q hq => ?_, hascending⟩
      obtain ⟨i, hi, he⟩ := hmem_rel q hq
      rw [horder]
      show Serial.precedes q.header.relSeq r.header.relSeq = false
      rw [he, hr_rel]
      exact hstep 0 i (Nat.zero_le i) hi

/-- A message that has room is put in flight and queued as a whole. -/
theorem send_of_hasRoom {α : Type} (now : Nat) {number : List Packet → List Packet × α}
    (hnumber : NumbersFragments number) (h : s.HasRoom ps) :
    s.send ps now number =
      (.ok (number (s.outgoing ps)).2, s.dispatch (number (s.outgoing ps)).1 now) := by
  have hroom := h.outbound
  have hqs := hnumber (s.outgoing ps)
  have hlen : (number (s.outgoing ps)).1.length = ps.length := by
    rw [← hqs.length_eq, length_outgoing]
  have hwire := wireLengths_eq_of_renumbered hqs
  obtain ⟨events, hreport, hevents⟩ := s.postGapReport_eq (by omega)
  let s₁ : Session := { s with
    nextSeq := Serial.forward s.nextSeq ps.length
    outbound := s.gapReport.toList.foldl Queue.add s.outbound
    events := events }
  have hstamp : s.postGapReport.stamp ps = (s.outgoing ps, s₁) := by
    rw [hreport, stamp_eq]
    rfl
  have hroom₁ : s₁.outbound.used + wireLengths (number (s.outgoing ps)).1 ≤ s₁.outbound.capacity := by
    show (s.gapReport.toList.foldl Queue.add s.outbound).used + _ ≤
      (s.gapReport.toList.foldl Queue.add s.outbound).capacity
    rw [Queue.used_foldl_add, Queue.capacity_foldl_add, hwire]
    exact hroom
  unfold send dispatch
  rw [admits_of_hasRoom h, hstamp]
  simp only
  rw [launch_eq now hroom₁]
  simp only
  rw [hlen, List.foldl_append]
  exact congrArg (Prod.mk _) (hevents
    { s with
      nextSeq := Serial.forward s.nextSeq ps.length
      inFlight := _
      outbound := _ })

/-- A message of any packets is sent if and only if the connection is open and there is room for it, in
the window and in the outbound queue.  If it is sent, its packets, with the ports and the channel of the
connection, data and acknowledgement flags, the number that is expected and the next numbers of the
connection, are in flight and queued in order, behind the selective acknowledgement that is due, and
nothing else has changed.  If it is refused, nothing has changed, and it does not matter how its
fragments would have been numbered. -/
theorem send_whole_or_not (hconfig : s.config.Valid) (horder : s.outbound.order = .reliability)
    (ps : List Packet) (now : Nat) {α : Type} {number : List Packet → List Packet × α}
    (hnumber : NumbersFragments number) :
    ((∃ a, (s.send ps now number).1 = .ok a) ↔ s.HasRoom ps) ∧
      (s.HasRoom ps → ∃ qs a, number (s.outgoing ps) = (qs, a) ∧
        s.send ps now number = (.ok a, s.dispatch qs now) ∧
        List.Forall₂ Renumbered (s.outgoing ps) qs ∧
        (s.dispatch qs now).outbound.used ≤ (s.dispatch qs now).outbound.capacity ∧
        (s.gapReport.toList ++ qs).Sublist ((s.dispatch qs now).outbound.packets s.remotePort)) ∧
      (¬ s.HasRoom ps → ∀ {β : Type} (number' : List Packet → List Packet × β),
        s.send ps now number' = (.error s.refusal, s)) := by
  have hrefused : ¬ s.HasRoom ps → ∀ {β : Type} (number' : List Packet → List Packet × β),
      s.send ps now number' = (.error s.refusal, s) := by
    intro h β number'
    unfold send
    rw [admits_of_not_hasRoom h]
  refine ⟨⟨fun ⟨a, ha⟩ => ?_, fun h => ⟨_, congrArg Prod.fst (send_of_hasRoom now hnumber h)⟩⟩, ?_,
    hrefused⟩
  · by_contra hno
    rw [hrefused hno number] at ha
    cases ha
  · intro h
    have hqs := hnumber (s.outgoing ps)
    have hlen : ps.length ≤ 128 :=
      Nat.le_trans (Nat.le_trans (Nat.le_add_left _ _) h.window) hconfig.window_le
    have houtbound : (s.dispatch (number (s.outgoing ps)).1 now).outbound =
        (s.gapReport.toList ++ (number (s.outgoing ps)).1).foldl Queue.add s.outbound := by
      rw [dispatch, raise_eq]
    refine ⟨_, _, rfl, send_of_hasRoom now hnumber h, hqs, ?_, ?_⟩
    · rw [houtbound, Queue.used_foldl_add, Queue.capacity_foldl_add, wireLengths_append,
        wireLengths_eq_of_renumbered hqs, ← Nat.add_assoc]
      exact h.outbound
    · rw [houtbound]
      exact inOrder_foldl_add horder hlen hqs

/-- A responder that took a packet beyond a gap, and has yet to hand its answers to the transmitter. -/
def gapped : Session :=
  let asked := (Session.new {} .responder 9 7 0 { selectiveAck := true }).accept
    (Watch.passing .opening 254 0) 0
  ((asked.2.receive (Watch.passing .acknowledging 255 1)).2.receive (Watch.passing .carrying 0 1)).2

/-- Two fragments, both numbered 5, go out behind the answers of the responder and a selective
acknowledgement. -/
theorem send_whole_of_gapped :
    let ps := [Watch.passing .clear 0 0, Watch.passing .clear 0 0]
    let number := fun ps : List Packet =>
      (ps.map fun p => { p with header := { p.header with fragSeq := 5 } }, ())
    (∃ qs a, number (gapped.outgoing ps) = (qs, a) ∧
      gapped.send ps 3 number = (.ok a, gapped.dispatch qs 3) ∧
      (gapped.gapReport.toList ++ qs).Sublist ((gapped.dispatch qs 3).outbound.packets 7)) ∧
    ((gapped.send ps 3 number).2.outbound.packets 7).map
      (fun p => (p.header.flags, p.header.relSeq, p.header.fragSeq)) =
        [(.welcoming, 0, 0), (.acknowledging, 1, 0), (.reporting, 1, 0), (.reporting, 1, 0),
          (.carrying, 1, 5), (.carrying, 2, 5)] := by
  intro ps number
  have hconfig : gapped.config.Valid := (Config.validate_eq_ok_iff _).1 (by decide +kernel)
  have hnumber : NumbersFragments number := fun ps =>
    List.forall₂_map_right_iff.2 (List.forall₂_same.2 fun _ _ => rfl)
  have hroom : gapped.HasRoom ps :=
    ⟨by decide +kernel, by decide +kernel, by decide +kernel⟩
  obtain ⟨qs, a, hqs, hsend, -, -, horder⟩ :=
    (send_whole_or_not hconfig (by decide +kernel) ps 3 hnumber).2.1 hroom
  exact ⟨⟨qs, a, hqs, hsend, horder⟩, by decide +kernel⟩

end Session

end Connection

end NarrowLink

import Mathlib.Data.List.Infix
import NarrowLink.Proofs.Reassembly.Assembling

/-!
# The messages that wait on a port

The front of a port's queue may hold several complete messages one behind the other (`backlog`).  A new
fragment goes behind all of them and may complete more (`backlog_queued`), and taking or discarding
through the first final fragment removes the first of them (`backlog_of_isComplete`).  So a push leaves
the backlog of its port a part of what it is afterwards, without the first message if that is displaced
(`push_backlog`).  A port with a complete message is announced, whatever else is (`Heralded`).
-/

namespace NarrowLink.Reassembly

open Wire

/-- The messages that are complete at the front of some packets: `expected` is the number of the next
fragment, and the fragments in front of it belong to the same message. -/
def completeRuns : UInt8 → List Packet → List Packet → List (List UInt8)
  | _, _, [] => []
  | expected, front, p :: ps =>
    if p.header.fragSeq ≠ expected then []
    else if p.isFinal then content (front ++ [p]) :: completeRuns (Serial.next expected) [] ps
    else completeRuns (Serial.next expected) (front ++ [p]) ps

/-- The complete messages of a port, first to last. -/
def backlog (r : Reassembly) (port : UInt8) : List (List UInt8) :=
  completeRuns (r.awaited.get port) [] (r.queue.packets port)

variable {config : Config} {r r' : Reassembly} {port first : UInt8} {p : Packet} {ps front : List Packet}

/-! ## Complete messages at the front -/

theorem awaitedAfter_cons (h : p.header.fragSeq = first) :
    awaitedAfter first (p :: ps) = awaitedAfter (Serial.next first) ps := by
  unfold awaitedAfter
  rw [List.getLast?_cons]
  cases ps.getLast? with
  | none => exact congrArg Serial.next h
  | some x => rfl

theorem completeRuns_of_not_complete (h : completeFrom first ps = false) :
    completeRuns first front ps = [] := by
  induction ps generalizing first front with
  | nil => rfl
  | cons p ps ih =>
    unfold completeFrom at h
    unfold completeRuns
    split at h
    · rename_i hne
      rw [if_pos hne]
    · rename_i he
      split at h
      · cases h
      · rename_i hp
        rw [if_neg he, if_neg hp]
        exact ih h

/-- The first complete message, and those behind it. -/
theorem completeRuns_of_complete (h : completeFrom first ps = true) :
    completeRuns first front ps = content (front ++ throughFinal ps) ::
      completeRuns (awaitedAfter first (throughFinal ps)) [] (behindFinal ps) := by
  induction ps generalizing first front with
  | nil => cases h
  | cons p ps ih =>
    unfold completeFrom at h
    split at h
    · cases h
    · rename_i he
      have hfirst : p.header.fragSeq = first := not_not.1 he
      rw [completeRuns, if_neg he, throughFinal, behindFinal]
      split at h
      · rename_i hp
        rw [if_pos hp, if_pos hp, if_pos hp, awaitedAfter_cons hfirst]
        rfl
      · rename_i hp
        rw [if_neg hp, if_neg hp, if_neg hp, awaitedAfter_cons hfirst, ih h, List.append_assoc]
        rfl

/-- A new fragment goes behind the messages that are complete. -/
theorem completeRuns_insert (h : Ascending first ps) (hp : Serial.distance first p.header.fragSeq < 128)
    (hfresh : ∀ y ∈ ps, y.header.fragSeq ≠ p.header.fragSeq) :
    completeRuns first front ps <+: completeRuns first front (Order.fragment.insert p ps) := by
  induction ps generalizing first front with
  | nil => exact List.nil_prefix
  | cons y ys ih =>
    by_cases hy : y.header.fragSeq = first
    · have hself : Serial.distance first y.header.fragSeq = 0 := by
        rw [hy, Serial.distance_self]
      have hbehind : Order.fragment.insert p (y :: ys) = y :: Order.fragment.insert p ys := by
        have hnot : ∀ x ∈ [y], Order.fragment.precedes p x = false := by
          intro x hx
          rw [List.mem_singleton.1 hx, ← Bool.not_eq_true,
            precedes_fragment_iff hp (h.near y List.mem_cons_self), hself]
          exact Nat.not_lt_zero _
        exact Order.insert_append _ p ys hnot
      have hrest : Ascending (Serial.next first) ys := by
        have hafter : Ascending (awaitedAfter first [y]) ys := Ascending.awaitedAfter h
        rwa [awaitedAfter_cons hy] at hafter
      have hcloser : Serial.distance (Serial.next first) p.header.fragSeq < 128 := by
        have hone : Serial.distance first (Serial.next first) = 1 := by
          rw [Serial.distance_next, Serial.distance_self]
          rfl
        have hpos : 0 < Serial.distance first p.header.fragSeq := Nat.pos_of_ne_zero fun hzero =>
          hfresh y List.mem_cons_self (hy.trans ((Serial.distance_eq_zero_iff _ _).1 hzero))
        rw [Serial.distance_sub (a := first) (by omega), hone]
        omega
      have hlater : ∀ front, completeRuns (Serial.next first) front ys <+:
          completeRuns (Serial.next first) front (Order.fragment.insert p ys) := fun front =>
        ih hrest hcloser fun x hx => hfresh x (List.mem_cons_of_mem y hx)
      rw [hbehind, completeRuns, completeRuns, if_neg (not_not.2 hy), if_neg (not_not.2 hy)]
      split
      · exact (List.prefix_cons_inj _).2 (hlater [])
      · exact hlater _
    · rw [completeRuns, if_pos hy]
      exact List.nil_prefix

/-! ## The backlog of a port -/

theorem backlog_eq_nil_iff : r.backlog port = [] ↔ r.isComplete port = false := by
  unfold backlog isComplete
  constructor
  · intro h
    by_contra hc
    rw [completeRuns_of_complete (Bool.not_eq_false _ ▸ hc)] at h
    cases h
  · exact completeRuns_of_not_complete

theorem backlog_congr (hq : r'.queue.packets port = r.queue.packets port)
    (ha : r'.awaited.get port = r.awaited.get port) : r'.backlog port = r.backlog port := by
  unfold backlog
  rw [hq, ha]

/-- The first message of a backlog, and what is left of it once that is gone. -/
theorem backlog_of_isComplete (hc : r.isComplete port = true) :
    r.backlog port = content (throughFinal (r.queue.packets port)) :: (r.skipGap port).backlog port := by
  have ht := takes_takeThroughFinal r port
  unfold backlog skipGap
  rw [ht.packets, ht.awaited]
  exact completeRuns_of_complete hc

/-- All but the first message of a backlog stays when the front of the port is discarded. -/
theorem tail_backlog_skipGap (r : Reassembly) (port : UInt8) :
    (r.backlog port).tail <+: (r.skipGap port).backlog port := by
  cases hc : r.isComplete port with
  | false =>
    rw [backlog_eq_nil_iff.2 hc]
    exact List.nil_prefix
  | true =>
    rw [backlog_of_isComplete hc]
    exact List.prefix_rfl

theorem backlog_queued (ho : r.Ordered) (ha : r.Accepts p) :
    r.backlog p.port <+: (r.queued p).backlog p.port := by
  have hqueue : (r.queued p).queue.packets p.port =
      Order.fragment.insert p (r.queue.packets p.port) := by
    show (r.queue.add p).packets p.port = _
    rw [Queue.packets_add_self, ho.order]
  unfold backlog
  rw [hqueue]
  exact completeRuns_insert (ho.ascending p.port) (distance_lt_of_not_precedes ha.current) ha.fresh

theorem backlog_announce (r : Reassembly) (port other : UInt8) :
    (r.announce other).2.backlog port = r.backlog port := by
  obtain ⟨announced, he⟩ := announce_fields r other
  rw [he]
  rfl

/-- Discarding the packets of a port changes the number that it awaits. -/
theorem awaited_skipGap_ne (ho : r.Ordered) (hne : r.queue.packets port ≠ []) :
    (r.skipGap port).awaited.get port ≠ r.awaited.get port := by
  rw [skipGap, (takes_takeThroughFinal r port).awaited]
  obtain ⟨taken, x, htaken⟩ := (List.eq_nil_or_concat' _).resolve_left (throughFinal_ne_nil hne)
  have hmem : x ∈ r.queue.packets port := by
    rw [← throughFinal_append_behindFinal (r.queue.packets port), htaken]
    simp
  have hnear := (ho.ascending port).near x hmem
  have hnext : awaitedAfter (r.awaited.get port) (throughFinal (r.queue.packets port)) =
      Serial.next x.header.fragSeq := by
    rw [htaken]
    simp [awaitedAfter]
  rw [hnext]
  intro he
  have hdistance := Serial.distance_next (r.awaited.get port) x.header.fragSeq
  rw [he, Serial.distance_self, if_neg (by simp only [Serial.half]; omega)] at hdistance
  cases hdistance

/-! ## What a push does to its port -/

/-- Every port with a complete message is announced. -/
def Heralded (r : Reassembly) : Prop := ∀ port, r.isComplete port = true → port ∈ r.announced

/-- What was complete on the port of a packet stays complete when the packet is pushed, except for the
first message if the port then awaits a fragment behind it. -/
theorem push_backlog (ho : r.Ordered) (p : Packet) :
    ((r.push p).2.awaited.get p.port = r.awaited.get p.port ∧
        r.backlog p.port <+: (r.push p).2.backlog p.port) ∨
      ((r.push p).2.awaited.get p.port ≠ r.awaited.get p.port ∧
        (r.backlog p.port).tail <+: (r.push p).2.backlog p.port) := by
  have hp := pushed r p
  generalize (r.push p).2 = r' at hp ⊢
  cases hp with
  | ignored => exact .inl ⟨rfl, List.prefix_rfl⟩
  | completed ha => exact .inl ⟨rfl, backlog_queued ho ha⟩
  | waiting ha => exact .inl ⟨rfl, backlog_queued ho ha⟩
  | skipped ha =>
    refine .inr ⟨?_, ?_⟩
    · obtain ⟨announced, he⟩ := announce_fields ((r.queued p).skipGap p.port) p.port
      rw [he]
      refine awaited_skipGap_ne (ho.queued ha) ?_
      rw [← List.length_pos_iff, length_queued]
      exact Nat.succ_pos _
    rw [backlog_announce]
    have hpart := List.IsPrefix.drop (backlog_queued ho ha) 1
    rw [List.drop_one, List.drop_one] at hpart
    exact hpart.trans (tail_backlog_skipGap _ _)

theorem announced_announce (r : Reassembly) (port : UInt8) : (r.announce port).2.announced =
    if port ∉ r.announced ∧ (r.announce port).2.isComplete port = true then r.announced ++ [port]
    else r.announced := by
  have hcomplete : (r.announce port).2.isComplete port = r.isComplete port := by
    obtain ⟨announced, he⟩ := announce_fields r port
    rw [he]
    rfl
  rw [hcomplete]
  unfold announce
  by_cases h : port ∉ r.announced ∧ r.isComplete port = true
  · rw [if_pos h, if_pos h]
  · rw [if_neg h, if_neg h]

/-- A port is announced when it gets a complete message, and only then. -/
theorem announced_push (h : r.Heralded) (p : Packet) : (r.push p).2.announced =
    if p.port ∉ r.announced ∧ (r.push p).2.isComplete p.port = true then r.announced ++ [p.port]
    else r.announced := by
  have hp := pushed r p
  generalize (r.push p).2 = r' at hp ⊢
  cases hp with
  | ignored => rw [if_neg fun hn => hn.1 (h p.port hn.2)]
  | completed _ hn hc => exact (if_pos ⟨hn, hc⟩).symm
  | waiting _ hn => exact (if_neg hn).symm
  | skipped =>
    rw [announced_announce, announced_skipGap]
    rfl

end NarrowLink.Reassembly

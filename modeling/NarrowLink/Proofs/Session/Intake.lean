import Mathlib.Data.List.Sort
import NarrowLink.Proofs.Exchange.Steps
import NarrowLink.Proofs.Exchange.Sweep
import NarrowLink.Proofs.Queue.Single

/-!
# The inbound queue of a session

A session keeps in its inbound queue what arrived and was not handed out: `k` packets in sequence, and
others beyond a gap (`Waits`).  The queue ascends by the distance from the first number that was not
handed out, because a window reaches over no more than half the number space.  So a packet goes to its
place whatever it is (`Waits.absorb`), and handing out takes the `k` packets in sequence
(`Waits.fetchInbound`).
-/

namespace NarrowLink.Connection

open Wire

/-- If nothing that has a property comes behind something that has not, then what has it stands at the
front. -/
theorem takeWhile_dropWhile_eq_filter {α : Type} {f : α → Bool} {as : List α}
    (h : as.Pairwise fun a b => f b = true → f a = true) :
    as.takeWhile f = as.filter f ∧ as.dropWhile f = as.filter fun a => !f a := by
  induction as with
  | nil => exact ⟨rfl, rfl⟩
  | cons a as ih =>
    obtain ⟨hhead, htail⟩ := List.pairwise_cons.1 h
    obtain ⟨htake, hdrop⟩ := ih htail
    by_cases hf : f a = true
    · simp [hf, htake, hdrop]
    · have hnone : ∀ b ∈ as, f b = false := fun b hb =>
        Bool.not_eq_true _ ▸ fun hb' => hf (hhead b hb hb')
      have hall : as.filter f = [] := List.filter_eq_nil_iff.2 fun b hb => by simp [hnone b hb]
      have hself : (as.filter fun b => !f b) = as :=
        List.filter_eq_self.2 fun b hb => by simp [hnone b hb]
      simp [hf, hall, hself]

theorem takeWhile_dropWhile_congr {α : Type} {f g : α → Bool} {as : List α}
    (h : ∀ a ∈ as, f a = g a) :
    as.takeWhile f = as.takeWhile g ∧ as.dropWhile f = as.dropWhile g := by
  induction as with
  | nil => exact ⟨rfl, rfl⟩
  | cons a as ih =>
    obtain ⟨htake, hdrop⟩ := ih fun b hb => h b (List.mem_cons_of_mem _ hb)
    have ha := h a List.mem_cons_self
    by_cases hg : g a = true
    · simp [ha, hg, htake, hdrop]
    · simp [ha, hg]

/-- The packet comes before a number. -/
def comesBefore (e : UInt8) (p : Packet) : Bool := Serial.precedes p.header.relSeq e

/-- Handing out takes packets from the front as long as they come before what is expected next. -/
theorem fetchInbound_spec {s : Session} {ps : List Packet} (h : s.inbound.Holds s.localPort ps) :
    ∃ q, s.fetchInbound = (ps.takeWhile (comesBefore s.expected), { s with inbound := q }) ∧
      q.Holds s.localPort (ps.dropWhile (comesBefore s.expected)) := by
  have hupto : ∃ q, s.fetchInboundUpTo ps.length =
        (ps.takeWhile (comesBefore s.expected), { s with inbound := q }) ∧
      q.Holds s.localPort (ps.dropWhile (comesBefore s.expected)) := by
    induction ps generalizing s with
    | nil => exact ⟨s.inbound, rfl, h⟩
    | cons p ps ih =>
      obtain ⟨q, hpop, hq⟩ := h.pop_cons
      rw [List.length_cons]
      unfold Session.fetchInboundUpTo
      rw [hpop]
      by_cases hbefore : comesBefore s.expected p = true
      · obtain ⟨q', he, hq'⟩ := ih (s := { s with inbound := q }) hq
        refine ⟨q', ?_, ?_⟩
        · rw [List.takeWhile_cons_of_pos hbefore]
          simp only
          rw [if_pos (show Serial.precedes p.header.relSeq s.expected = true from hbefore), he]
        · rwa [List.dropWhile_cons_of_pos hbefore]
      · refine ⟨s.inbound, ?_, ?_⟩
        · rw [List.takeWhile_cons_of_neg hbefore]
          simp only
          rw [if_neg (show ¬ Serial.precedes p.header.relSeq s.expected = true from hbefore)]
        · rwa [List.dropWhile_cons_of_neg hbefore]
  unfold Session.fetchInbound
  rwa [h.packets]

/-- Taking data in notes its number, and reports what became available in sequence. -/
theorem absorb_eq (s : Session) (q : Queue) (relSeq : UInt8) :
    ∃ events, s.absorb q relSeq = { s with
        inbound := q
        early := (Session.runFrom 256 (s.early.set relSeq true) s.expected).1
        expected := (Session.runFrom 256 (s.early.set relSeq true) s.expected).2
        hasGap := (Session.runFrom 256 (s.early.set relSeq true) s.expected).1.values.any id
        events := events } ∧
      ((Session.runFrom 256 (s.early.set relSeq true) s.expected).2 ≠ s.expected →
        .inboundAvailable s.localPort ∈ events) := by
  let t := ({ s with inbound := q } : Session).arrive relSeq |>.advance
  unfold Session.absorb
  simp only
  split
  · obtain ⟨events, hraise⟩ := raise_fields t (.inboundAvailable s.localPort)
    have htold := (mem_events_raise t (.inboundAvailable s.localPort) (.inboundAvailable s.localPort)).2
      (.inr rfl)
    rw [hraise] at htold
    exact ⟨events, hraise, fun _ => htold⟩
  · rename_i hsame
    exact ⟨t.events, rfl, fun h => absurd h hsame⟩

/-- The answer to the request for the connection is the first number that arrives. -/
theorem welcomed_eq (s : Session) (p : Packet) :
    ∃ inFlight oldest events, s.welcomed p = { s with
      state := .connected
      early := (Session.runFrom 256 (s.early.set p.header.relSeq true) p.header.relSeq).1
      expected := (Session.runFrom 256 (s.early.set p.header.relSeq true) p.header.relSeq).2
      hasGap := (Session.runFrom 256 (s.early.set p.header.relSeq true) p.header.relSeq).1.values.any id
      inFlight := inFlight
      oldestUnacked := oldest
      events := events } := by
  obtain ⟨inFlight, oldest, hack⟩ := acknowledge_fields s p.header.ack
  let u : Session :=
    { s with inFlight := inFlight, oldestUnacked := oldest, expected := p.header.relSeq }
  obtain ⟨events, hmove⟩ := moveTo_fields (u.arrive p.header.relSeq).advance .connected
  refine ⟨inFlight, oldest, events, ?_⟩
  unfold Session.welcomed
  rw [hack]
  exact hmove

/-- A single number is a run of its own. -/
theorem runFrom_single {early : ByteMap Bool} (h : ∀ b, early.get b = false) (r : UInt8) :
    (Session.runFrom 256 (early.set r true) r).2 = Serial.next r ∧
      ∀ b, (Session.runFrom 256 (early.set r true) r).1.get b = false := by
  have hback : ∀ b, ((early.set r true).set r false).get b = false := by
    intro b
    rw [ByteMap.get_set]
    split
    · rfl
    · rename_i hne
      rw [ByteMap.get_set_of_ne _ _ hne]
      exact h b
  have htwice : Session.runFrom 256 (early.set r true) r =
      ((early.set r true).set r false, Serial.next r) := by
    rw [Session.runFrom, if_pos (ByteMap.get_set_self _ _ _), Session.runFrom, if_neg (by simp [hback])]
  rw [htwice]
  exact ⟨rfl, hback⟩

/-- How far a packet lies ahead of a number. -/
def ahead (e : UInt8) (p : Packet) : Nat := Serial.distance e p.header.relSeq

/-- A session has handed out everything before number `e`.  These packets wait in its inbound queue, the
first `k` of them in sequence. -/
structure Waits (s : Session) (e : UInt8) (k : Nat) (ps : List Packet) : Prop where
  holds : s.inbound.Holds s.localPort ps
  sorted : ps.Pairwise fun p q => ahead e p < ahead e q
  near : ∀ p ∈ ps, ahead e p < 128
  expected : s.expected = Serial.forward e k
  run : ∀ i < k, ∃ p ∈ ps, p.header.relSeq = Serial.forward e i
  early : ∀ b, s.early.get b = true ↔ ∃ p ∈ ps, p.header.relSeq = b ∧ k ≤ ahead e p

variable {s : Session} {e : UInt8} {k : Nat} {ps : List Packet}

theorem relSeq_eq_forward_ahead (e : UInt8) (p : Packet) :
    p.header.relSeq = Serial.forward e (ahead e p) :=
  (Serial.forward_distance e p.header.relSeq).symm

/-- Of the numbers ahead, as many as fit in one turn can be told apart. -/
theorem ahead_eq {p : Packet} {i : Nat} (hi : i < 256) (h : p.header.relSeq = Serial.forward e i) :
    ahead e p = i := by
  unfold ahead
  rw [h]
  exact Serial.distance_forward_self e hi

theorem ahead_forward {p : Packet} (h : k ≤ ahead e p) : ahead (Serial.forward e k) p = ahead e p - k := by
  have hlt := Serial.distance_lt e p.header.relSeq
  have hd := Serial.distance_forward e h (Nat.lt_of_lt_of_le hlt (Nat.le_add_left _ _))
  rwa [← relSeq_eq_forward_ahead] at hd

/-- A window never holds more than half the number space in sequence. -/
theorem le_of_run {n : Nat} (hnear : ∀ p ∈ ps, ahead e p < 128)
    (hrun : ∀ i < n, ∃ p ∈ ps, p.header.relSeq = Serial.forward e i) : n ≤ 128 := by
  by_contra hlt
  obtain ⟨p, hp, hrel⟩ := hrun 128 (by omega)
  have := hnear p hp
  rw [ahead_eq (by omega) hrel] at this
  omega

/-- The packets that wait have different numbers. -/
theorem Waits.nodup (h : Waits s e k ps) : (ps.map fun p => p.header.relSeq).Nodup := by
  refine List.pairwise_map.2 (h.sorted.imp ?_)
  intro p q hlt heq
  unfold ahead at hlt
  rw [heq] at hlt
  exact Nat.lt_irrefl _ hlt

/-- What has arrived early once a packet has come. -/
theorem Waits.arrived_iff (h : Waits s e 0 ps) (p : Packet) (b : UInt8) :
    (s.early.set p.header.relSeq true).get b = true ↔
      ∃ x ∈ Order.reliability.insert p ps, x.header.relSeq = b := by
  have hmem : ∀ x, x ∈ Order.reliability.insert p ps ↔ x = p ∨ x ∈ ps :=
    fun x => Order.mem_insert _ _
  rw [ByteMap.get_set]
  constructor
  · intro hb
    split at hb
    · rename_i hp
      exact ⟨p, (hmem p).2 (.inl rfl), hp⟩
    · obtain ⟨x, hx, hrel, -⟩ := (h.early b).1 hb
      exact ⟨x, (hmem x).2 (.inr hx), hrel⟩
  · rintro ⟨x, hx, rfl⟩
    split
    · rfl
    · rename_i hp
      rcases (hmem x).1 hx with rfl | hx
      · exact absurd rfl hp
      · exact (h.early _).2 ⟨x, hx, rfl, Nat.zero_le _⟩

/-- A packet that did not arrive before goes to its place. -/
theorem Waits.sorted_insert (h : Waits s e 0 ps) {p : Packet} (hnear : ahead e p < 128)
    (hnew : s.early.get p.header.relSeq = false) :
    (Order.reliability.insert p ps).Pairwise fun p q => ahead e p < ahead e q := by
  refine Order.pairwise_insert ?_ h.sorted ?_
  · intro x hx
    exact Serial.precedes_iff_distance_lt (c := e) hnear (h.near x hx)
  · intro x hx heq
    have hrel : x.header.relSeq = p.header.relSeq := Serial.eq_of_distance_eq heq
    have hearly := (h.early p.header.relSeq).2 ⟨x, hx, hrel, Nat.zero_le _⟩
    rw [hnew] at hearly
    cases hearly

/-- Without the first `k` numbers, what has arrived early is at least so far ahead. -/
theorem beyond_run_iff (hk : k ≤ 128) (b : UInt8) :
    ((∃ p ∈ ps, p.header.relSeq = b) ∧ ∀ i < k, b ≠ Serial.forward e i) ↔
      ∃ p ∈ ps, p.header.relSeq = b ∧ k ≤ ahead e p := by
  constructor
  · rintro ⟨⟨p, hp, rfl⟩, hnot⟩
    refine ⟨p, hp, rfl, ?_⟩
    by_contra hlt
    exact hnot (ahead e p) (by omega) (relSeq_eq_forward_ahead e p)
  · rintro ⟨p, hp, rfl, hge⟩
    refine ⟨⟨p, hp, rfl⟩, fun i hi heq => ?_⟩
    have := ahead_eq (by omega) heq
    omega

/-- A packet that is ahead within half the number space and did not arrive before goes to its place, and
what is in sequence now is noted. -/
theorem Waits.absorb (h : Waits s e 0 ps) {p : Packet} {q : Queue} (hport : p.port = s.localPort)
    (hnear : ahead e p < 128) (hnew : s.early.get p.header.relSeq = false)
    (hpush : s.inbound.push p = .ok q) :
    ∃ k, Waits (s.absorb q p.header.relSeq) e k (Order.reliability.insert p ps) ∧
      (k ≠ 0 → .inboundAvailable s.localPort ∈ (s.absorb q p.header.relSeq).events) := by
  have hexpected : s.expected = e := h.expected
  obtain ⟨k, -, hend, hrun, -, hleft⟩ := Session.runFrom_spec 256 (Nat.le_refl _)
    (s.early.set p.header.relSeq true) s.expected
  obtain ⟨events, hfields, htold⟩ := absorb_eq s q p.header.relSeq
  rw [hexpected] at hend hrun hleft hfields htold
  have hall : ∀ x ∈ Order.reliability.insert p ps, ahead e x < 128 := by
    intro x hx
    rcases (Order.mem_insert _ _).1 hx with rfl | hx
    · exact hnear
    · exact h.near x hx
  have hrun' : ∀ i < k, ∃ x ∈ Order.reliability.insert p ps, x.header.relSeq = Serial.forward e i :=
    fun i hi => (h.arrived_iff p _).1 (hrun i hi)
  have hk := le_of_run hall hrun'
  have hholds := h.holds.add hport
  rw [← (Queue.push_eq_ok_iff.1 hpush).2] at hholds
  rw [hfields]
  refine ⟨k, ⟨hholds, h.sorted_insert hnear hnew, hall, hend, hrun', fun b => ?_⟩, fun hpos => ?_⟩
  · rw [hleft b, h.arrived_iff p b]
    exact beyond_run_iff hk b
  · refine htold ?_
    rw [hend]
    intro hsame
    have hself := Serial.distance_forward_self e (n := k) (by simp only [Serial.half]; omega)
    rw [hsame, Serial.distance_self] at hself
    exact hpos hself.symm

/-- The packets that come before the expected number are those in sequence. -/
theorem Waits.comesBefore_eq (h : Waits s e k ps) {p : Packet} (hp : p ∈ ps) :
    comesBefore s.expected p = decide (ahead e p < k) := by
  have hk := le_of_run h.near h.run
  have hnear := h.near p hp
  have hiff : comesBefore s.expected p = true ↔ ahead e p < k := by
    unfold comesBefore
    rw [h.expected, relSeq_eq_forward_ahead e p]
    exact Serial.precedes_forward_iff e (by simp only [Serial.half]; omega)
      (by simp only [Serial.half]; omega)
  rw [Bool.eq_iff_iff, hiff, decide_eq_true_eq]

/-- The packets in sequence are those that come first, and the others follow them. -/
theorem Waits.takeWhile_dropWhile (h : Waits s e k ps) :
    ps.takeWhile (comesBefore s.expected) = ps.filter (comesBefore s.expected) ∧
      ps.dropWhile (comesBefore s.expected) = ps.filter fun p => !comesBefore s.expected p := by
  refine takeWhile_dropWhile_eq_filter (h.sorted.imp_of_mem ?_)
  intro p q hp hq hlt hqk
  rw [h.comesBefore_eq hq, decide_eq_true_eq] at hqk
  rw [h.comesBefore_eq hp, decide_eq_true_eq]
  omega

/-- The numbers of the packets in sequence are the first ones ahead. -/
theorem Waits.ahead_takeWhile (h : Waits s e k ps) :
    (ps.takeWhile (comesBefore s.expected)).map (ahead e) = List.range k := by
  have hk := le_of_run h.near h.run
  rw [h.takeWhile_dropWhile.1]
  refine List.Pairwise.eq_of_mem_iff (List.pairwise_map.2 (h.sorted.filter _))
    List.pairwise_lt_range fun i => ?_
  rw [List.mem_map, List.mem_range]
  constructor
  · rintro ⟨p, hp, rfl⟩
    obtain ⟨hp, hlt⟩ := List.mem_filter.1 hp
    rwa [h.comesBefore_eq hp, decide_eq_true_eq] at hlt
  · intro hi
    obtain ⟨p, hp, hrel⟩ := h.run i hi
    have hahead := ahead_eq (by omega) hrel
    refine ⟨p, List.mem_filter.2 ⟨hp, ?_⟩, hahead⟩
    rwa [h.comesBefore_eq hp, decide_eq_true_eq, hahead]

/-- Handing out takes the packets in sequence, whose numbers follow each other. -/
theorem Waits.fetchInbound (h : Waits s e k ps) :
    (s.fetchInbound.1.map fun p => p.header.relSeq) = (List.range k).map (Serial.forward e) ∧
      ∃ rest q, s.fetchInbound.2 = { s with inbound := q } ∧
        Waits { s with inbound := q } (Serial.forward e k) 0 rest := by
  obtain ⟨q, hfetch, hq⟩ := fetchInbound_spec h.holds
  rw [h.takeWhile_dropWhile.2] at hq
  have hrest : ∀ p, p ∈ (ps.filter fun p => !comesBefore s.expected p) ↔ p ∈ ps ∧ k ≤ ahead e p := by
    intro p
    rw [List.mem_filter]
    refine and_congr_right fun hp => ?_
    rw [h.comesBefore_eq hp]
    simp
  rw [hfetch]
  refine ⟨?_, _, q, rfl, ⟨hq, ?_, ?_, h.expected, by simp, ?_⟩⟩
  · rw [← h.ahead_takeWhile, List.map_map]
    exact List.map_congr_left fun p _ => relSeq_eq_forward_ahead e p
  · refine (h.sorted.filter _).imp_of_mem ?_
    intro x y hx hy hlt
    have hx := ((hrest x).1 hx).2
    rw [ahead_forward hx, ahead_forward ((hrest y).1 hy).2]
    omega
  · intro x hx
    obtain ⟨hx, hge⟩ := (hrest x).1 hx
    have := h.near x hx
    rw [ahead_forward hge]
    omega
  · intro b
    rw [h.early b]
    constructor
    · rintro ⟨x, hx, hrel, hge⟩
      exact ⟨x, (hrest x).2 ⟨hx, hge⟩, hrel, Nat.zero_le _⟩
    · rintro ⟨x, hx, hrel, -⟩
      obtain ⟨hx, hge⟩ := (hrest x).1 hx
      exact ⟨x, hx, hrel, hge⟩

end NarrowLink.Connection

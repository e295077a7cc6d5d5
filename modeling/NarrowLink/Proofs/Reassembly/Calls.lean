import NarrowLink.Proofs.Queue.Contents
import NarrowLink.Proofs.Queue.Insertion
import NarrowLink.Proofs.Serial.Forward
import NarrowLink.Reassembly

/-!
# Runs of the receiving half

`Call` lists what can be asked of a reassembly, and `Reassembly.after` is the state that a run of calls
leaves behind.  A message is a run of fragments with consecutive numbers of which only the last is
final (`IsRun`), and `isComplete` holds exactly when the fragments up to the first final one form such
a run (`completeFrom_iff`).  Every operation has one law about the queue of a port: `pushed` lists what a
push can do, and `takes_takeThroughFinal` says what taking up to a final fragment leaves.

The fragments that wait for a port always stand in ascending order of their distance from the number
that the port awaits, all of them less than half the number space ahead (`Ordered`, `ordered_after`).
-/

namespace NarrowLink.Reassembly

open Wire

/-- A call on the receiving half of an engine. -/
inductive Call where
  /-- A datagram came in. -/
  | push (p : Packet)
  /-- A connection hands over a packet. -/
  | append (p : Packet)
  /-- A consumer asks for a message. -/
  | take

/-- The state that a call leaves behind. -/
def apply (r : Reassembly) : Call → Reassembly
  | .push p => (r.push p).2
  | .append p => r.append p
  | .take => r.take.2

/-- The state that a run of calls leaves behind. -/
def after (r : Reassembly) (calls : List Call) : Reassembly := calls.foldl apply r

@[simp] theorem after_nil (r : Reassembly) : r.after [] = r := rfl

theorem after_concat (r : Reassembly) (calls : List Call) (c : Call) :
    r.after (calls ++ [c]) = (r.after calls).apply c := by
  simp [after]

/-! ## Runs of fragments -/

/-- The packets are the fragments from number `first` on without a gap, and only the last is final. -/
def IsRun : UInt8 → List Packet → Prop
  | _, [] => False
  | first, p :: ps => p.header.fragSeq = first ∧
      if p.isFinal then ps = [] else IsRun (Serial.next first) ps

/-- The packets up to and including the first final one, or all if there is none. -/
def throughFinal : List Packet → List Packet
  | [] => []
  | p :: ps => if p.isFinal then [p] else p :: throughFinal ps

/-- The packets behind the first final one. -/
def behindFinal : List Packet → List Packet
  | [] => []
  | p :: ps => if p.isFinal then ps else behindFinal ps

theorem throughFinal_append_behindFinal (ps : List Packet) :
    throughFinal ps ++ behindFinal ps = ps := by
  induction ps with
  | nil => rfl
  | cons p ps ih =>
    unfold throughFinal behindFinal
    split
    · rfl
    · rw [List.cons_append, ih]

/-- A message is complete exactly when the fragments up to the first final one are a run. -/
theorem completeFrom_iff (first : UInt8) (ps : List Packet) :
    completeFrom first ps = true ↔ IsRun first (throughFinal ps) := by
  induction ps generalizing first with
  | nil => simp [completeFrom, throughFinal, IsRun]
  | cons p ps ih =>
    by_cases hf : p.header.fragSeq = first
    · by_cases hp : p.isFinal = true
      · simp [completeFrom, throughFinal, IsRun, hf, hp]
      · simp [completeFrom, throughFinal, IsRun, hf, hp, ih]
    · by_cases hp : p.isFinal = true <;> simp [completeFrom, throughFinal, IsRun, hf, hp]

theorem IsRun.throughFinal_append {first : UInt8} {run : List Packet} (h : IsRun first run)
    (rest : List Packet) : throughFinal (run ++ rest) = run := by
  induction run generalizing first with
  | nil => exact h.elim
  | cons p ps ih =>
    obtain ⟨-, h⟩ := h
    rw [List.cons_append, throughFinal]
    split at h
    · rename_i hp
      rw [if_pos hp, h]
    · rename_i hp
      rw [if_neg hp, ih h]

theorem IsRun.completeFrom_append {first : UInt8} {run : List Packet} (h : IsRun first run)
    (rest : List Packet) : completeFrom first (run ++ rest) = true := by
  rw [completeFrom_iff, h.throughFinal_append]
  exact h

theorem IsRun.ne_nil {first : UInt8} {run : List Packet} (h : IsRun first run) : run ≠ [] := by
  rintro rfl
  exact h

/-- The fragments of a run carry the numbers from the first on. -/
theorem IsRun.fragSeq {first : UInt8} {run : List Packet} (h : IsRun first run) (i : Nat)
    (hi : i < run.length) : run[i].header.fragSeq = Serial.forward first i := by
  induction run generalizing first i with
  | nil => exact h.elim
  | cons p ps ih =>
    obtain ⟨hp, h⟩ := h
    cases i with
    | zero => exact hp
    | succ i =>
      split at h
      · simp [h] at hi
      · rw [List.getElem_cons_succ, ih h i (by simpa using hi), Serial.forward_next]

/-! ## Taking up to a final fragment -/

/-- The number that a port awaits after some packets were taken. -/
def awaitedAfter (first : UInt8) (taken : List Packet) : UInt8 :=
  (taken.getLast?.map fun p => Serial.next p.header.fragSeq).getD first

/-- `r'` is what `r` becomes when the packets of a port up to the first final one are taken. -/
structure Takes (r : Reassembly) (port : UInt8) (r' : Reassembly) : Prop where
  eq : r' = { r with queue := r'.queue, awaited := r'.awaited }
  order : r'.queue.order = r.queue.order
  packets : r'.queue.packets port = behindFinal (r.queue.packets port)
  packets_other : ∀ other, other ≠ port → r'.queue.packets other = r.queue.packets other
  awaited : r'.awaited.get port =
    awaitedAfter (r.awaited.get port) (throughFinal (r.queue.packets port))
  awaited_other : ∀ other, other ≠ port → r'.awaited.get other = r.awaited.get other

theorem Takes.refl {r : Reassembly} {port : UInt8} (h : r.queue.packets port = []) :
    Takes r port r where
  eq := rfl
  order := rfl
  packets := by rw [h]; rfl
  packets_other := fun _ _ => rfl
  awaited := by rw [h]; rfl
  awaited_other := fun _ _ => rfl

/-- Taking as many packets as the port has takes those up to the first final one. -/
theorem takeUpTo_spec (n : Nat) (r : Reassembly) (port : UInt8)
    (hn : (r.queue.packets port).length ≤ n) :
    (r.takeUpTo n port).1 = throughFinal (r.queue.packets port) ∧
      Takes r port (r.takeUpTo n port).2 := by
  induction n generalizing r with
  | zero =>
    have hnil : r.queue.packets port = [] := List.length_eq_zero_iff.1 (Nat.le_zero.1 hn)
    refine ⟨?_, Takes.refl hnil⟩
    rw [hnil]
    rfl
  | succ n ih =>
    rw [takeUpTo]
    cases hpop : r.queue.pop port with
    | none =>
      have hnil := Queue.pop_eq_none_iff.1 hpop
      refine ⟨?_, Takes.refl hnil⟩
      rw [hnil]
      rfl
    | some popped =>
      obtain ⟨p, q⟩ := popped
      obtain ⟨hps, hothers⟩ := Queue.packets_pop hpop
      have ho := Queue.order_pop hpop
      simp only
      by_cases hf : p.isFinal = true
      · rw [if_pos hf, hps, throughFinal, if_pos hf]
        refine ⟨rfl, rfl, ho, ?_, hothers, ?_, ?_⟩
        · rw [hps, behindFinal, if_pos hf]
        · rw [hps, throughFinal, if_pos hf, ByteMap.get_set_self]
          rfl
        · exact fun other hne => ByteMap.get_set_of_ne _ _ hne.symm
      · rw [if_neg hf, hps, throughFinal, if_neg hf]
        have hlen : (q.packets port).length ≤ n := by
          rw [hps, List.length_cons] at hn
          omega
        -- the rest is taken from what the first packet leaves
        obtain ⟨htaken, ht⟩ :=
          ih { r with queue := q, awaited := r.awaited.set port (Serial.next p.header.fragSeq) } hlen
        refine ⟨congrArg (p :: ·) htaken, ?_, ht.order.trans ho, ?_, ?_, ?_, ?_⟩
        · rw [ht.eq]
        · rw [ht.packets, hps, behindFinal, if_neg hf]
        · exact fun other hne => (ht.packets_other other hne).trans (hothers other hne)
        · rw [ht.awaited, hps, throughFinal, if_neg hf]
          simp only [ByteMap.get_set_self, awaitedAfter]
          cases throughFinal (q.packets port) with
          | nil => rfl
          | cons x xs => simp [List.getLast?_cons]
        · exact fun other hne =>
            (ht.awaited_other other hne).trans (ByteMap.get_set_of_ne _ _ hne.symm)

theorem takeThroughFinal_fst (r : Reassembly) (port : UInt8) :
    (r.takeThroughFinal port).1 = throughFinal (r.queue.packets port) :=
  (takeUpTo_spec _ r port (Nat.le_refl _)).1

theorem takes_takeThroughFinal (r : Reassembly) (port : UInt8) :
    Takes r port (r.takeThroughFinal port).2 :=
  (takeUpTo_spec _ r port (Nat.le_refl _)).2

/-! ## What a push does -/

/-- The packet is put into the queue of its port. -/
structure Accepts (r : Reassembly) (p : Packet) : Prop where
  current : Serial.precedes p.header.fragSeq (r.awaited.get p.port) = false
  fresh : ∀ o ∈ r.queue.packets p.port, o.header.fragSeq ≠ p.header.fragSeq
  fits : r.queue.used + p.wireLength ≤ r.queue.capacity

/-- The state with one more packet in the queue. -/
def queued (r : Reassembly) (p : Packet) : Reassembly := { r with queue := r.queue.add p }

/-- The possible outcomes of a push. -/
inductive Pushed (r : Reassembly) (p : Packet) : Reassembly → Prop
  | ignored (h : ¬ r.Accepts p) : Pushed r p r
  | completed (h : r.Accepts p) (hn : p.port ∉ r.announced)
      (hc : (r.queued p).isComplete p.port = true) :
      Pushed r p { r.queued p with announced := r.announced ++ [p.port] }
  | waiting (h : r.Accepts p) (hn : ¬ (p.port ∉ r.announced ∧ (r.queued p).isComplete p.port = true))
      (hlen : ((r.queued p).queue.packets p.port).length < r.config.maxFragments) :
      Pushed r p (r.queued p)
  | skipped (h : r.Accepts p) (hn : ¬ (p.port ∉ r.announced ∧ (r.queued p).isComplete p.port = true))
      (hlen : r.config.maxFragments ≤ ((r.queued p).queue.packets p.port).length) :
      Pushed r p (((r.queued p).skipGap p.port).announce p.port).2

theorem push_of_accepts {r : Reassembly} {p : Packet} (h : r.Accepts p) :
    r.push p = (.ok (), if p.port ∉ r.announced ∧ (r.queued p).isComplete p.port = true then
        { r.queued p with announced := r.announced ++ [p.port] }
      else if r.config.maxFragments ≤ ((r.queued p).queue.packets p.port).length then
        (((r.queued p).skipGap p.port).announce p.port).2
      else r.queued p) := by
  have hdup : (r.queue.packets p.port).any (fun o => o.header.fragSeq == p.header.fragSeq) = false := by
    rw [List.any_eq_false]
    intro o ho
    simpa using h.fresh o ho
  have hpush : r.queue.push p = .ok (r.queue.add p) := Queue.push_eq_ok_iff.2 ⟨h.fits, rfl⟩
  unfold push
  simp only [h.current, hdup, hpush, Bool.false_eq_true, if_false]
  by_cases hc : p.port ∉ r.announced ∧ (r.queued p).isComplete p.port = true
  · have : (({ r with queue := r.queue.add p } : Reassembly).announce p.port) =
        (true, { r.queued p with announced := r.announced ++ [p.port] }) := if_pos hc
    rw [this, if_pos hc]
  · have : (({ r with queue := r.queue.add p } : Reassembly).announce p.port) =
        (false, r.queued p) := if_neg hc
    rw [this, if_neg hc]
    by_cases hlen : r.config.maxFragments ≤ ((r.queued p).queue.packets p.port).length
    · rw [if_pos hlen]
      exact if_pos hlen
    · rw [if_neg hlen]
      exact if_neg hlen

theorem push_of_not_accepts {r : Reassembly} {p : Packet} (h : ¬ r.Accepts p) :
    (r.push p).2 = r := by
  unfold push
  simp only
  split
  · rfl
  split
  · rfl
  rename_i hcur hdup
  cases hpush : r.queue.push p with
  | error e => rfl
  | ok q =>
    refine absurd ⟨?_, ?_, (Queue.push_eq_ok_iff.1 hpush).1⟩ h
    · exact Bool.not_eq_true _ ▸ hcur
    · intro o ho e
      exact hdup (List.any_eq_true.2 ⟨o, ho, by simp [e]⟩)

theorem push_of_stale {r : Reassembly} {p : Packet}
    (h : Serial.precedes p.header.fragSeq (r.awaited.get p.port) = true) :
    r.push p = (.ok (), r) := by
  unfold push
  rw [if_pos h]

theorem pushed (r : Reassembly) (p : Packet) : Pushed r p (r.push p).2 := by
  by_cases h : r.Accepts p
  · rw [push_of_accepts h]
    simp only
    split
    · rename_i hc
      exact .completed h hc.1 hc.2
    split
    · rename_i hc hlen
      exact .skipped h hc hlen
    · rename_i hc hlen
      exact .waiting h hc (Nat.lt_of_not_le hlen)
  · rw [push_of_not_accepts h]
    exact .ignored h

/-- A current and new fragment is queued unless the push is refused. -/
theorem accepts_of_push_ok {r : Reassembly} {p : Packet} (h : (r.push p).1 = .ok ())
    (hcur : Serial.precedes p.header.fragSeq (r.awaited.get p.port) = false)
    (hfresh : ∀ o ∈ r.queue.packets p.port, o.header.fragSeq ≠ p.header.fragSeq) :
    r.Accepts p := by
  refine ⟨hcur, hfresh, ?_⟩
  have hdup : (r.queue.packets p.port).any (fun o => o.header.fragSeq == p.header.fragSeq) = false := by
    rw [List.any_eq_false]
    intro o ho
    simpa using hfresh o ho
  unfold push at h
  simp only [hcur, hdup, Bool.false_eq_true, if_false] at h
  cases hpush : r.queue.push p with
  | error e =>
    rw [hpush] at h
    cases h
  | ok q => exact (Queue.push_eq_ok_iff.1 hpush).1

theorem announce_fields (r : Reassembly) (port : UInt8) :
    ∃ announced, (r.announce port).2 = { r with announced := announced } := by
  unfold announce
  split
  · exact ⟨_, rfl⟩
  · exact ⟨r.announced, rfl⟩

/-- A push changes nothing but the queue, what is awaited and what is announced. -/
theorem push_fields (r : Reassembly) (p : Packet) :
    ∃ queue awaited announced, (r.push p).2 =
      { r with queue := queue, awaited := awaited, announced := announced } := by
  have hp := pushed r p
  generalize (r.push p).2 = r' at hp ⊢
  cases hp with
  | ignored => exact ⟨r.queue, r.awaited, r.announced, rfl⟩
  | completed => exact ⟨_, r.awaited, _, rfl⟩
  | waiting => exact ⟨_, r.awaited, r.announced, rfl⟩
  | skipped =>
    obtain ⟨announced, ha⟩ := announce_fields ((r.queued p).skipGap p.port) p.port
    have ht := (takes_takeThroughFinal (r.queued p) p.port).eq
    rw [ha, skipGap, ht]
    exact ⟨_, _, announced, rfl⟩

/-- A packet of a connection changes nothing but the messages of connections. -/
theorem append_fields (r : Reassembly) (p : Packet) :
    ∃ begun finished, r.append p = { r with begun := begun, finished := finished } := by
  unfold append
  simp only
  split
  · exact ⟨_, _, rfl⟩
  split
  · exact ⟨_, r.finished, rfl⟩
  · exact ⟨_, r.finished, rfl⟩

/-- A push leaves the other ports alone. -/
theorem push_of_ne {r : Reassembly} {p : Packet} {port : UInt8} (h : port ≠ p.port) :
    (r.push p).2.queue.packets port = r.queue.packets port ∧
      (r.push p).2.awaited.get port = r.awaited.get port := by
  have hq : (r.queued p).queue.packets port = r.queue.packets port :=
    Queue.packets_add_of_ne _ h.symm
  have hp := pushed r p
  generalize (r.push p).2 = r' at hp ⊢
  cases hp with
  | ignored => exact ⟨rfl, rfl⟩
  | completed => exact ⟨hq, rfl⟩
  | waiting => exact ⟨hq, rfl⟩
  | skipped =>
    obtain ⟨announced, ha⟩ := announce_fields ((r.queued p).skipGap p.port) p.port
    have ht := takes_takeThroughFinal (r.queued p) p.port
    rw [ha]
    exact ⟨(ht.packets_other port h).trans hq, ht.awaited_other port h⟩

/-- Taking a message of an announced port, and announcing the port again if it has another one. -/
theorem take_eq {r : Reassembly} {port : UInt8} {ports : List UInt8}
    (hf : r.finished = []) (ha : r.announced = port :: ports) :
    r.take = (some (port, (throughFinal (r.queue.packets port)).flatMap Packet.payload),
      ((({ r with announced := ports } : Reassembly).skipGap port).announce port).2) := by
  unfold take
  split
  · rename_i h
    rw [hf] at h
    cases h
  split
  · rename_i h
    rw [ha] at h
    cases h
  · rename_i h
    rw [ha] at h
    cases h
    have hfst := takeThroughFinal_fst { r with announced := ports } port
    refine Prod.ext ?_ rfl
    show some (port, List.flatMap Packet.payload _) = _
    rw [hfst]

/-- What taking a message from a port leaves behind. -/
theorem take_of_announced {r : Reassembly} {port : UInt8} {ports : List UInt8}
    (hf : r.finished = []) (ha : r.announced = port :: ports) :
    ∃ r' announced, Takes { r with announced := ports } port r' ∧
      r.take = (some (port, (throughFinal (r.queue.packets port)).flatMap Packet.payload),
        { r' with announced := announced }) := by
  obtain ⟨announced, he⟩ := announce_fields (({ r with announced := ports } : Reassembly).skipGap port) port
  refine ⟨_, announced, takes_takeThroughFinal { r with announced := ports } port, ?_⟩
  rw [take_eq hf ha, he]
  rfl

/-! ## The order of the queues -/

/-- The packets stand in ascending order of their distance from a number, all of them less than half
the number space ahead of it. -/
structure Ascending (first : UInt8) (ps : List Packet) : Prop where
  near : ∀ p ∈ ps, Serial.distance first p.header.fragSeq < 128
  sorted : ps.Pairwise fun x y =>
    Serial.distance first x.header.fragSeq < Serial.distance first y.header.fragSeq

theorem Ascending.nil (first : UInt8) : Ascending first [] := ⟨by simp, .nil⟩

/-- The order of the queue agrees with the distance from the awaited number. -/
theorem precedes_fragment_iff {first : UInt8} {p y : Packet}
    (hp : Serial.distance first p.header.fragSeq < 128)
    (hy : Serial.distance first y.header.fragSeq < 128) :
    Order.fragment.precedes p y = true ↔
      Serial.distance first p.header.fragSeq < Serial.distance first y.header.fragSeq :=
  Serial.precedes_iff_distance_lt hp hy

theorem distance_lt_of_not_precedes {first n : UInt8} (h : Serial.precedes n first = false) :
    Serial.distance first n < 128 := by
  simpa [Serial.precedes, Serial.half] using h

theorem Ascending.insert {first : UInt8} {ps : List Packet} (h : Ascending first ps) {p : Packet}
    (hp : Serial.precedes p.header.fragSeq first = false)
    (hne : ∀ o ∈ ps, o.header.fragSeq ≠ p.header.fragSeq) :
    Ascending first (Order.fragment.insert p ps) := by
  have hd := distance_lt_of_not_precedes hp
  refine ⟨?_, ?_⟩
  · intro y hy
    rcases (Order.mem_insert _ _).1 hy with rfl | hy
    · exact hd
    · exact h.near y hy
  · refine Order.pairwise_insert (fun y hy => precedes_fragment_iff hd (h.near y hy)) h.sorted ?_
    exact fun y hy e => hne y hy (Serial.eq_of_distance_eq e)

/-- What is left behind a front part stands in order from the number after it. -/
theorem Ascending.awaitedAfter {first : UInt8} {taken rest : List Packet}
    (h : Ascending first (taken ++ rest)) : Ascending (awaitedAfter first taken) rest := by
  rcases List.eq_nil_or_concat' taken with rfl | ⟨front, x, rfl⟩
  · exact h
  have hx := h.near x (by simp)
  have hsplit := (List.pairwise_append.1 h.sorted).2
  -- seen from the number after `x`, everything behind it is closer by the same amount
  have hcloser : ∀ y ∈ rest, Serial.distance (Serial.next x.header.fragSeq) y.header.fragSeq =
      Serial.distance first y.header.fragSeq - (Serial.distance first x.header.fragSeq + 1) := by
    intro y hy
    have hxy := hsplit.2 x (by simp) y hy
    have hnext : Serial.distance first (Serial.next x.header.fragSeq) =
        Serial.distance first x.header.fragSeq + 1 := by
      rw [Serial.distance_next, if_neg]
      simp only [Serial.half]
      omega
    rw [Serial.distance_sub (a := first) (by omega), hnext]
  have he : Reassembly.awaitedAfter first (front ++ [x]) = Serial.next x.header.fragSeq := by
    simp [Reassembly.awaitedAfter]
  rw [he]
  refine ⟨?_, ?_⟩
  · intro y hy
    have := h.near y (List.mem_append_right _ hy)
    rw [hcloser y hy]
    omega
  · refine hsplit.1.imp_of_mem ?_
    intro y z hy hz hyz
    have := hsplit.2 x (by simp) y hy
    rw [hcloser y hy, hcloser z hz]
    omega

/-- Every queue stands in order. -/
structure Ordered (r : Reassembly) : Prop where
  order : r.queue.order = .fragment
  ascending : ∀ port, Ascending (r.awaited.get port) (r.queue.packets port)

theorem ordered_new (config : Config) : (new config).Ordered where
  order := rfl
  ascending port := by
    rw [new, Queue.packets_empty]
    exact .nil _

theorem Ordered.takes {r r' : Reassembly} {port : UInt8} (h : r.Ordered) (ht : Takes r port r') :
    r'.Ordered where
  order := ht.order.trans h.order
  ascending other := by
    by_cases hne : other = port
    · subst hne
      rw [ht.packets, ht.awaited]
      refine Ascending.awaitedAfter ?_
      rw [throughFinal_append_behindFinal]
      exact h.ascending other
    · rw [ht.packets_other other hne, ht.awaited_other other hne]
      exact h.ascending other

theorem Ordered.announce {r : Reassembly} (h : r.Ordered) (port : UInt8) :
    (r.announce port).2.Ordered := by
  unfold Reassembly.announce
  split <;> exact ⟨h.order, h.ascending⟩

theorem Ordered.queued {r : Reassembly} (h : r.Ordered) {p : Packet} (hp : r.Accepts p) :
    (r.queued p).Ordered where
  order := h.order
  ascending port := by
    by_cases he : p.port = port
    · subst he
      show Ascending _ ((r.queue.add p).packets p.port)
      rw [Queue.packets_add_self, h.order]
      exact (h.ascending p.port).insert hp.current hp.fresh
    · show Ascending _ ((r.queue.add p).packets port)
      rw [Queue.packets_add_of_ne _ he]
      exact h.ascending port

theorem Ordered.push {r : Reassembly} (h : r.Ordered) (p : Packet) : (r.push p).2.Ordered := by
  have hp := pushed r p
  generalize (r.push p).2 = r' at hp ⊢
  cases hp with
  | ignored => exact h
  | completed ha => exact ⟨(h.queued ha).order, (h.queued ha).ascending⟩
  | waiting ha => exact h.queued ha
  | skipped ha => exact ((h.queued ha).takes (takes_takeThroughFinal _ _)).announce _

theorem Ordered.append {r : Reassembly} (h : r.Ordered) (p : Packet) : (r.append p).Ordered := by
  obtain ⟨_, _, he⟩ := append_fields r p
  rw [he]
  exact ⟨h.order, h.ascending⟩

theorem Ordered.take {r : Reassembly} (h : r.Ordered) : r.take.2.Ordered := by
  unfold Reassembly.take
  split
  · exact ⟨h.order, h.ascending⟩
  split
  · exact h
  rename_i port ports _
  have h' : ({ r with announced := ports } : Reassembly).Ordered := ⟨h.order, h.ascending⟩
  exact (h'.takes (takes_takeThroughFinal _ port)).announce port

theorem Ordered.apply {r : Reassembly} (h : r.Ordered) (c : Call) : (r.apply c).Ordered := by
  cases c with
  | push p => exact h.push p
  | append p => exact h.append p
  | take => exact h.take

/-- Whatever is asked of a reassembly, its queues stay in order. -/
theorem ordered_after (config : Config) (calls : List Call) :
    ((new config).after calls).Ordered := by
  induction calls using List.reverseRecOn with
  | nil => exact ordered_new config
  | append_singleton calls c ih =>
    rw [after_concat]
    exact ih.apply c

end NarrowLink.Reassembly

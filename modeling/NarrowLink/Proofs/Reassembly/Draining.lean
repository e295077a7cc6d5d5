import NarrowLink.Proofs.Queue.Accounting
import NarrowLink.Proofs.Reassembly.Availability

/-!
# A consumer that keeps up

`Reassembly.receive` is what happens to a datagram when the consumer takes all complete messages right
after it came in, and `receiveAll` what happens to a run of datagrams.  Each message taken uses up
something of the state (`pending_take`), so the consumer comes to an end, and then no message is
complete any more (`take_drain`).  Between two datagrams the state is therefore idle: its queues are
in order, nothing is announced, and the bytes of its queue are accounted for (`Idle`).
-/

namespace NarrowLink.Reassembly

open Wire

/-- Takes at most `n` messages, and stops when none is complete. -/
def drainUpTo : Nat → Reassembly → List (UInt8 × List UInt8) × Reassembly
  | 0, r => ([], r)
  | n + 1, r =>
    match r.take with
    | (none, r) => ([], r)
    | (some m, r) =>
      let (ms, r') := drainUpTo n r
      (m :: ms, r')

/-- What there is to take messages from. -/
def pending (r : Reassembly) : Nat := r.finished.length + r.announced.length + r.queue.length

/-- Takes all complete messages. -/
def drain (r : Reassembly) : List (UInt8 × List UInt8) × Reassembly := r.drainUpTo r.pending

/-- A datagram comes in, and the consumer takes all complete messages. -/
def receive (r : Reassembly) (p : Packet) : List (UInt8 × List UInt8) × Reassembly :=
  (r.push p).2.drain

/-- The messages that are taken while a run of datagrams comes in. -/
def receiveAll : Reassembly → List Packet → List (UInt8 × List UInt8)
  | _, [] => []
  | r, p :: ps => (r.receive p).1 ++ receiveAll (r.receive p).2 ps

variable {config : Config} {r r' : Reassembly} {port : UInt8} {p : Packet}

/-! ## Every message taken uses something up -/

theorem length_takeUpTo (n : Nat) (r : Reassembly) (port : UInt8) :
    (r.takeUpTo n port).2.queue.length + (r.takeUpTo n port).1.length = r.queue.length := by
  induction n generalizing r with
  | zero => rfl
  | succ n ih =>
    rw [takeUpTo]
    cases hpop : r.queue.pop port with
    | none => rfl
    | some popped =>
      obtain ⟨p, q⟩ := popped
      have hlen := Queue.length_pop hpop
      simp only
      by_cases hf : p.isFinal = true
      · rw [if_pos hf]
        exact hlen.symm
      · rw [if_neg hf]
        have := ih { r with queue := q, awaited := r.awaited.set port (Serial.next p.header.fragSeq) }
        simp only [List.length_cons] at this ⊢
        omega

theorem throughFinal_ne_nil {ps : List Packet} (h : ps ≠ []) : throughFinal ps ≠ [] := by
  obtain ⟨p, ps, rfl⟩ := List.exists_cons_of_ne_nil h
  unfold throughFinal
  split <;> simp

theorem isComplete_eq_false (h : r.queue.packets port = []) : r.isComplete port = false := by
  rw [isComplete, h, completeFrom]

theorem pending_take {m : UInt8 × List UInt8} (h : r.take.1 = some m) :
    r.take.2.pending < r.pending := by
  unfold take at h ⊢
  split
  · rename_i ms hms
    simp [pending, hms]
  split
  · rename_i hf _ ha
    simp only [hf, ha] at h
    cases h
  rename_i hf _ port ports ha
  have ht := takes_takeThroughFinal { r with announced := ports } port
  have hfst := takeThroughFinal_fst { r with announced := ports } port
  have hlen := length_takeUpTo (r.queue.packets port).length { r with announced := ports } port
  change _ + (takeThroughFinal { r with announced := ports } port).1.length = _ at hlen
  change (takeThroughFinal { r with announced := ports } port).2.queue.length + _ = _ at hlen
  rw [hfst] at hlen
  have heq := ht.eq
  have hbehind := ht.packets
  show pending (announce (takeThroughFinal { r with announced := ports } port).2 port).2 < r.pending
  generalize (takeThroughFinal { r with announced := ports } port).2 = r₁ at *
  have hann : r₁.announced = ports := by rw [heq]
  have hfin : r₁.finished = r.finished := by rw [heq]
  simp only at hlen hbehind
  unfold announce
  by_cases hc : port ∉ r₁.announced ∧ r₁.isComplete port = true
  · -- another message is complete, so the queue had packets to take
    have hne : r.queue.packets port ≠ [] := by
      intro he
      rw [he] at hbehind
      rw [isComplete_eq_false hbehind] at hc
      exact absurd hc.2 (by simp)
    have := List.length_pos_of_ne_nil (throughFinal_ne_nil hne)
    rw [if_pos hc]
    simp only [pending, hann, hfin, ha, List.length_append, List.length_cons, List.length_nil]
    omega
  · rw [if_neg hc]
    simp only [pending, hann, hfin, ha, List.length_cons]
    omega

theorem take_drainUpTo (n : Nat) (r : Reassembly) (h : r.pending ≤ n) :
    (r.drainUpTo n).2.take.1 = none := by
  induction n generalizing r with
  | zero =>
    rcases ht : r.take with ⟨m, r'⟩
    cases m with
    | none => simp [drainUpTo, ht]
    | some m =>
      have := pending_take (r := r) (by rw [ht])
      omega
  | succ n ih =>
    unfold drainUpTo
    rcases ht : r.take with ⟨m, r'⟩
    cases m with
    | none =>
      simp only
      have he : r' = r := by
        unfold take at ht
        split at ht
        · cases ht
        split at ht
        · cases ht
          rfl
        · cases ht
      rw [he, ht]
    | some m =>
      have := pending_take (r := r) (by rw [ht])
      rw [ht] at this
      exact ih r' (by simp only at this; omega)

/-- Nothing is left to take for a consumer that has taken all messages. -/
theorem take_drain (r : Reassembly) : r.drain.2.take.1 = none := take_drainUpTo _ r (Nat.le_refl _)

theorem take_eq_none_iff : r.take.1 = none ↔ r.finished = [] ∧ r.announced = [] := by
  unfold take
  split
  · simp_all
  split <;> simp_all

/-! ## The bytes of the queue -/

/-- The queue has the capacity that the configuration says, and knows the bytes of its packets. -/
structure Sized (config : Config) (r : Reassembly) : Prop where
  config_eq : r.config = config
  capacity : r.queue.capacity = config.queueCapacity
  counted : r.queue.Counted

theorem sized_new (config : Config) : (new config).Sized config :=
  ⟨rfl, rfl, Queue.counted_empty _ _⟩

theorem Sized.takeUpTo (n : Nat) {r : Reassembly} (h : r.Sized config) (port : UInt8) :
    (r.takeUpTo n port).2.Sized config := by
  induction n generalizing r with
  | zero => exact h
  | succ n ih =>
    rw [Reassembly.takeUpTo]
    cases hpop : r.queue.pop port with
    | none => exact h
    | some popped =>
      obtain ⟨p, q⟩ := popped
      have h' : ({ r with
          queue := q, awaited := r.awaited.set port (Serial.next p.header.fragSeq) } :
          Reassembly).Sized config :=
        ⟨h.config_eq, (Queue.capacity_pop hpop).trans h.capacity, h.counted.pop hpop⟩
      simp only
      split
      · exact h'
      · exact ih h'

theorem Sized.announce (h : r.Sized config) (port : UInt8) : (r.announce port).2.Sized config := by
  obtain ⟨announced, he⟩ := announce_fields r port
  rw [he]
  exact ⟨h.config_eq, h.capacity, h.counted⟩

theorem Sized.queued (h : r.Sized config) (p : Packet) : (r.queued p).Sized config :=
  ⟨h.config_eq, h.capacity, h.counted.add p⟩

theorem Sized.push (h : r.Sized config) (p : Packet) : (r.push p).2.Sized config := by
  have hp := pushed r p
  generalize (r.push p).2 = r' at hp ⊢
  cases hp with
  | ignored => exact h
  | completed => exact ⟨h.config_eq, h.capacity, h.counted.add p⟩
  | waiting => exact h.queued p
  | skipped => exact ((h.queued p).takeUpTo _ p.port).announce p.port

theorem Sized.take (h : r.Sized config) : r.take.2.Sized config := by
  unfold Reassembly.take
  split
  · exact ⟨h.config_eq, h.capacity, h.counted⟩
  split
  · exact h
  rename_i port ports _
  have h' : ({ r with announced := ports } : Reassembly).Sized config :=
    ⟨h.config_eq, h.capacity, h.counted⟩
  exact (h'.takeUpTo _ port).announce port

/-- Not one packet more fits into the queue. -/
def Full (r : Reassembly) : Prop := r.queue.capacity < r.queue.used + Header.size

theorem Full.not_accepts (h : r.Full) (p : Packet) : ¬ r.Accepts p := by
  intro ha
  have := ha.fits
  unfold Full at h
  rw [Packet.wireLength] at this
  omega

/-- A queue that has room for less than two packets is full with one. -/
theorem Sized.full (h : r.Sized config) (hcap : config.queueCapacity < 2 * Header.size)
    (hne : r.queue.packets port ≠ []) : r.Full := by
  have hlen := List.length_pos_of_ne_nil hne
  have hsize := size_mul_length_le (r.queue.packets port)
  have hle := h.counted.wireLengths_le port
  have hmul := Nat.mul_le_mul_left Header.size hlen
  unfold Full
  rw [h.capacity]
  omega

/-! ## Between two datagrams -/

/-- No message of a connection is finished, and precisely the ports with a complete message are
announced. -/
structure Settled (config : Config) (r : Reassembly) : Prop where
  ordered : r.Ordered
  exact : r.Exact
  sized : r.Sized config
  finished : r.finished = []

/-- The consumer has taken everything. -/
structure Idle (config : Config) (r : Reassembly) : Prop extends Settled config r where
  announced : r.announced = []

theorem idle_new (config : Config) : (new config).Idle config where
  ordered := ordered_new config
  exact := exact_new config
  sized := sized_new config
  finished := rfl
  announced := rfl

theorem Idle.isComplete (h : r.Idle config) (port : UInt8) : r.isComplete port = false := by
  rw [← Bool.not_eq_true, ← h.exact.mem_iff, h.announced]
  exact List.not_mem_nil

theorem Settled.take (h : r.Settled config) : r.take.2.Settled config where
  ordered := h.ordered.take
  exact := h.exact.take
  sized := h.sized.take
  finished := by
    have hf := h.finished
    cases ha : r.announced with
    | nil =>
      have he : r.take.2 = r := by
        unfold Reassembly.take
        rw [hf, ha]
      rw [he, hf]
    | cons port ports =>
      obtain ⟨r', announced, ht, he⟩ := take_of_announced hf ha
      rw [he]
      show r'.finished = []
      rw [ht.eq]
      exact hf

theorem Idle.push (h : r.Idle config) (p : Packet) : (r.push p).2.Settled config where
  ordered := h.ordered.push p
  exact := h.exact.push h.ordered fun hd => by
    have := hd.2.1
    rw [h.isComplete] at this
    cases this
  sized := h.sized.push p
  finished := by
    obtain ⟨_, _, _, he⟩ := push_fields r p
    rw [he]
    exact h.finished

theorem Settled.drainUpTo (n : Nat) {r : Reassembly} (h : r.Settled config) :
    (r.drainUpTo n).2.Settled config := by
  induction n generalizing r with
  | zero => exact h
  | succ n ih =>
    have ht := h.take
    unfold Reassembly.drainUpTo
    rcases he : r.take with ⟨m, r'⟩
    rw [he] at ht
    cases m with
    | none => exact ht
    | some m => exact ih ht

theorem Settled.drain (h : r.Settled config) : r.drain.2.Idle config where
  toSettled := h.drainUpTo _
  announced := (take_eq_none_iff.1 (take_drain r)).2

/-- However a datagram is received, the state is idle again afterwards. -/
theorem Idle.receive (h : r.Idle config) (p : Packet) : (r.receive p).2.Idle config :=
  (h.push p).drain

theorem Idle.drain_eq (h : r.Idle config) : r.drain = ([], r) := by
  have ht : r.take = (none, r) := by
    unfold Reassembly.take
    rw [h.finished, h.announced]
  unfold Reassembly.drain
  cases r.pending with
  | zero => rfl
  | succ n => rw [Reassembly.drainUpTo, ht]

/-- A datagram that announces nothing completes no message. -/
theorem Idle.receive_eq (h : r.Idle config) (hp : (r.push p).2.announced = []) :
    r.receive p = ([], (r.push p).2) :=
  Idle.drain_eq ⟨h.push p, hp⟩

theorem Idle.receive_of_not_accepts (h : r.Idle config) (hp : ¬ r.Accepts p) :
    r.receive p = ([], r) := by
  have he := push_of_not_accepts hp
  rw [h.receive_eq (by rw [he, h.announced]), he]

theorem Idle.receive_of_stale (h : r.Idle config)
    (hs : Serial.precedes p.header.fragSeq (r.awaited.get p.port) = true) :
    (r.push p).1 = .ok () ∧ r.receive p = ([], r) := by
  have he := push_of_stale hs
  rw [h.receive_eq (by rw [he, h.announced]), he]
  exact ⟨rfl, rfl⟩

/-- A fragment waits if it neither completes a message nor is one too many. -/
theorem Idle.receive_of_waits (h : r.Idle config) (ha : r.Accepts p)
    (hc : (r.queued p).isComplete p.port = false)
    (hlen : ((r.queued p).queue.packets p.port).length < r.config.maxFragments) :
    (r.push p).1 = .ok () ∧ r.receive p = ([], r.queued p) := by
  have he : r.push p = (.ok (), r.queued p) := by
    rw [push_of_accepts ha, if_neg, if_neg (Nat.not_le.2 hlen)]
    rw [hc]
    exact fun hcomplete => Bool.false_ne_true hcomplete.2
  rw [h.receive_eq (by rw [he]; exact h.announced), he]
  exact ⟨rfl, rfl⟩

/-- Once the queue is full without a complete message, nothing is ever taken again. -/
theorem Idle.receiveAll_of_full (h : r.Idle config) (hfull : r.Full) (ps : List Packet) :
    r.receiveAll ps = [] := by
  induction ps with
  | nil => rfl
  | cons p ps ih =>
    rw [receiveAll, h.receive_of_not_accepts (hfull.not_accepts p), ih]
    rfl

end NarrowLink.Reassembly

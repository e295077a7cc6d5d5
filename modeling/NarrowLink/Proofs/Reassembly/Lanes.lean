import NarrowLink.Proofs.Reassembly.Assembling

/-!
# Ports do not interfere

The queue, the ports that are announced and the messages that are finished are shared by all ports, but
with a consumer that keeps up, what a port gets depends on its own packets only.  `Lane` is what the
reassembly of one port goes by: what it awaits, what is queued for it, and the message that its connection
has begun.  `Lane.Serves` says which messages come out of a lane for the packets of its port, and there is
only one answer (`Lane.Serves.unique`).  Whatever comes in for the other ports, as long as the queue has
room the messages of a port are those of its lane (`Idle.serves`).  So two runs that bring a port the same
packets give it the same messages (`forPort_serve_eq`).
-/

namespace NarrowLink.Reassembly

open Wire

/-- What comes in. -/
inductive Arrival where
  /-- A datagram from the link. -/
  | datagram (p : Packet)
  /-- A packet that a connection hands over. -/
  | handover (p : Packet)
deriving DecidableEq

namespace Arrival

/-- The port that a packet comes in for. -/
def port : Arrival → UInt8
  | .datagram p => p.port
  | .handover p => p.port

/-- What is asked of a reassembly when a packet comes in. -/
def call : Arrival → Call
  | .datagram p => .push p
  | .handover p => .append p

end Arrival

/-- The messages that are taken when packets come in and the consumer takes all complete messages after
each of them. -/
def serve : Reassembly → List Arrival → List (UInt8 × List UInt8)
  | _, [] => []
  | r, a :: as => (r.apply a.call).drain.1 ++ serve (r.apply a.call).drain.2 as

/-- The queue has room for what comes in. -/
def HasRoom (r : Reassembly) : Arrival → Prop
  | .datagram p => (r.push p).1 ≠ .error .queueFull
  | .handover _ => True

instance (r : Reassembly) : (a : Arrival) → Decidable (r.HasRoom a)
  | .datagram _ => inferInstanceAs (Decidable (_ ≠ _))
  | .handover _ => inferInstanceAs (Decidable True)

/-- None of the packets is refused. -/
def Admits : Reassembly → List Arrival → Prop
  | _, [] => True
  | r, a :: as => r.HasRoom a ∧ Admits (r.apply a.call).drain.2 as

instance decidableAdmits : (r : Reassembly) → (as : List Arrival) → Decidable (r.Admits as)
  | _, [] => inferInstanceAs (Decidable True)
  | r, a :: as =>
    have := decidableAdmits (r.apply a.call).drain.2 as
    inferInstanceAs (Decidable (_ ∧ _))

/-! ## Lanes -/

/-- What the reassembly of one port goes by. -/
structure Lane where
  /-- The number of the first fragment of the next message. -/
  awaited : UInt8
  /-- The fragments that are queued. -/
  packets : List Packet
  /-- The message that the connection has begun. -/
  begun : Option Assembly

namespace Lane

/-- A message is complete. -/
def isComplete (l : Lane) : Bool := completeFrom l.awaited l.packets

/-- The lane without the packets up to the first final one. -/
def cut (l : Lane) : Lane :=
  { l with
    awaited := awaitedAfter l.awaited (throughFinal l.packets)
    packets := behindFinal l.packets }

/-- The lane with one more fragment in its place. -/
def insert (l : Lane) (p : Packet) : Lane := { l with packets := Order.fragment.insert p l.packets }

/-- The fragment is before the one that is awaited, or is there already. -/
def isOld (l : Lane) (p : Packet) : Bool :=
  Serial.precedes p.header.fragSeq l.awaited ||
    l.packets.any fun o => o.header.fragSeq == p.header.fragSeq

/-- A datagram comes in while no message is complete. -/
def push (limit : Nat) (l : Lane) (p : Packet) : Lane :=
  if l.isOld p then l
  else if (l.insert p).isComplete then l.insert p
  else if limit ≤ (l.insert p).packets.length then (l.insert p).cut
  else l.insert p

/-- A connection hands over a packet. -/
def append (limit : Nat) (l : Lane) (p : Packet) : Lane :=
  { l with begun := (assemble limit l.begun p).2 }

/-- These are the messages that are taken from a lane, one after the other, until none is complete. -/
inductive Empties : Lane → List (List UInt8) → Lane → Prop
  | done {l : Lane} (h : l.isComplete = false) : Empties l [] l
  | next {l l' : Lane} {ms : List (List UInt8)} (h : l.isComplete = true)
      (hrest : Empties l.cut ms l') : Empties l (content (throughFinal l.packets) :: ms) l'

/-- These are the messages that come out of a lane for the packets of its port. -/
inductive Serves (limit : Nat) : Lane → List Arrival → List (List UInt8) → Prop
  | done {l : Lane} : Serves limit l [] []
  | datagram {l l' : Lane} {p : Packet} {as : List Arrival} {ms out : List (List UInt8)}
      (hempties : (l.push limit p).Empties ms l') (hrest : Serves limit l' as out) :
      Serves limit l (.datagram p :: as) (ms ++ out)
  | handover {l : Lane} {p : Packet} {as : List Arrival} {out : List (List UInt8)}
      (hrest : Serves limit (l.append limit p) as out) :
      Serves limit l (.handover p :: as) ((assemble limit l.begun p).1.toList ++ out)

theorem Empties.unique {l l₁ l₂ : Lane} {ms ms' : List (List UInt8)} (h : l.Empties ms l₁)
    (h' : l.Empties ms' l₂) : ms = ms' ∧ l₁ = l₂ := by
  induction h generalizing ms' l₂ with
  | done hc =>
    cases h' with
    | done => exact ⟨rfl, rfl⟩
    | next hc' => rw [hc] at hc'; cases hc'
  | next hc _ ih =>
    cases h' with
    | done hc' => rw [hc] at hc'; cases hc'
    | next _ hrest =>
      obtain ⟨rfl, rfl⟩ := ih hrest
      exact ⟨rfl, rfl⟩

theorem Serves.unique {limit : Nat} {l : Lane} {as : List Arrival} {out out' : List (List UInt8)}
    (h : l.Serves limit as out) (h' : l.Serves limit as out') : out = out' := by
  induction h generalizing out' with
  | done =>
    cases h'
    rfl
  | datagram hempties _ ih =>
    cases h' with
    | datagram hempties' hrest' =>
      obtain ⟨rfl, rfl⟩ := hempties.unique hempties'
      rw [ih hrest']
  | handover _ ih =>
    cases h' with
    | handover hrest' => rw [ih hrest']

end Lane

/-- The lane of a port. -/
def lane (r : Reassembly) (port : UInt8) : Lane :=
  ⟨r.awaited.get port, r.queue.packets port, r.begun.get port⟩

variable {config : Config} {r : Reassembly} {port : UInt8} {p : Packet}

/-! ## The consumer empties a lane -/

theorem lane_announce (r : Reassembly) (port other : UInt8) :
    (r.announce other).2.lane port = r.lane port := by
  obtain ⟨announced, he⟩ := announce_fields r other
  rw [he]
  rfl

theorem begun_skipGap (r : Reassembly) (port : UInt8) : (r.skipGap port).begun = r.begun := by
  have h := (takes_takeThroughFinal r port).eq
  rw [skipGap, h]

theorem lane_skipGap (r : Reassembly) (port : UInt8) :
    (r.skipGap port).lane port = (r.lane port).cut := by
  have ht := takes_takeThroughFinal r port
  rw [lane, begun_skipGap, skipGap, ht.awaited, ht.packets]
  rfl

theorem lane_skipGap_of_ne {other : UInt8} (h : port ≠ other) :
    (r.skipGap other).lane port = r.lane port := by
  have ht := takes_takeThroughFinal r other
  rw [lane, begun_skipGap, skipGap, ht.awaited_other port h, ht.packets_other port h]
  rfl

/-- The consumer takes from a port what is complete in its lane, and leaves the other lanes alone. -/
theorem Settled.lane_take (h : r.Settled config) {m : UInt8 × List UInt8} (hm : r.take.1 = some m) :
    (m.1 = port → (r.lane port).isComplete = true ∧
        m.2 = content (throughFinal (r.lane port).packets) ∧
        r.take.2.lane port = (r.lane port).cut) ∧
      (m.1 ≠ port → r.take.2.lane port = r.lane port) := by
  have hf := h.finished
  cases ha : r.announced with
  | nil =>
    rw [take_eq_none_iff.2 ⟨hf, ha⟩] at hm
    cases hm
  | cons first ports =>
    have htake := take_eq hf ha
    rw [htake] at hm ⊢
    cases hm
    rw [lane_announce]
    refine ⟨?_, fun hne => lane_skipGap_of_ne (Ne.symm hne)⟩
    rintro rfl
    exact ⟨(h.exact.mem_iff first).1 (ha ▸ List.mem_cons_self), rfl, lane_skipGap _ first⟩

theorem forPort_cons (m : UInt8 × List UInt8) (ms : List (UInt8 × List UInt8)) :
    forPort port (m :: ms) = if m.1 = port then m.2 :: forPort port ms else forPort port ms := by
  by_cases h : m.1 = port <;> simp [forPort, h]

theorem Settled.empties_of_take (h : r.Settled config) (hnone : r.take.1 = none) (port : UInt8) :
    (r.lane port).Empties [] (r.lane port) := by
  refine .done ?_
  show r.isComplete port = false
  rw [← Bool.not_eq_true, ← h.exact.mem_iff, (take_eq_none_iff.1 hnone).2]
  exact List.not_mem_nil

theorem drainUpTo_of_none (h : r.take.1 = none) (n : Nat) : r.drainUpTo n = ([], r) := by
  cases n with
  | zero => rfl
  | succ n => rw [drainUpTo, take_of_none h]

/-- For each port, the messages that the consumer takes are those of its lane. -/
theorem Settled.empties (n : Nat) {r : Reassembly} (h : r.Settled config) (hn : r.pending ≤ n)
    (port : UInt8) :
    (r.lane port).Empties (forPort port (r.drainUpTo n).1) ((r.drainUpTo n).2.lane port) := by
  induction n generalizing r with
  | zero => exact h.empties_of_take (take_drainUpTo 0 r hn) port
  | succ n ih =>
    cases hm : r.take.1 with
    | none =>
      rw [drainUpTo_of_none hm]
      exact h.empties_of_take hm port
    | some m =>
      have hless := pending_take hm
      have hrest := ih h.take (by omega)
      obtain ⟨hown, hother⟩ := h.lane_take hm
      have ht : r.take = (some m, r.take.2) := Prod.ext hm rfl
      rw [Reassembly.drainUpTo, ht]
      show (r.lane port).Empties (forPort port (m :: (r.take.2.drainUpTo n).1)) _
      rw [forPort_cons]
      by_cases hport : m.1 = port
      · obtain ⟨hcomplete, hcontent, hcut⟩ := hown hport
        rw [hcut] at hrest
        rw [if_pos hport, hcontent]
        exact .next hcomplete hrest
      · rw [hother hport] at hrest
        rw [if_neg hport]
        exact hrest

theorem Settled.empties_drain (h : r.Settled config) (port : UInt8) :
    (r.lane port).Empties (forPort port r.drain.1) (r.drain.2.lane port) :=
  h.empties r.pending (Nat.le_refl _) port

/-! ## A datagram comes in -/

theorem lane_queued (r : Reassembly) (p : Packet) :
    (r.queued p).lane p.port = { r.lane p.port with
      packets := r.queue.order.insert p (r.queue.packets p.port) } := by
  rw [lane, queued, Queue.packets_add_self]
  rfl

/-- A datagram is refused only because the queue is full. -/
theorem push_fst (r : Reassembly) (p : Packet) :
    (r.push p).1 = .ok () ∨ (r.push p).1 = .error .queueFull := by
  unfold push
  simp only
  split
  · exact .inl rfl
  split
  · exact .inl rfl
  cases hpush : r.queue.push p with
  | error e => exact .inr (by rw [Queue.push_eq_error hpush])
  | ok q =>
    left
    simp only
    split
    · rfl
    · split <;> rfl

/-- A datagram for which there is room is queued unless it is old. -/
theorem accepts_iff_of_hasRoom (h : r.HasRoom (.datagram p)) :
    r.Accepts p ↔ (r.lane p.port).isOld p = false := by
  have hok := (push_fst r p).resolve_right h
  simp only [Lane.isOld, Bool.or_eq_false_iff, List.any_eq_false, beq_iff_eq]
  exact ⟨fun ha => ⟨ha.current, ha.fresh⟩, fun ⟨hcur, hfresh⟩ => accepts_of_push_ok hok hcur hfresh⟩

/-- While no message is complete, a datagram for which there is room changes the lane of its port
as the lane says. -/
theorem Idle.lane_push (h : r.Idle config) (hroom : r.HasRoom (.datagram p)) :
    (r.push p).2.lane p.port = (r.lane p.port).push config.maxFragments p := by
  by_cases ha : r.Accepts p
  · have hn : p.port ∉ r.announced := by
      rw [h.announced]
      exact List.not_mem_nil
    have hqueued : (r.queued p).lane p.port = (r.lane p.port).insert p := by
      rw [lane_queued, h.ordered.order]
      rfl
    rw [Lane.push, (accepts_iff_of_hasRoom hroom).1 ha, if_neg Bool.false_ne_true, ← hqueued,
      push_of_accepts ha]
    show _ = if (r.queued p).isComplete p.port = true then _ else _
    by_cases hc : (r.queued p).isComplete p.port = true
    · rw [if_pos ⟨hn, hc⟩, if_pos hc]
      rfl
    rw [if_neg fun hboth => hc hboth.2, if_neg hc, h.sized.config_eq]
    show _ = if config.maxFragments ≤ ((r.queued p).queue.packets p.port).length then _ else _
    by_cases hlen : config.maxFragments ≤ ((r.queued p).queue.packets p.port).length
    · rw [if_pos hlen, if_pos hlen, lane_announce, lane_skipGap]
    · rw [if_neg hlen, if_neg hlen]
  · have hold := mt (accepts_iff_of_hasRoom hroom).2 ha
    rw [push_of_not_accepts ha, Lane.push, if_pos (Bool.not_eq_false _ ▸ hold)]

theorem lane_push_of_ne (h : port ≠ p.port) : (r.push p).2.lane port = r.lane port := by
  have hs := SameAt.push (r := r) h
  obtain ⟨_, _, _, he⟩ := push_fields r p
  have hbegun : (r.push p).2.begun = r.begun := by rw [he]
  rw [lane, hs.packets, hs.awaited, hbegun]
  rfl

/-! ## A connection hands over a packet -/

/-- The state in which the packet has continued, ended or begun its port's message. -/
def continued (r : Reassembly) (p : Packet) : Reassembly :=
  { r with begun := r.begun.set p.port (assemble r.config.maxFragments (r.begun.get p.port) p).2 }

theorem lane_continued (r : Reassembly) (p : Packet) :
    (r.continued p).lane p.port = (r.lane p.port).append r.config.maxFragments p := by
  rw [lane, continued, ByteMap.get_set_self]
  rfl

theorem lane_continued_of_ne (h : p.port ≠ port) : (r.continued p).lane port = r.lane port := by
  rw [lane, continued, ByteMap.get_set_of_ne _ _ h]
  rfl

theorem Idle.continued (h : r.Idle config) (p : Packet) : (r.continued p).Idle config where
  ordered := ⟨h.ordered.order, h.ordered.ascending⟩
  exact := ⟨h.exact.nodup, h.exact.mem_iff⟩
  sized := ⟨h.sized.config_eq, h.sized.capacity, h.sized.counted⟩
  finished := h.finished
  announced := h.announced

/-- While nothing is announced, the messages of connections are all there is to take. -/
theorem Idle.drainUpTo_of_finished (h : r.Idle config) {ms : List (UInt8 × List UInt8)} {n : Nat}
    (hn : ms.length ≤ n) : ({ r with finished := ms } : Reassembly).drainUpTo n = (ms, r) := by
  induction ms generalizing n with
  | nil =>
    have he : ({ r with finished := [] } : Reassembly) = r := by rw [← h.finished]
    rw [he, drainUpTo_of_none (take_eq_none_iff.2 ⟨h.finished, h.announced⟩)]
  | cons m ms ih =>
    obtain ⟨n, rfl⟩ := Nat.exists_eq_add_of_le' (Nat.le_trans (Nat.le_add_left 1 _) hn)
    show (m :: (({ r with finished := ms } : Reassembly).drainUpTo n).1,
      (({ r with finished := ms } : Reassembly).drainUpTo n).2) = _
    rw [ih (Nat.le_of_succ_le_succ hn)]

/-- The message that a packet ends is taken right away. -/
theorem Idle.drain_append (h : r.Idle config) (p : Packet) :
    (r.append p).drain = (r.ended (.append p), r.continued p) := by
  have happend : r.append p = { r.continued p with finished := r.ended (.append p) } := by
    rw [append_eq, h.finished]
    rfl
  rw [happend]
  refine (h.continued p).drainUpTo_of_finished ?_
  rw [pending, Nat.add_assoc]
  exact Nat.le_add_right _ _

theorem Idle.drain_apply (h : r.Idle config) (a : Arrival) :
    (r.apply a.call).drain.2.Idle config := by
  cases a with
  | datagram p => exact (h.push p).drain
  | handover p =>
    show (r.append p).drain.2.Idle config
    rw [h.drain_append]
    exact h.continued p

/-! ## Runs -/

/-- Another port's datagram does not show. -/
theorem Idle.drain_push_of_ne (h : r.Idle config) (hport : port ≠ p.port) :
    forPort port (r.push p).2.drain.1 = [] ∧ (r.push p).2.drain.2.lane port = r.lane port := by
  have hempties := (h.push p).empties_drain port
  rw [lane_push_of_ne hport] at hempties
  exact hempties.unique (.done (h.isComplete port))

/-- With a consumer that keeps up and room in the queue, the messages of a port are those of its lane. -/
theorem Idle.serves {as : List Arrival} (h : r.Idle config) (hadm : r.Admits as) (port : UInt8) :
    (r.lane port).Serves config.maxFragments (as.filter fun a => a.port == port)
      (forPort port (r.serve as)) := by
  induction as generalizing r with
  | nil => exact .done
  | cons a as ih =>
    obtain ⟨hroom, hadm⟩ := hadm
    have hrest := ih (h.drain_apply a) hadm
    rw [serve, forPort_append]
    cases a with
    | datagram p =>
      by_cases hport : p.port = port
      · subst hport
        have hempties := (h.push p).empties_drain p.port
        rw [h.lane_push hroom] at hempties
        rw [List.filter_cons_of_pos (by simp [Arrival.port])]
        exact .datagram hempties hrest
      · obtain ⟨hnone, hlane⟩ := h.drain_push_of_ne (Ne.symm hport)
        rw [List.filter_cons_of_neg (by simpa [Arrival.port] using hport)]
        show (r.lane port).Serves _ _ (forPort port (r.push p).2.drain.1 ++ _)
        rw [hnone, ← hlane]
        exact hrest
    | handover p =>
      have hdrain : (r.apply (Arrival.handover p).call).drain = _ := h.drain_append p
      rw [hdrain] at hrest ⊢
      rw [forPort_ended_append, h.sized.config_eq]
      by_cases hport : p.port = port
      · subst hport
        rw [lane_continued, h.sized.config_eq] at hrest
        rw [if_pos rfl, List.filter_cons_of_pos (by simp [Arrival.port])]
        exact .handover hrest
      · rw [lane_continued_of_ne hport] at hrest
        rw [if_neg hport, List.filter_cons_of_neg (by simpa [Arrival.port] using hport)]
        exact hrest

/-- If the same packets come in for a port in two runs, and none is refused in either, the port gets the
same messages, whatever comes in for the others. -/
theorem forPort_serve_eq (config : Config) (port : UInt8) (as bs : List Arrival)
    (has : (new config).Admits as) (hbs : (new config).Admits bs)
    (hsame : (as.filter fun a => a.port == port) = bs.filter fun a => a.port == port) :
    forPort port ((new config).serve as) = forPort port ((new config).serve bs) := by
  have h := (idle_new config).serves has port
  rw [hsame] at h
  exact h.unique ((idle_new config).serves hbs port)

/-- A packet of a datagram for port 8. -/
def elsewhere (number : UInt8) (more : Bool) (payload : List UInt8) : Packet :=
  ⟨{ kind := .datagram, dst := 8, src := 1, fragSeq := number, more := more }, payload, 0⟩

/-- A message of two fragments that arrive in the wrong order, and one of a connection. -/
def quiet : List Arrival :=
  [.datagram (fragment 1 false [2]), .handover (carried 7 5 true [8]),
    .datagram (fragment 0 true [1]), .handover (carried 7 6 false [9])]

/-- The same, while a fragment for another port is lost and a connection on it breaks off. -/
def crowded : List Arrival :=
  [.datagram (elsewhere 1 true [20]), .datagram (fragment 1 false [2]),
    .handover (carried 8 5 true [30]), .handover (carried 7 5 true [8]),
    .datagram (elsewhere 2 false [21]), .datagram (elsewhere 3 false [22]),
    .datagram (fragment 0 true [1]), .handover (carried 8 9 false [31]),
    .handover (carried 7 6 false [9])]

theorem forPort_serve_crowded :
    (new { maxFragments := 2 }).Admits quiet ∧ (new { maxFragments := 2 }).Admits crowded ∧
      (quiet.filter fun a => a.port == 7) = (crowded.filter fun a => a.port == 7) ∧
      forPort 7 ((new { maxFragments := 2 }).serve quiet) =
        forPort 7 ((new { maxFragments := 2 }).serve crowded) ∧
      (new { maxFragments := 2 }).serve crowded =
        [(8, [22]), (7, [1, 2]), (8, [31]), (7, [8, 9])] := by
  have hquiet : (new { maxFragments := 2 }).Admits quiet := by decide +kernel
  have hcrowded : (new { maxFragments := 2 }).Admits crowded := by decide +kernel
  exact ⟨hquiet, hcrowded, by decide +kernel,
    forPort_serve_eq { maxFragments := 2 } 7 quiet crowded hquiet hcrowded (by decide +kernel),
    by decide +kernel⟩

end NarrowLink.Reassembly

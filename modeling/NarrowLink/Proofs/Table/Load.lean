import NarrowLink.Proofs.Exchange.Steps
import NarrowLink.Proofs.Queue.Total

/-!
# What a packet can bring about

A packet that arrives may make the session that it reaches queue other packets, which may do the same at
the other end.  `Flags.weight` bounds how many deliveries a packet can bring about in this way, its own
included.  The load of a session (`Session.load`) is the weight of what it has queued and of the replies
that its owner has yet to be told of.  A packet that a session takes adds less to its load than the
packet weighs (`load_receive`), in whatever state the session is.
-/

namespace NarrowLink

open Wire

/-- How many deliveries a packet with these flags can bring about, its own included. -/
def Wire.Flags.weight (f : Flags) : Nat :=
  if f.rst then 1
  else if f = .opening then 6
  else if f.data || (f.syn && f.ack) then 5
  else if f.fin && !f.ack then 3
  else 2

/-- How many deliveries the packet can bring about, its own included. -/
def Wire.Packet.weight (p : Packet) : Nat := p.header.flags.weight

theorem Wire.Packet.weight_pos (p : Packet) : 0 < p.weight := by
  unfold Packet.weight Flags.weight
  grind

theorem Wire.Packet.weight_le (p : Packet) : p.weight ≤ 6 := by
  unfold Packet.weight Flags.weight
  grind

namespace Connection

/-- The weight of the packet that an owner is told to send. -/
def Event.weight : Event → Nat
  | .rejected _ reply => reply.weight
  | _ => 0

namespace Session

/-- The weight of what a session has queued, and of the replies that it has yet to tell its owner of. -/
def load (s : Session) : Nat := s.outbound.total Packet.weight + (s.events.map Event.weight).sum

@[simp] theorem load_new (config : Config) (role : Role) (localPort remotePort channel : UInt8)
    (options : Options) : (new config role localPort remotePort channel options).load = 0 := by
  simp [load, new]

variable (s : Session) (p : Packet) (now : Nat)

theorem load_raise {e : Event} (he : e.weight = 0) : (s.raise e).load = s.load := by
  unfold raise
  split
  · rfl
  · simp [load, he]

@[simp] theorem load_moveTo (state : State) : (s.moveTo state).load = s.load := by
  unfold moveTo
  split
  · rfl
  · exact load_raise _ rfl

theorem load_takeEvents :
    s.load = s.takeEvents.2.load + (s.takeEvents.1.map Event.weight).sum := by
  have := ((Event.stateFirst_perm s.events).map Event.weight).sum_eq
  simp only [load, takeEvents, List.map_nil, List.sum_nil]
  omega

theorem load_post : (s.post p).load ≤ s.load + p.weight := by
  unfold post
  split
  · rename_i q hq
    rw [load_raise _ rfl]
    have := (Queue.push_eq_ok_iff.1 hq).2
    subst this
    simp only [load, Queue.total_add]
    omega
  · omega

theorem load_postAck : s.postAck.load ≤ s.load + 4 := by
  have hack : (s.post (s.packet .acknowledging s.nextSeq [])).load ≤ s.load + 2 := s.load_post _
  unfold postAck postGapReport
  split
  · rename_i report hreport
    have hweight : report.weight = 2 := by
      unfold gapReport at hreport
      split at hreport <;> cases hreport
      rfl
    have hsack := (s.post (s.packet .acknowledging s.nextSeq [])).load_post report
    omega
  · omega

theorem load_discard : s.discard.load ≤ s.load := by
  simp [load, discard]

@[simp] theorem load_acknowledge (ack : UInt8) : (s.acknowledge ack).load = s.load := by
  unfold acknowledge
  split <;> rfl

theorem load_postNumbered {flags : Flags} {s' : Session}
    (h : s.postNumbered flags now = (.ok (), s')) : s'.load ≤ s.load + flags.weight := by
  unfold postNumbered at h
  simp only at h
  split at h
  · split at h
    · rename_i q hq
      cases h
      rw [load_raise _ rfl]
      have := (Queue.push_eq_ok_iff.1 hq).2
      subst this
      simp only [load, Queue.total_add]
      show s.outbound.total Packet.weight + flags.weight + _ ≤ _
      omega
    · cases h
  · cases h

theorem load_absorb (q : Queue) (relSeq : UInt8) :
    (s.absorb q relSeq).load = ({ s with inbound := q } : Session).load := by
  unfold absorb
  simp only
  split
  · exact load_raise _ rfl
  · rfl

/-! ## Packets that reach a session -/

theorem load_receiveData : (s.receiveData p).2.load ≤ s.load + 4 := by
  unfold receiveData
  simp only
  split
  · split
    · exact s.load_postAck
    · exact Nat.le_add_right _ _
  split
  · exact s.load_postAck
  split
  · exact Nat.le_add_right _ _
  · rename_i q _
    have hack := (s.absorb q p.header.relSeq).load_postAck
    rw [load_absorb] at hack
    exact hack

theorem load_receiveClosing (hfin : p.header.flags.fin) (hrst : p.header.flags.rst = false) :
    (s.receiveClosing p).2.load < s.load + p.weight := by
  have hpos := p.weight_pos
  have hkept : s.load < s.load + p.weight := by omega
  unfold receiveClosing
  split
  · split
    · rw [load_moveTo]
      exact Nat.lt_of_le_of_lt s.load_discard hkept
    · exact hkept
  rename_i hack
  split
  · exact hkept
  · -- the answer is an acknowledgement, so it weighs less than the request
    rw [load_moveTo]
    have hpost := ({ s with expected := Serial.next s.expected } : Session).load_post
      (({ s with expected := Serial.next s.expected } : Session).packet .parting s.nextSeq [])
    have hweight : 3 ≤ p.weight := by
      unfold Packet.weight Flags.weight
      grind
    refine Nat.lt_of_le_of_lt hpost ?_
    show s.load + 2 < _
    omega

theorem load_receiveOpen (hrst : p.header.flags.rst = false) :
    (s.receiveOpen p).2.load < s.load + p.weight := by
  have hpos := p.weight_pos
  have hkept : s.load < s.load + p.weight := by omega
  unfold receiveOpen
  simp only
  split
  · rename_i hsyn
    split
    · rename_i hrepeated
      have hweight : p.weight = 5 := by
        unfold Packet.weight Flags.weight
        grind [Flags.opening]
      have := s.load_postAck
      simp only
      omega
    · exact hkept
  have hacked : (if p.header.flags.ack = true then s.acknowledge p.header.ack else s).load = s.load := by
    split
    · exact s.load_acknowledge _
    · rfl
  rw [← hacked] at hkept ⊢
  split
  · split <;> exact hkept
  split
  · rename_i hfin
    exact load_receiveClosing _ p hfin hrst
  split
  · rename_i hdata
    have hweight : 5 ≤ p.weight := by
      unfold Packet.weight Flags.weight
      grind
    have := load_receiveData (if p.header.flags.ack = true then s.acknowledge p.header.ack else s) p
    omega
  · exact hkept

theorem load_receiveConnecting (hrst : p.header.flags.rst = false) :
    (s.receiveConnecting p).2.load < s.load + p.weight := by
  have hpos := p.weight_pos
  have hkept : s.load < s.load + p.weight := by omega
  unfold receiveConnecting
  simp only
  split
  · split
    · exact hkept
    rename_i hwelcome
    split
    · exact hkept
    · have hweight : p.weight = 5 := by
        rw [Packet.weight, not_not.1 hwelcome]
        rfl
      have hack := (s.welcomed p).load_postAck
      have hsame : (s.welcomed p).load = s.load := by
        unfold welcomed
        rw [load_moveTo]
        exact s.load_acknowledge _
      rw [hsame] at hack
      show (s.welcomed p).postAck.load < _
      omega
  · split
    · rename_i hopening
      split
      · exact hkept
      · have hweight : p.weight = 6 := by
          rw [Packet.weight, hopening]
          rfl
        refine Nat.lt_of_le_of_lt (s.load_post _) ?_
        show s.load + 5 < _
        omega
    split
    · exact hkept
    split
    · have := (s.moveTo .connected).load_receiveOpen p hrst
      rwa [load_moveTo] at this
    · rwa [load_acknowledge, load_moveTo]

/-- A packet makes a session queue less than the packet weighs. -/
theorem load_receive : (s.receive p).2.load < s.load + p.weight := by
  have hpos := p.weight_pos
  unfold receive
  split
  · have := s.load_discard
    simp only [load_moveTo]
    omega
  rename_i hrst
  rw [Bool.not_eq_true] at hrst
  cases hstate : s.state with
  | connecting => exact s.load_receiveConnecting p hrst
  | connected => exact s.load_receiveOpen p hrst
  | disconnecting => exact s.load_receiveOpen p hrst
  | resetting => exact Nat.lt_add_of_pos_right hpos
  | disconnected => exact Nat.lt_add_of_pos_right hpos

/-- The answer to a request for a connection weighs less than the request. -/
theorem load_accept {s' : Session} (h : s.accept p now = (.ok (), s')) : s'.load ≤ s.load + 5 := by
  unfold accept at h
  split at h
  · cases h
  split at h
  · rename_i s'' hpost
    cases h
    rw [load_moveTo]
    exact load_postNumbered _ now hpost
  · cases h

/-- What is handed to the transmitter no longer burdens the session. -/
theorem load_fetchOutbound :
    (s.fetchOutbound.1.map Packet.weight).sum + s.fetchOutbound.2.load = s.load := by
  have hupto : ∀ n (s : Session), ((s.fetchOutboundUpTo n).1.map Packet.weight).sum +
      (s.fetchOutboundUpTo n).2.load = s.load := by
    intro n
    induction n with
    | zero => simp [fetchOutboundUpTo]
    | succ n ih =>
      intro s
      unfold fetchOutboundUpTo
      split
      · simp
      rename_i q hpop
      have htotal := Queue.total_popNext (f := Packet.weight) hpop
      simp only
      split
      · rw [load_moveTo]
        simp only [load, List.map_cons, List.map_nil, List.sum_cons, List.sum_nil] at *
        omega
      · have hrest := ih { s with outbound := q }
        simp only [load, List.map_cons, List.sum_cons] at *
        omega
  exact hupto _ s

end Session

end Connection

end NarrowLink

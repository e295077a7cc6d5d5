import NarrowLink.Proofs.Engine.Serving

/-!
# Trying again

A full queue is a reason to try again later.  Once nothing is in the way of a message (`Unhindered`), its
fate depends on its length and the capacity of one queue only, and on nothing that came before
(`sendMessage_of_unhindered`).  The limit of its length is one of fragments and not of bytes in queues, so
every message that is not too long is taken in the end exactly if the queues have room for as many full
frames as a message may have fragments (`takesMessages_iff`).
-/

namespace NarrowLink

open Wire

/-- A longest message fits into a queue without other packets: into the transmit queue if it goes out as
datagrams, and else into the outbound queue of a connection. -/
def Config.HoldsMessages (c : Config) : Prop :=
  c.maxFragments * c.mtu ≤ c.queueCapacity ∧
    min c.maxFragments c.window * c.mtu ≤ c.connectionQueueCapacity

instance (c : Config) : Decidable c.HoldsMessages := inferInstanceAs (Decidable (_ ∧ _))

/-- The longest message of a connection has some fragment. -/
theorem Config.Valid.limit_pos {c : Config} (h : c.Valid) : 0 < min c.maxFragments c.window :=
  Nat.lt_min.2 ⟨h.maxFragments_pos, h.window_pos⟩

namespace Queue

variable {q : Queue}

theorem Consistent.isEmpty_iff (h : q.Consistent) : q.isEmpty = true ↔ q.stored = [] := by
  rw [isEmpty, List.isEmpty_iff, stored_eq_nil_iff, List.eq_nil_iff_forall_not_mem]
  exact forall_congr' fun port => (h.mem_ready_iff port).not.trans not_not

theorem Consistent.isEmpty_of_used (h : q.Consistent) (hused : q.used = 0) : q.isEmpty = true := by
  rw [h.isEmpty_iff, ← List.length_eq_zero_iff]
  have hall := size_mul_length_le q.stored
  rw [← h.used_eq, hused] at hall
  exact (Nat.mul_eq_zero.1 (Nat.le_zero.1 hall)).resolve_left (by decide)

end Queue

namespace Engine

open Connection (Session Table)

variable {config : Config} {e : Engine} {port : UInt8}

/-- Nothing is queued for transmission, and the connection of the port, if it has one, is open and has
nothing to send, nothing in flight and no gap to report. -/
structure Unhindered (e : Engine) (port : UInt8) : Prop where
  queue : e.desk.transmitter.queue.isEmpty = true
  state : ∀ s, e.connections.session? port = some s → s.state = .connected
  outbound : ∀ s, e.connections.session? port = some s → s.outbound.isEmpty = true
  unacknowledged : ∀ s, e.connections.session? port = some s → s.unacknowledged = 0
  gapReport : ∀ s, e.connections.session? port = some s → s.gapReport = none

/-- Whatever has happened, a message that is not too long is taken if nothing is in its way. -/
def TakesMessages (config : Config) : Prop :=
  ∀ (acts : List Act) (now : Nat) (port : UInt8) (b : Binding) (message : List UInt8),
    let e := (fresh config).after acts
    e.ready port = .ok b → e.Unhindered port →
      message.length ≤ e.messageLimit (e.connections.session? port).isSome →
      (e.sendMessage now port message).1 = .ok ()

/-! ## The bytes of a message -/

theorem wireLengths_eq (ps : List Packet) :
    wireLengths ps = (ps.flatMap Packet.payload).length + Header.size * ps.length := by
  induction ps with
  | nil => rfl
  | cons p ps ih =>
    rw [wireLengths_cons, ih, List.flatMap_cons, List.length_append, List.length_cons, Packet.wireLength,
      Nat.mul_succ]
    omega

/-- The bytes that the fragments of a message take in a queue. -/
def bytesQueued (config : Config) (message : List UInt8) : Nat :=
  message.length + Header.size * (pieces config.maxPayload message).length

theorem wireLengths_fragments (config : Config) (src dst : UInt8) (kind : Kind) (channel : UInt8)
    (message : List UInt8) :
    wireLengths (fragments config src dst kind channel message) = bytesQueued config message := by
  rw [wireLengths_eq, flatMap_payload_fragments, fragments, length_fragmentsOf]
  rfl

/-- A full frame has a header and as many bytes as a fragment holds. -/
theorem mul_mtu (hvalid : config.Valid) (k : Nat) :
    k * config.mtu = k * config.maxPayload + Header.size * k := by
  have hmtu : config.mtu = config.maxPayload + Header.size :=
    (Nat.sub_add_cancel (Nat.le_of_lt hvalid.mtu_gt)).symm
  rw [hmtu, Nat.mul_add, Nat.mul_comm k Header.size]

/-- A message that can be cut into `k` fragments takes no more than `k` frames. -/
theorem bytesQueued_le (hvalid : config.Valid) {k : Nat} (hk : 0 < k) {message : List UInt8}
    (hlength : message.length ≤ k * config.maxPayload) :
    bytesQueued config message ≤ k * config.mtu := by
  have hcount : (pieces config.maxPayload message).length ≤ k :=
    length_piecesUpTo_le hk (by rwa [Nat.mul_comm]) _
  rw [mul_mtu hvalid]
  exact Nat.add_le_add hlength (Nat.mul_le_mul_left Header.size hcount)

/-- The pieces are long enough for all bytes. -/
theorem length_le_piecesUpTo {size n : Nat} {bytes : List UInt8} (hsize : 0 < size)
    (hn : bytes.length ≤ n) :
    bytes.length ≤ (piecesUpTo size n bytes).length * size := by
  induction n generalizing bytes with
  | zero => exact Nat.le_trans hn (Nat.zero_le _)
  | succ n ih =>
    unfold piecesUpTo
    split
    · rename_i hshort
      rwa [List.length_singleton, Nat.one_mul]
    · rename_i hlong
      have hrest : (bytes.drop size).length ≤ n := by
        rw [List.length_drop]
        omega
      have hpieces := ih hrest
      rw [List.length_drop] at hpieces
      rw [List.length_cons, Nat.succ_mul]
      omega

/-- A message of `k` full payloads takes `k` frames. -/
theorem le_bytesQueued (hvalid : config.Valid) {k : Nat} {message : List UInt8}
    (hlength : message.length = k * config.maxPayload) : k * config.mtu ≤ bytesQueued config message := by
  have hpos : 0 < config.maxPayload := Nat.sub_pos_of_lt hvalid.mtu_gt
  have hcount : k ≤ (pieces config.maxPayload message).length := by
    refine Nat.le_of_mul_le_mul_right ?_ hpos
    rw [← hlength]
    exact length_le_piecesUpTo hpos (Nat.le_refl _)
  rw [mul_mtu hvalid]
  exact Nat.add_le_add hlength.ge (Nat.mul_le_mul_left Header.size hcount)

/-! ## What is known of every run -/

/-- The transmit queue has the capacity that the configuration says, and counts its bytes. -/
structure Sized (config : Config) (x : Transmitter) : Prop where
  capacity : x.queue.capacity = config.queueCapacity
  consistent : x.queue.Consistent

variable {x x' : Transmitter} {ps : List Packet}

theorem Sized.submit (h : Sized config x) (hok : x.submitAll ps = (.ok (), x')) : Sized config x' := by
  unfold Transmitter.submitAll Queue.pushAll at hok
  split at hok
  · rename_i q hq
    split at hq
    · cases hok
      cases hq
      exact ⟨(Queue.capacity_foldl_add _ _).trans h.capacity, h.consistent.foldl_add ps⟩
    · cases hq
  · cases hok

theorem running_sized (config : Config) (Out : List Packet → Prop) :
    Running config Out (fun _ x _ _ => Sized config x) fun _ => True where
  accepting _ := {
    submits := fun h _ hok => h.submit hok
    appends := fun _ _ => trivial }
  datagrams h _ hok := h.submit hok
  carries _ _ h _ _ := h
  works h ha _ := ⟨(Transmitter.turns_of_idle _ ha).capacity.trans h.capacity,
    (Transmitter.turns_of_idle _ ha).consistent h.consistent⟩
  calls _ _ := trivial
  switches _ _ _ := trivial

/-- What a run leaves as it is: the limits, and that the queues count their bytes. -/
theorem known_after (config : Config) (acts : List Act) :
    let e := (fresh config).after acts
    e.config = config ∧ Sized config e.desk.transmitter ∧
      ∀ port s, e.connections.session? port = some s → s.Formed config := by
  have hkept := (running_sized config _).keeps_after
    ((yielding_connection config).supplying (awaits_formed config))
    ⟨rfl, Queue.consistent_of_empty⟩ trivial acts
  rw [Chronicle.engine_after] at hkept
  refine ⟨hkept.config, hkept.owner.traffic, fun port s hs => ?_⟩
  obtain ⟨entry, hentry, rfl⟩ := Option.map_eq_some_iff.1 hs
  exact (hkept.sessions port entry hentry).1.1

/-! ## The answer -/

/-- The answer if it is a matter of room. -/
def answerIf (fits : Prop) [Decidable fits] : Except Error Unit :=
  if fits then .ok () else .error .queueFull

theorem submit_answer (d : Desk) (ps : List Packet) : (d.submit ps).1 =
    answerIf (d.transmitter.queue.used + wireLengths ps ≤ d.transmitter.queue.capacity) := by
  unfold answerIf
  split
  · rename_i hfits
    rw [submit_of_fits hfits]
  · rename_i hfits
    rw [submit_of_not_fits hfits]

theorem submitDatagram_answer (d : Desk) (ps : List Packet) : (d.submitDatagram ps).1 =
    answerIf (d.transmitter.queue.used + wireLengths ps ≤ d.transmitter.queue.capacity) := by
  have hlength : wireLengths (Desk.numberDatagram d.counters ps).1 = wireLengths ps := by
    rw [Numbering.numberDatagram_eq]
    unfold wireLengths
    rw [Numbering.datagram.map_number fun _ _ => rfl]
  have hcounted := submit_answer { d with counters := (Desk.numberDatagram d.counters ps).2 }
    (Desk.numberDatagram d.counters ps).1
  rw [hlength] at hcounted
  rw [← hcounted]
  unfold Desk.submitDatagram
  simp only
  split <;> rename_i hsubmit <;> rw [hsubmit]

/-- A connection takes a message that it has room for, and refuses any other one. -/
theorem sendThroughConnection_answer {s : Session} (hs : e.connections.session? port = some s) (now : Nat)
    (ps : List Packet) :
    (s.HasRoom ps → (e.sendThroughConnection now port ps).1 = .ok ()) ∧
      (¬ s.HasRoom ps → (e.sendThroughConnection now port ps).1 = .error s.refusal) := by
  obtain ⟨entry, hentry, rfl⟩ := Option.map_eq_some_iff.1 hs
  let number := fun stamped : List Packet =>
    ((Desk.numberConnection e.desk.counters stamped).1, (Desk.numberConnection e.desk.counters stamped).1)
  have hsend : (e.connections.send attending now port ps number).1 =
      (entry.session.send ps now number).1 := by
    unfold Table.send Table.orElse Table.onSession
    rw [hentry]
    rfl
  have hanswer : (e.sendThroughConnection now port ps).1 =
      (passage attending e.desk.counters now port ps e.connections).1.map fun _ => () := by
    rw [sendThroughConnection_eq]
    split <;> rename_i hpassage <;> rw [hpassage] <;> rfl
  have hpassage : (passage attending e.desk.counters now port ps e.connections).1 =
      (entry.session.send ps now number).1 := by
    unfold passage Table.sendWaiting
    simp only
    rw [hs]
    cases e.connections.config.sendTimeout with
    | none => exact hsend
    | some =>
      simp only
      cases hadmits : entry.session.admits ps with
      | error =>
        unfold Session.send
        rw [hadmits]
      | ok => exact hsend
  rw [hanswer, hpassage]
  constructor
  · intro hroom
    rw [Session.send_of_hasRoom now (numbersFragments e.desk.counters) hroom]
    rfl
  · intro hroom
    unfold Session.send
    rw [Session.admits_of_not_hasRoom hroom]
    rfl

/-- An open connection that has nothing to send has room for a message that its window allows, if its
queue can hold the fragments. -/
theorem hasRoom_fragments (hvalid : config.Valid) {s : Session} (hs : s.Formed config)
    (hst : s.state = .connected) (houtbound : s.outbound.isEmpty = true) (hflights : s.unacknowledged = 0)
    (hreport : s.gapReport = none) {message : List UInt8}
    (hlength : message.length ≤ min config.maxFragments config.window * config.maxPayload)
    (src dst channel : UInt8) :
    s.HasRoom (fragments config src dst .connection channel message) ↔
      bytesQueued config message ≤ config.connectionQueueCapacity := by
  have hbytes : s.outbound.used + wireLengths s.gapReport.toList +
      wireLengths (fragments config src dst .connection channel message) = bytesQueued config message := by
    rw [hs.consistent.used_eq_zero (hs.consistent.isEmpty_iff.1 houtbound), hreport, wireLengths_fragments]
    exact Nat.zero_add _
  rw [← hs.capacity, ← hbytes]
  refine ⟨fun h => h.outbound, fun h => ⟨hst, ?_, h⟩⟩
  rw [hflights, Nat.zero_add, hs.config, fragments, length_fragmentsOf]
  refine Nat.le_trans (length_piecesUpTo_le hvalid.limit_pos ?_ _) (Nat.min_le_right _ _)
  rwa [Nat.mul_comm]

/-- The queue that a message goes through, and the bytes it has room for. -/
def capacityFor (config : Config) (connected : Bool) : Nat :=
  if connected then config.connectionQueueCapacity else config.queueCapacity

/-- If nothing is in the way of a message that is not too long, then it is taken if its fragments fit into
an empty queue, and refused because the queue is full otherwise. -/
theorem sendMessage_of_unhindered (hvalid : config.Valid) (acts : List Act) {b : Binding} {now : Nat}
    {message : List UInt8} (he : (fresh config).after acts = e) (hready : e.ready port = .ok b)
    (h : e.Unhindered port)
    (hlength : message.length ≤ e.messageLimit (e.connections.session? port).isSome) :
    (e.sendMessage now port message).1 = answerIf
      (bytesQueued config message ≤ capacityFor config (e.connections.session? port).isSome) := by
  obtain ⟨hconfig, hsized, hformed⟩ := he ▸ known_after config acts
  have hroute : e.route port message = .ok ((e.connections.session? port).isSome,
      fragments config port b.remotePort
        (if (e.connections.session? port).isSome then .connection else .datagram) b.channel message) := by
    unfold route
    rw [hready]
    simp only
    rw [if_neg (Nat.not_lt.2 hlength), hconfig]
  rw [sendMessage_eq, hroute]
  unfold messageLimit at hlength
  rw [hconfig] at hlength
  cases hs : e.connections.session? port with
  | none =>
    simp only [Option.isSome_none]
    have hused := hsized.consistent.used_eq_zero (hsized.consistent.isEmpty_iff.1 h.queue)
    rw [submitDatagram_answer, hused, hsized.capacity, wireLengths_fragments, Nat.zero_add]
    rfl
  | some s =>
    simp only [Option.isSome_some, if_true]
    rw [hs] at hlength
    simp only [Option.isSome_some, if_true] at hlength
    have hroom := hasRoom_fragments hvalid (hformed port s hs) (h.state s hs) (h.outbound s hs)
      (h.unacknowledged s hs) (h.gapReport s hs) hlength port b.remotePort b.channel
    have hanswer := sendThroughConnection_answer hs now
      (fragments config port b.remotePort .connection b.channel message)
    unfold answerIf
    by_cases hfits : bytesQueued config message ≤ config.connectionQueueCapacity
    · exact (hanswer.1 (hroom.2 hfits)).trans (if_pos hfits).symm
    · have hrefused := hanswer.2 (hfits ∘ hroom.1)
      rw [Session.refusal, if_pos (h.state s hs)] at hrefused
      exact hrefused.trans (if_neg hfits).symm

/-- A message that does not fit into an empty queue is never taken. -/
theorem not_taken_of_lt (acts : List Act) (now : Nat) {message : List UInt8}
    (he : (fresh config).after acts = e)
    (h : capacityFor config (e.connections.session? port).isSome < bytesQueued config message) :
    (e.sendMessage now port message).1 ≠ .ok () := by
  obtain ⟨hconfig, hsized, hformed⟩ := he ▸ known_after config acts
  intro htaken
  rw [sendMessage_eq] at htaken
  cases hroute : e.route port message with
  | error =>
    rw [hroute] at htaken
    cases htaken
  | ok route =>
    obtain ⟨connected, ps⟩ := route
    rw [hroute] at htaken
    obtain ⟨hconnected, -, b, rfl⟩ := route_eq_ok hroute
    rw [← hconnected] at h
    rw [hconfig] at htaken
    cases connected with
    | false =>
      simp only [submitDatagram_answer, answerIf, wireLengths_fragments, hsized.capacity] at htaken
      split at htaken
      · rename_i hfits
        exact absurd (Nat.le_trans (Nat.le_add_left _ _) hfits) (Nat.not_le.2 h)
      · cases htaken
    | true =>
      obtain ⟨s, hs⟩ := Option.isSome_iff_exists.1 hconnected.symm
      have hanswer := sendThroughConnection_answer hs now
        (fragments config port b.remotePort .connection b.channel message)
      by_cases hroom : s.HasRoom (fragments config port b.remotePort .connection b.channel message)
      · have hfits := hroom.outbound
        rw [wireLengths_fragments, (hformed port s hs).capacity] at hfits
        exact absurd (Nat.le_trans (Nat.le_add_left _ _) hfits) (Nat.not_le.2 h)
      · cases (hanswer.2 hroom).symm.trans htaken

/-! ## All messages -/

theorem ready_of_onDuty (h : e.desk.OnDuty config) : e.ready 1 = .ok ⟨0, 2, bothOptions⟩ := by
  unfold Engine.ready Desk.binding
  rw [h.active, h.ready.linkUp, h.bound]
  rfl

/-- A message that is taken whatever has happened fits into an empty queue. -/
theorem TakesMessages.bytesQueued_le (h : TakesMessages config) (hvalid : config.Valid)
    (hreached : Reached config e) (hduty : e.desk.OnDuty config) (hidle : e.Unhindered 1)
    {message : List UInt8}
    (hlength : message.length ≤ e.messageLimit (e.connections.session? 1).isSome) :
    bytesQueued config message ≤ capacityFor config (e.connections.session? 1).isSome := by
  obtain ⟨acts, rfl⟩ := hreached
  have htaken := h acts 0 1 _ message (ready_of_onDuty hduty) hidle hlength
  rw [sendMessage_of_unhindered hvalid acts rfl (ready_of_onDuty hduty) hidle hlength, answerIf] at htaken
  split at htaken
  · assumption
  · cases htaken

/-- The longest message of a port with or without a connection. -/
theorem TakesMessages.le_capacityFor (h : TakesMessages config) (hvalid : config.Valid)
    (hreached : Reached config e) (hduty : e.desk.OnDuty config) (hidle : e.Unhindered 1) {k : Nat}
    (hlimit : e.messageLimit (e.connections.session? 1).isSome = k * config.maxPayload) :
    k * config.mtu ≤ capacityFor config (e.connections.session? 1).isSome := by
  let longest : List UInt8 := List.replicate (k * config.maxPayload) 0
  have hlength : longest.length = k * config.maxPayload := List.length_replicate
  exact Nat.le_trans (le_bytesQueued hvalid hlength)
    (h.bytesQueued_le hvalid hreached hduty hidle (Nat.le_of_eq (hlength.trans hlimit.symm)))

/-- The longest message of a port without a connection. -/
theorem TakesMessages.le_queueCapacity (h : TakesMessages config) (hvalid : config.Valid) :
    config.maxFragments * config.mtu ≤ config.queueCapacity := by
  obtain ⟨e, hreached, hduty, hconfig, hentries, hused⟩ := listening_reached config
  have hnone : e.connections.session? 1 = none := by
    unfold Table.session?
    rw [hentries, ByteMap.get_const]
    rfl
  have hidle : e.Unhindered 1 := by
    refine ⟨hduty.ready.consistent.isEmpty_of_used hused, ?_, ?_, ?_, ?_⟩ <;> intro s hs <;>
      rw [hnone] at hs <;> cases hs
  have hlimit : e.messageLimit (e.connections.session? 1).isSome =
      config.maxFragments * config.maxPayload := by
    rw [hnone, messageLimit, show e.config = config from hconfig]
    rfl
  have hle := h.le_capacityFor hvalid hreached hduty hidle hlimit
  rwa [hnone] at hle

/-- The longest message of a connection. -/
theorem TakesMessages.le_connectionQueueCapacity (h : TakesMessages config) (hvalid : config.Valid) :
    min config.maxFragments config.window * config.mtu ≤ config.connectionQueueCapacity := by
  obtain ⟨e, s, hserving, hlinked, huntouched⟩ := serving_linked hvalid
  obtain ⟨e, hserving, hdrained⟩ := hserving.drains
  have hsession := hserving.session?
  have hknown := hserving.known
  have hidle : e.Unhindered 1 := by
    refine ⟨hserving.desk.ready.consistent.isEmpty_iff.2 hdrained, ?_, ?_, ?_, ?_⟩ <;>
      intro s' hs' <;> obtain rfl := Option.some.inj (hsession.symm.trans hs')
    · exact hlinked.state
    · exact hknown.2.1.consistent.isEmpty_iff.2 huntouched.outbound
    · exact List.length_eq_zero_iff.2 huntouched.flights
    · unfold Session.gapReport
      rw [huntouched.hasGap]
      rfl
  have hlimit : e.messageLimit (e.connections.session? 1).isSome =
      min config.maxFragments config.window * config.maxPayload := by
    rw [hsession, messageLimit, show e.config = config from hknown.1]
    rfl
  have hle := h.le_capacityFor hvalid hserving.reached hserving.desk hidle hlimit
  rwa [hsession] at hle

/-- The queues have room for every message that is not too long. -/
theorem bytesQueued_le_capacityFor (hvalid : config.Valid) (h : config.HoldsMessages) {connected : Bool}
    (hconfig : e.config = config) {message : List UInt8}
    (hlength : message.length ≤ e.messageLimit connected) :
    bytesQueued config message ≤ capacityFor config connected := by
  unfold messageLimit at hlength
  rw [hconfig] at hlength
  cases connected with
  | true => exact Nat.le_trans (bytesQueued_le hvalid hvalid.limit_pos hlength) h.2
  | false => exact Nat.le_trans (bytesQueued_le hvalid hvalid.maxFragments_pos hlength) h.1

/-- Every message that is not too long is taken in the end exactly if the queues have room for the longest
ones. -/
theorem takesMessages_iff (hvalid : config.Valid) : TakesMessages config ↔ config.HoldsMessages := by
  refine ⟨fun h => ⟨h.le_queueCapacity hvalid, h.le_connectionQueueCapacity hvalid⟩, ?_⟩
  intro h acts now port b message e hready hidle hlength
  rw [sendMessage_of_unhindered hvalid acts rfl hready hidle hlength]
  exact if_pos (bytesQueued_le_capacityFor hvalid h (known_after config acts).1 hlength)

/-- The default limits have room for the longest messages. -/
theorem takesMessages_default : TakesMessages {} :=
  (takesMessages_iff ((Config.validate_eq_ok_iff _).1 (by decide))).2 (by decide)

/-- Queues that hold one frame of a single byte. -/
def singleFrame : Config where
  mtu := 13
  queueCapacity := 13
  connectionQueueCapacity := 13

/-- A message of two fragments is not too long, and is refused because the queue is full although nothing
is in its way.  No run ever gets it taken. -/
theorem not_takesMessages_of_singleFrame : singleFrame.Valid ∧ ¬ TakesMessages singleFrame ∧
    (((fresh singleFrame).after [.start, .bind 1 ⟨0, 2, {}⟩]).sendMessage 0 1 [97, 98]).1 =
      .error .queueFull ∧
    ∀ acts now port, (((fresh singleFrame).after acts).sendMessage now port [97, 98]).1 ≠ .ok () := by
  refine ⟨(Config.validate_eq_ok_iff _).1 (by decide), fun h => ?_, by decide,
    fun acts now port => not_taken_of_lt acts now rfl ?_⟩
  · have htaken := h [.start, .bind 1 ⟨0, 2, {}⟩] 0 1 ⟨0, 2, {}⟩ [97, 98] (by decide) (by
      refine ⟨by decide, ?_, ?_, ?_, ?_⟩ <;> intro s hs <;> cases hs) (by decide)
    revert htaken
    decide
  · unfold capacityFor
    split <;> decide

end Engine

end NarrowLink

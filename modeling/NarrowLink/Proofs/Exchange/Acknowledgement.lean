import NarrowLink.Proofs.Exchange.Showing
import NarrowLink.Proofs.Session.Beyond

/-!
# Nothing is acknowledged that did not arrive

When a packet that arrives makes an end forget packets in flight, the peer has taken them
(`Exchange.AcknowledgesTaken`), as long as the numbers in flight span less than half the number space
(`acknowledgesTaken_after`).  The window bounds this span: twice if the peer reports gaps, because the
packets that it reports make room for others, and once if it does not.  So all acknowledgements are true
exactly if the window is at most 64, or at most 127 and neither end reports gaps (`trueFor_iff`): beyond
it the packet that closes, which needs no room in the window, is half the number space ahead of an
acknowledgement, and seems to lie before it.  The run in which this happens is followed step by step for
all these windows at once (`not_acknowledgesTaken_of_overrun`).
-/

namespace NarrowLink.Connection

open Wire

/-- If the next packet on the way to an end arrives, and the end is not disconnected by it, the peer has
taken all data, and the packet that closes, if they are not in flight any more. -/
def Exchange.AcknowledgesTaken (e : Exchange) (x : Role) (hands : Bool) (now : Nat) : Prop :=
  let before := (e.ends x).session
  let after := ((e.apply (.deliver x hands now)).ends x).session
  after.state ≠ .disconnected →
    ∀ f ∈ before.inFlight.flights,
      (f.packet.header.flags.data = true ∨ f.packet.header.flags.fin = true) →
      f.packet ∉ after.inFlight.flights.map Flight.packet →
      -- the number of the packet is the only recent one that the packet was given
      ∃ n, (e.ends x).sent[n]? = some f.packet ∧ (e.ends x).sent.length ≤ n + 256 ∧
        (e.ends x.peer).took n = true

variable {t : Terms} {x : Role} {e : Exchange} {gs : Role → Ledger} {ls : Role → List Parcel}

/-- What is not in flight any more is known to have been taken. -/
theorem Sound.took_of_not_flying {gx gy : Ledger} {out back : List Parcel}
    (h : Sound t x gx gy out back) (ha : gx.alive = true) {n : Nat} (hn : n < gx.sent.length)
    (hf : n ∉ gx.flying) : gy.intake.took n := by
  refine h.flow.latest _ h.flow.known_past n ?_
  by_cases hlow : n < gx.known.reached
  · exact .inl hlow
  · exact .inr (h.flow.known_early ha n (by omega) hn hf)

theorem Accounts.acknowledgesTaken (h : Accounts t e gs ls) (hvalid : t.config.Valid) (x : Role)
    (hands : Bool) (now : Nat) : e.AcknowledgesTaken x hands now := by
  intro hopen f hf _ hgone
  have hlink := h.link x
  cases hls : ls x with
  | nil =>
    rw [hls, List.map_nil] at hlink
    simp only [Exchange.apply, hlink] at hgone
    exact absurd (List.mem_map_of_mem hf) hgone
  | cons p rest =>
    rw [hls, List.map_cons] at hlink
    obtain ⟨q, hafter⟩ := Exchange.session_deliver hlink hands now
    rw [hafter] at hopen hgone
    have hs := h.stands x
    have ha : (gs x).alive = true := by
      by_contra hd
      rw [hs.phase.dead (Bool.eq_false_iff.2 hd)] at hf
      cases hf
    obtain ⟨g', hbecomes, -, halive, -⟩ := h.arrive hls hvalid.window_pos hvalid.window_le now
    obtain ⟨hsent, halive'⟩ := halive ha
    have ha' := halive'.resolve_right hopen
    obtain ⟨n, hn, hnf⟩ : ∃ n ∈ (gs x).flying, (gs x).sent[n]? = some f.packet := by
      have : some f.packet ∈ (gs x).flying.map fun n => (gs x).sent[n]? := by
        rw [← hs.books.flights ha]
        exact List.mem_map_of_mem hf
      exact List.mem_map.1 this
    obtain ⟨hlow, hlt⟩ := hs.sound.tidy.flying_mem n hn
    have hnot : n ∉ g'.flying := by
      intro hn'
      refine hgone ?_
      have : some f.packet ∈ (e.reacted x p.packet now).inFlight.flights.map
          fun f => some f.packet := by
        rw [hbecomes.stands.books.flights ha', ← hnf, ← hsent]
        exact List.mem_map_of_mem hn'
      obtain ⟨f', hf', he⟩ := List.mem_map.1 this
      exact List.mem_map.2 ⟨f', hf', Option.some.inj he⟩
    have htook := hbecomes.stands.sound.took_of_not_flying ha' (hsent ▸ hlt) hnot
    have hlen := hs.sound.tidy.length_le
    have hkept := (h.kept x).sent
    refine ⟨n, by rw [hkept]; exact hnf, by rw [hkept]; omega, (h.kept x.peer).took n htook⟩

/-- Along every run, an end that forgets a packet in flight is right to do so. -/
theorem acknowledgesTaken_after (hvalid : t.config.Valid) (htame : ∀ x, t.Tame x) (acts : List Act)
    (x : Role) (hands : Bool) (now : Nat) :
    (t.start.after acts).AcknowledgesTaken x hands now := by
  obtain ⟨gs, ls, h⟩ := (accounts_start t).after hvalid htame acts
  exact h.acknowledgesTaken hvalid x hands now

/-! ## Windows that are too large -/

/-- An end gets half the number space ahead of its first message, which is lost.  What its window does
not admit at once has been reported by the peer, whose acknowledgements are lost but for the last ones:
a report, and a message that still expects the first message of the end. -/
def overrun (x : Role) (window : Nat) : List Act :=
  let reported := 128 - window
  handshake ++
    [.send x (List.replicate (reported + 1) message) [] 0, .take x, .lose x.peer] ++
    List.replicate reported (.deliver x.peer true 0) ++ [.take x.peer] ++
    List.replicate (2 * reported) (.lose x) ++
    [.send x.peer [message] [] 0, .take x.peer] ++
    (if reported = 0 then [] else [.deliver x true 0]) ++
    [.send x (List.replicate (window - 1) message) [] 0, .close x 0]

/-- The first message of the end is lost.  Its peer takes `m` more of them, but all that it says to them is
lost as well. -/
def fillPeer (x : Role) (m : Nat) : List Act :=
  [.send x (List.replicate (m + 1) message) [] 0, .take x, .lose x.peer] ++
    List.replicate m (.deliver x.peer true 0) ++ [.take x.peer] ++ List.replicate (2 * m) (.lose x)

/-- The peer sends a message.  Only the report in front of it arrives, if there is one. -/
def hearReport (x : Role) (m : Nat) : List Act :=
  [.send x.peer [message] [] 0, .take x.peer] ++ if m = 0 then [] else [.deliver x true 0]

/-- The end fills its window again, and closes. -/
def fillWindow (x : Role) (window : Nat) : List Act :=
  [.send x (List.replicate (window - 1) message) [] 0, .close x 0]

theorem overrun_eq (x : Role) (window : Nat) : overrun x window =
    handshake ++ (fillPeer x (128 - window) ++ (hearReport x (128 - window) ++ fillWindow x window)) := by
  simp [overrun, fillPeer, hearReport, fillWindow]

/-- The peer takes what is on the way to it, beyond the number that it expects. -/
theorem Session.TookBeyond.delivers {y : Role} {u v : Session} {k : Nat} {queue : List Packet}
    (hv : u.TookBeyond k queue v) (hu : u.Ready t y)
    (hselective : (t.options y).selectiveAck = true) (hwindow : t.config.window ≤ 128)
    {sent ps link : List Packet} {r : Nat} {port : UInt8} (h : e.Shows y v sent r (ps ++ link))
    (hps : Stamped port 1 (Serial.forward 1 (k + 1)) ps) (hk : k + ps.length < t.config.window)
    (hinbound : v.inbound.used + wireLengths ps ≤ v.inbound.capacity)
    (houtbound : v.outbound.used + ps.length * Session.answerSize ≤ v.outbound.capacity) :
    ∃ queue' v', queue'.length = queue.length + 2 * ps.length ∧ u.TookBeyond (k + ps.length) queue' v' ∧
      v'.outbound.used ≤ v.outbound.used + ps.length * Session.answerSize ∧
      v'.outbound.capacity = v.outbound.capacity ∧
      (e.after (List.replicate ps.length (.deliver y true 0))).Shows y v' sent r link := by
  induction ps generalizing e v k queue with
  | nil => exact ⟨queue, v, rfl, hv, Nat.le_add_right _ _, rfl, h⟩
  | cons p ps ih =>
    obtain ⟨-, hflags, hrel, hack, hrest⟩ := hps
    rw [List.length_cons] at hk houtbound ⊢
    rw [wireLengths_cons] at hinbound
    rw [Nat.succ_mul] at houtbound
    obtain ⟨a, b, v', hreceive, hv', hused, hcapacity, hused', hcapacity'⟩ := hv.receive hu.state
      (by rw [hu.options, hselective]) hu.flights hflags (by rw [hack, hu.oldest])
      (by rw [hrel, hu.expected]) (by rw [hu.config]; omega) (by rw [hu.config]; exact hwindow) (by omega)
      (by omega)
    have hreceived : (v.receive p).2 = v' := congrArg Prod.snd hreceive
    obtain ⟨i, hi, hi', h₁⟩ := h.deliver 0 (by rw [hflags]; rfl) hreceived
      (hv'.expected.trans hv.expected.symm)
      (fun c hc => (hv'.early_iff c).2 (by have := (hv.early_iff c).1 hc; omega))
      (by rw [hv'.inFlight, hv.inFlight])
    obtain ⟨queue', v'', hlen, hv'', hle, hsame, h₂⟩ := ih (hv'.with_inbound i) h₁ hrest (by omega)
      (by
        show i.used + _ ≤ i.capacity
        omega)
      (by
        show v'.outbound.used + _ ≤ v'.outbound.capacity
        omega)
    refine ⟨queue', v'', ?_, ?_, ?_, hsame.trans hcapacity', h₂⟩
    · rw [hlen, List.length_append]
      show queue.length + 2 + _ = _
      omega
    · rwa [Nat.add_right_comm, Nat.add_assoc] at hv''
    · refine Nat.le_trans hle ?_
      show v'.outbound.used + _ ≤ _
      rw [Nat.succ_mul]
      omega

theorem Exchange.Shows.delivers_peer {s : Session} {sent link : List Packet} {r : Nat}
    (h : e.Shows x s sent r link) (n : Nat) :
    (e.after (List.replicate n (.deliver x.peer true 0))).Shows x s sent r link :=
  h.repeated (fun _ h => h.deliver_peer 0 x.peer_peer.symm) n

section Overrun

variable {s u v : Session} {sent sent' : List Packet} {r r' m : Nat}

/-- The peer has taken all messages of the end but the first, and nothing is on the way. -/
theorem fillPeer_shows (hs : s.Ready t x) (hu : u.Ready t x.peer) (h : e.Shows x s sent r [])
    (h' : e.Shows x.peer u sent' r' [])
    (hselective : 0 < m → (t.options x.peer).selectiveAck = true) (hm : m < t.config.window)
    (hwindow : t.config.window ≤ 128)
    (hroom : 128 * Session.answerSize ≤ t.config.connectionQueueCapacity) :
    ∃ qs q events v, qs.length = m + 1 ∧ Stamped s.remotePort 1 1 qs ∧ q.Holds s.remotePort [] ∧
      q.used ≤ (m + 1) * Header.size ∧ q.capacity = t.config.connectionQueueCapacity ∧
      u.TookBeyond m [] v ∧ v.outbound.used ≤ m * Session.answerSize ∧
      v.outbound.capacity = t.config.connectionQueueCapacity ∧
      (e.after (fillPeer x m)).Shows x {
        s with
        nextSeq := Serial.forward 1 (m + 1)
        inFlight := ⟨qs.map (⟨·, 0, 0⟩)⟩
        outbound := q
        events := events } (sent ++ qs) r [] ∧
      (e.after (fillPeer x m)).Shows x.peer v sent' r' [] := by
  have hanswer : Session.answerSize = 153 := rfl
  have hsize : Header.size = 12 := rfl
  obtain ⟨hused, hcapacity, hused', hcapacity'⟩ := hu.room
  obtain ⟨qs, q, events, hlen, hstamped, hwire, hholds, hqused, hqcapacity, h₁, h₁'⟩ :=
    hs.sends h h' (m + 1) hm (by rw [hsize]; omega)
  obtain ⟨p, ps, rfl⟩ : ∃ p ps, qs = p :: ps := by
    cases qs with
    | nil => cases hlen
    | cons p ps => exact ⟨p, ps, rfl⟩
  have hlen' : ps.length = m := Nat.succ.inj hlen
  rw [wireLengths_cons, hsize] at hwire
  have h₂ := h₁.lose_peer
  have h₂' := Exchange.Shows.lose h₁'
  rw [← List.append_nil ps] at h₂'
  -- without a window to spare nothing else arrives, and the peer need not report gaps
  obtain ⟨queue, v, hqueue, hv, hvused, hvcapacity, h₃'⟩ : ∃ queue v, queue.length = 2 * m ∧
      u.TookBeyond m queue v ∧ v.outbound.used ≤ m * Session.answerSize ∧
      v.outbound.capacity = t.config.connectionQueueCapacity ∧
      (((e.after [.send x (List.replicate (m + 1) message) [] 0, .take x]).apply (.lose x.peer)).after
        (List.replicate m (.deliver x.peer true 0))).Shows x.peer v sent' r' [] := by
    have hzero := Session.tookBeyond_zero hu.early hu.hasGap hu.outbound
    rcases Nat.eq_zero_or_pos m with rfl | hpos
    · obtain rfl := List.eq_nil_of_length_eq_zero hlen'
      exact ⟨[], u, rfl, hzero, Nat.le_of_eq (hused.trans (Nat.zero_mul _).symm), hcapacity, h₂'⟩
    · obtain ⟨queue, v, hqueue, hv, hvused, hvcapacity, h₃'⟩ :=
        hzero.delivers hu (hselective hpos) hwindow h₂' hstamped.2.2.2.2
          (by omega) (by omega) (by rw [hlen', hanswer]; omega)
      rw [hlen'] at hqueue hv hvused h₃'
      rw [Nat.zero_add] at hv
      refine ⟨queue, v, ?_, hv, ?_, hvcapacity.trans hcapacity, h₃'⟩
      · rw [hqueue, List.length_nil, Nat.zero_add]
      · rwa [hused, Nat.zero_add] at hvused
  have h₃ := h₂.delivers_peer m
  obtain ⟨q', hholds', hused'', hcapacity'', h₄', h₄⟩ :=
    h₃'.takes (by rwa [x.peer_peer]) (hv.state.trans hu.state) hv.outbound
  rw [x.peer_peer, List.nil_append, ← List.append_nil queue] at h₄
  have h₅ := h₄.loses
  have h₅' := h₄'.loses_peer queue.length
  rw [x.peer_peer] at h₅'
  have hrun : e.after (fillPeer x m) =
      ((((e.after [.send x (List.replicate (m + 1) message) [] 0, .take x]).apply (.lose x.peer)).after
        (List.replicate m (.deliver x.peer true 0))).apply (.take x.peer)).after
          (List.replicate queue.length (.lose x)) := by
    unfold fillPeer
    rw [hqueue, Exchange.after_append, Exchange.after_append, Exchange.after_append]
    rfl
  rw [hrun]
  exact ⟨p :: ps, q, events, _, hlen, hstamped, hholds, hqused, hqcapacity, hv.taken hholds',
    Nat.le_trans hused'' hvused, hcapacity''.trans hvcapacity, h₅, h₅'⟩

/-- A message of the peer is on the way, and what the peer has taken is not in flight any more. -/
theorem hearReport_shows (h : e.Shows x s sent r []) (h' : e.Shows x.peer v sent' r' [])
    (hu : u.Ready t x.peer) (hv : u.TookBeyond m [] v)
    (hselective : 0 < m → (t.options x.peer).selectiveAck = true) (hm : m < t.config.window)
    (hwindow : t.config.window ≤ 128) (hroom : v.outbound.used + Session.answerSize ≤ v.outbound.capacity)
    (hst : s.state = .connected) (holdest : s.oldestUnacked = 1)
    (hspan : ∀ f ∈ s.inFlight.flights, Serial.distance 1 f.packet.header.relSeq < 128) :
    ∃ i p v' sent'', p.header.flags = .carrying ∧ p.header.ack = 1 ∧ v'.early = v.early ∧
      (e.after (hearReport x m)).Shows x {
        s with
        inbound := i
        inFlight := ⟨s.inFlight.flights.filter fun f => !v.early.get f.packet.header.relSeq⟩ }
        sent r [p] ∧
      (e.after (hearReport x m)).Shows x.peer v' sent'' r' [] := by
  have hstate : v.state = .connected := hv.state.trans hu.state
  have hle := hv.gapReport_le hu.state (by rw [hu.config]; exact hm) (by rw [hu.config]; exact hwindow)
  obtain ⟨qs, q, events, hlen, hstamped, -, hholds, -, -, h₁'⟩ := h'.sends 1 hstate
    (by
      rw [hv.inFlight, hv.config, hu.config, InFlight.length, hu.flights]
      exact Nat.le_trans (Nat.succ_le_succ (Nat.zero_le m)) hm)
    (by rw [hv.remotePort]; exact hv.outbound)
    (by
      unfold Session.answerSize at hroom
      omega)
  obtain ⟨p, rfl⟩ := List.length_eq_one_iff.1 hlen
  obtain ⟨-, hflags, -, hack⟩ := hstamped.getElem? (i := 0) rfl
  rw [hv.expected, hu.expected] at hack
  obtain ⟨q', -, -, -, h₂', h₂⟩ :=
    h₁'.takes (by rw [x.peer_peer]; exact h.send_peer _ [] 0 x.peer_peer.symm) hstate hholds
  rw [x.peer_peer, List.nil_append] at h₂
  have hrun : e.after (hearReport x m) = ((e.apply (.send x.peer (List.replicate 1 message) [] 0)).apply
      (.take x.peer)).after (if m = 0 then [] else [.deliver x true 0]) := by
    unfold hearReport
    rw [Exchange.after_append]
    rfl
  rw [hrun]
  rcases Nat.eq_zero_or_pos m with rfl | hpos
  · have hnone : ∀ b, v.early.get b = false := fun b => Bool.eq_false_iff.2 fun hb => by
      have := (hv.early_iff b).1 hb
      omega
    have hkept : s.inFlight.flights.filter (fun f => !v.early.get f.packet.header.relSeq) =
        s.inFlight.flights := List.filter_eq_self.2 fun f _ => by rw [hnone]; rfl
    rw [hv.gapReport_zero, Option.toList_none, List.nil_append] at h₂
    rw [if_pos rfl]
    refine ⟨s.inbound, p, _, _, hflags, hack, ?_, ?_, h₂'⟩
    · rfl
    · rw [hkept]
      exact h₂
  · have hreport := hv.gapReport (by rw [hu.options]; exact hselective hpos) hpos
    have hlength := (hv.reportsExactly hu.state (by rw [hu.config]; exact hm)
      (by rw [hu.config]; exact hwindow)).length_le
    rw [hreport, Option.toList_some, List.singleton_append] at h₂
    have htold := receive_report_eq (s := s)
      (p := v.packet .reporting v.nextSeq (Sack.encode v.gapRanges)) hst
      ((hv.expected.trans hu.expected).trans holdest.symm) rfl rfl (by omega) (by rwa [holdest])
    rw [hv.acknowledgeRanges hu.state (by rw [hu.config]; exact hm) (by rw [hu.config]; exact hwindow)]
      at htold
    obtain ⟨i, -, -, h₃⟩ := h₂.deliver 0 rfl (congrArg Prod.snd htold) rfl (fun _ hb => hb)
      (List.length_filter_le _ _)
    rw [if_neg (Nat.ne_of_gt hpos)]
    refine ⟨i, p, _, _, hflags, hack, ?_, h₃, h₂'.deliver_peer 0 rfl⟩
    rfl

/-- The packet that closes is half the number space ahead of the number that the peer acknowledges.  So it
seems to be acknowledged, but the peer has not taken it. -/
theorem Exchange.Shows.not_acknowledgesTaken {init link link' : List Packet} {c p : Packet}
    (h : e.Shows x s (init ++ [c]) r (p :: link)) (h' : e.Shows x.peer v sent' 1 link')
    (hst : s.state = .disconnecting) (holdest : s.oldestUnacked = 1)
    (hflight : ⟨c, 0, 0⟩ ∈ s.inFlight.flights) (hrel : c.header.relSeq = Serial.forward 1 128)
    (hclosing : c.header.flags.fin = true) (hlen : init.length = 129)
    (hfin : ∀ p ∈ init, p.header.flags.fin = false) (hflags : p.header.flags = .carrying)
    (hack : p.header.ack = 1) (hearly : v.early.get (Serial.forward 0 129) = false) :
    ¬ e.AcknowledgesTaken x true 0 := by
  let t : Session := { s with inFlight := s.inFlight.acknowledgeBefore 1, oldestUnacked := 1 }
  have hacked : s.acknowledge p.header.ack = t := by
    have hrange : Serial.inRange (1 : UInt8) 1 s.nextSeq = true := by
      rw [Serial.inRange, Serial.distance_self, decide_eq_true_eq]
      exact Nat.zero_le _
    unfold Session.acknowledge
    rw [hack, holdest, if_pos hrange]
  have hreacted : e.reacted x p 0 = (t.receiveData p).2 := by
    have hopen : s.receive p = s.receiveOpen p := by
      unfold Session.receive
      rw [hst, hflags, if_neg (by decide)]
    unfold Exchange.reacted
    simp only
    rw [if_neg (by rw [hflags]; exact fun hnot => Bool.false_ne_true hnot.2.2), h.session, hopen,
      receiveOpen_carrying hflags, hacked]
  obtain ⟨q, hafter⟩ := Exchange.session_deliver h.link true 0
  obtain ⟨inbound, early, expected, hasGap, outbound, events, hfields⟩ := receiveData_fields t p
  rw [hreacted, hfields] at hafter
  have hgone : c ∉ t.inFlight.flights.map Flight.packet := by
    intro hmem
    obtain ⟨f, hf, rfl⟩ := List.mem_map.1 hmem
    have hkept := (List.mem_filter.1 hf).2
    rw [hrel, Serial.precedes, Serial.distance_forward_self _ (by simp only [Serial.half]; omega)] at hkept
    cases hkept
  intro htaken
  unfold Exchange.AcknowledgesTaken at htaken
  simp only at htaken
  rw [hafter, h.session, h.sent] at htaken
  obtain ⟨n, hn, -, htook⟩ := htaken (by rw [hst]; decide) ⟨c, 0, 0⟩ hflight (.inr hclosing) hgone
  have hlast : n = 129 := by
    rcases Nat.lt_or_ge n init.length with hlt | hge
    · rw [List.getElem?_append_left hlt] at hn
      rw [hfin c (List.mem_of_getElem? hn)] at hclosing
      cases hclosing
    · have := (List.getElem?_eq_some_iff.1 hn).1
      rw [List.length_append, List.length_singleton] at this
      omega
  rw [hlast] at htook
  rcases h'.took htook with hlt | hearly'
  · exact absurd hlt (by decide)
  · rw [hearly] at hearly'
    cases hearly'

/-- The end fills its window, and its last number is half the number space ahead of its first message. -/
theorem fillWindow_shows {link : List Packet} {p : Packet} {n : Nat} (h : e.Shows x s sent r [p])
    (h' : e.Shows x.peer v sent' 1 link) (hearly : v.early.get (Serial.forward 0 129) = false)
    (hst : s.state = .connected) (hgap : s.hasGap = false) (holdest : s.oldestUnacked = 1)
    (hwindow : s.config.window = n + 1)
    (hnext : Serial.forward s.nextSeq n = Serial.forward 1 128) (hflights : s.inFlight.length ≤ 1)
    (hq : s.outbound.Holds s.remotePort [])
    (hroom : s.outbound.used + (n + 1) * Header.size ≤ s.outbound.capacity)
    (hflags : p.header.flags = .carrying) (hack : p.header.ack = 1)
    (hlen : sent.length + n = 129) (hfin : ∀ c ∈ sent, c.header.flags.fin = false) :
    ¬ (e.after (fillWindow x (n + 1))).AcknowledgesTaken x true 0 := by
  have hreport := gapReport_of_no_gap hgap
  rw [Nat.succ_mul] at hroom
  obtain ⟨qs, q, events, hqs, hstamped, -, -, hused, hcapacity, h₁⟩ := h.sends n hst (by omega) hq
    (by
      rw [hreport, Option.toList_none, wireLengths_nil]
      omega)
  rw [hreport, Option.toList_none, wireLengths_nil, Nat.zero_add] at hused
  rw [hnext] at h₁
  let t : Session := {
    s with
    nextSeq := Serial.forward 1 128
    inFlight := ⟨s.inFlight.flights ++ qs.map (⟨·, 0, 0⟩)⟩
    outbound := q
    events := events }
  obtain ⟨q', events', hclose⟩ := close_in_turn (s := t) hst (by
    show q.used + Header.size ≤ q.capacity
    omega) 0
  have h₂ := h₁.close hclose rfl rfl rfl
  have h₂' := (h'.send_peer (x := x) (List.replicate n message) [] 0 rfl).close_peer (x := x) 0 rfl
  refine h₂.not_acknowledgesTaken h₂' rfl holdest (List.mem_append_right _ (List.mem_singleton_self _)) rfl
    rfl ?_ (fun c hc => ?_) hflags hack hearly
  · rw [List.length_append, hqs, hlen]
  · rcases List.mem_append.1 hc with hc | hc
    · exact hfin c hc
    · rw [(hstamped.of_mem hc).1]
      rfl

/-- Of the messages of the end only the first one is left in flight. -/
theorem left_in_flight (hv : u.TookBeyond m [] v) (hexpected : u.expected = 1) (hm : m < 128)
    {qs : List Packet} {port : UInt8} (hstamped : Stamped port 1 1 qs) (hlen : qs.length = m + 1) :
    ((qs.map (⟨·, 0, 0⟩ : Packet → Flight)).filter fun f =>
      !v.early.get f.packet.header.relSeq).length ≤ 1 := by
  cases qs with
  | nil => cases hlen
  | cons p ps =>
    have hlen' : ps.length = m := Nat.succ.inj hlen
    have htaken : (ps.map (⟨·, 0, 0⟩ : Packet → Flight)).filter
        (fun f => !v.early.get f.packet.header.relSeq) = [] := by
      refine List.filter_eq_nil_iff.2 fun f hf => ?_
      obtain ⟨c, hc, rfl⟩ := List.mem_map.1 hf
      obtain ⟨-, i, hi, hrel⟩ := hstamped.2.2.2.2.of_mem hc
      have hearly : v.early.get c.header.relSeq = true := by
        rw [hv.early_iff, hexpected, hrel, Serial.forward_next,
          Serial.distance_forward_self _ (by simp only [Serial.half]; omega)]
        omega
      simp [hearly]
    rw [List.map_cons, List.filter_cons, htaken]
    split <;> simp

/-- Two ends that have sent no messages yet, and the window of one of them is too large. -/
theorem overrun_spec {n : Nat} (hwindow : t.config.window = n + 1) (hm : m + 1 + n = 128) (hlow : m ≤ n)
    (hs : s.Ready t x) (hu : u.Ready t x.peer) (h : e.Shows x s sent 1 [])
    (h' : e.Shows x.peer u sent' 1 []) (hselective : 0 < m → (t.options x.peer).selectiveAck = true)
    (hroom : 128 * Session.answerSize ≤ t.config.connectionQueueCapacity) (hsent : sent.length = 1)
    (hfin : ∀ p ∈ sent, p.header.flags.fin = false) :
    ¬ (e.after (fillPeer x m ++ (hearReport x m ++ fillWindow x (n + 1)))).AcknowledgesTaken x true 0 := by
  have hanswer : Session.answerSize = 153 := rfl
  have hsize : Header.size = 12 := rfl
  obtain ⟨qs, q, events, v, hlen, hstamped, hholds, hused, hcapacity, hv, hvused, hvcapacity, h₁, h₁'⟩ :=
    fillPeer_shows hs hu h h' hselective (by omega) (by omega) hroom
  rw [hanswer] at hroom hvused
  rw [hsize] at hused
  obtain ⟨i, p, v', sent', hflags, hack, hsame, h₂, h₂'⟩ := hearReport_shows h₁ h₁' hu hv hselective
    (by omega) (by omega) (by omega) hs.state hs.oldest
    (fun f hf => by
      obtain ⟨c, hc, rfl⟩ := List.mem_map.1 hf
      obtain ⟨-, i, hi, hrel⟩ := hstamped.of_mem hc
      rw [hrel, Serial.distance_forward_self _ (by simp only [Serial.half]; omega)]
      omega)
  rw [Exchange.after_append, Exchange.after_append]
  refine fillWindow_shows h₂ h₂' ?_ hs.state hs.hasGap hs.oldest ((congrArg _ hs.config).trans hwindow) ?_
    (left_in_flight hv hu.expected (by omega) hstamped hlen) hholds ?_ hflags hack ?_ fun c hc => ?_
  · rw [hsame]
    refine Bool.eq_false_iff.2 fun hearly => ?_
    have hle := ((hv.early_iff _).1 hearly).2
    have hfar : Serial.distance (1 : UInt8) (Serial.forward 0 129) = 128 := by decide +kernel
    rw [hu.expected, hfar] at hle
    omega
  · show Serial.forward (Serial.forward 1 (m + 1)) n = _
    rw [← Serial.forward_add, hm]
  · show q.used + _ ≤ q.capacity
    rw [hsize]
    omega
  · rw [List.length_append, hlen]
    omega
  · rcases List.mem_append.1 hc with hc | hc
    · exact hfin c hc
    · rw [(hstamped.of_mem hc).1]
      rfl

end Overrun

/-- With a window that is too large, the packet that closes seems to be acknowledged by a message that
still expects the first message of the end. -/
theorem not_acknowledgesTaken_of_overrun {window : Nat} (hlow : 64 < window) (hhigh : window ≤ 128)
    {options : Role → Options} {x : Role}
    (hselective : window < 128 → (options x.peer).selectiveAck = true) :
    ¬ ((Terms.withOptions window options).start.after (overrun x window)).AcknowledgesTaken x true 0 := by
  obtain ⟨n, rfl⟩ : ∃ n, window = n + 1 := Nat.exists_eq_succ_of_ne_zero (by omega)
  obtain ⟨hshows, hsent, hfin⟩ := established_shows x
  rw [overrun_eq, Exchange.after_append, after_handshake (by omega) hhigh]
  exact overrun_spec rfl (by omega) (by omega) ((established_ready x).widen (n + 1) options)
    ((established_ready x.peer).widen (n + 1) options) (hshows.widen _ _)
    ((established_shows x.peer).1.widen _ _) (fun hpos => hselective (by omega))
    (by show 128 * 153 ≤ 65536; decide) hsent hfin

/-- The largest window that is valid is too large. -/
theorem not_acknowledgesTaken_of_full_window : (Terms.withReporter 128 none).config.Valid ∧
    ¬ ((Terms.withReporter 128 none).start.after (overrun .initiator 128)).AcknowledgesTaken
      .initiator true 0 :=
  ⟨valid_withWindow (by decide) (by decide) false,
    not_acknowledgesTaken_of_overrun (by decide) (Nat.le_refl _) fun hlt => absurd hlt (Nat.lt_irrefl _)⟩

/-! ## The windows that are small enough -/

/-- All acknowledgements are true in every run of every connection with this window and these options. -/
def TrueFor (window : Nat) (options : Role → Options) : Prop :=
  ∀ t : Terms, t.config.Valid → t.config.window = window → t.options = options →
    ∀ acts x hands now, (t.start.after acts).AcknowledgesTaken x hands now

/-- All acknowledgements are true unless the window is the largest one, or more than half of it while an
end reports gaps. -/
theorem trueFor_iff (window : Nat) (options : Role → Options) :
    TrueFor window options ↔
      ¬ (window = 128 ∨ (64 < window ∧ window < 128 ∧ ∃ x, (options x).selectiveAck = true)) := by
  constructor
  · rintro h (rfl | ⟨hlow, hhigh, x, hx⟩)
    · exact not_acknowledgesTaken_of_overrun (x := .initiator) (by decide) (Nat.le_refl _)
        (fun hlt => absurd hlt (Nat.lt_irrefl _)) (h (Terms.withOptions 128 options)
          (valid_withWindow (by decide) (by decide) false) rfl rfl _ _ _ _)
    · refine not_acknowledgesTaken_of_overrun (x := x.peer) hlow (Nat.le_of_lt hhigh) (fun _ => ?_)
        (h (Terms.withOptions window options) (valid_withWindow (by omega) (by omega) false) rfl rfl _ _ _ _)
      rwa [x.peer_peer]
  · intro hsmall t hvalid hwindow hoptions acts x hands now
    have hle := hvalid.window_le
    refine acknowledgesTaken_after hvalid (fun y => ?_) acts x hands now
    by_cases hhalf : t.config.window ≤ 64
    · exact Terms.tame_of_window hhalf y
    have hne : window ≠ 128 := fun hw => hsmall (.inl hw)
    refine Terms.tame_of_plain (by omega) (Bool.eq_false_iff.2 fun hselective => ?_)
    rw [hoptions] at hselective
    exact hsmall (.inr ⟨by omega, by omega, y.peer, hselective⟩)

end NarrowLink.Connection

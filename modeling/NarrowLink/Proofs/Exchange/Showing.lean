import NarrowLink.Proofs.Exchange.Admission
import NarrowLink.Proofs.Exchange.Invariant
import NarrowLink.Proofs.Session.Room

/-!
# What can be seen of the ends of a connection

To follow a run step by step, it is enough to know the session of an end between two steps, what it has
sent and taken, and what is on the way to it (`Exchange.Shows`).  Each step of the run has a lemma about
the end that takes it, and one about its peer, for which nothing changes but what is on the way to it.
The runs begin after the handshake, which is the same with every window of two packets and more
(`after_handshake`).
-/

namespace NarrowLink.Connection

open Wire

/-- The session of an end, the packets that it has given numbers to, and how many numbers it has passed.
Of the numbers that it has taken, only the one half the number space ahead of the first message matters. -/
structure End.Shows (en : End) (s : Session) (sent : List Packet) (r : Nat) : Prop where
  session : en.session = s
  sent : en.sent = sent
  reached : en.reached = r
  took : en.took 129 = true → 129 < r ∨ s.early.get (Serial.forward 0 129) = true

/-- What can be seen of an end, and what is on the way to it. -/
structure Exchange.Shows (e : Exchange) (x : Role) (s : Session) (sent : List Packet) (r : Nat)
    (link : List Packet) : Prop extends (e.ends x).Shows s sent r where
  link : e.link x = link

theorem End.Shows.observe {en : End} {s s' : Session} {sent : List Packet} {r : Nat}
    (h : en.Shows s sent r) (hexpected : s'.expected = s.expected)
    (hearly : ∀ b, s.early.get b = true → s'.early.get b = true) {new : List Packet}
    (hnew : (s'.inFlight.flights.drop s.inFlight.length).map Flight.packet = new) :
    (en.observe s').Shows s' (sent ++ new) r := by
  have hreached : (en.observe s').reached = r := by
    show en.reached + Serial.distance en.session.expected s'.expected = r
    rw [h.session, hexpected, Serial.distance_self, h.reached, Nat.add_zero]
  refine ⟨rfl, ?_, hreached, fun htook => ?_⟩
  · show en.sent ++ (s'.inFlight.flights.drop en.session.inFlight.length).map Flight.packet = _
    rw [h.sent, h.session, hnew]
  · change (en.took 129 || decide (129 < (en.observe s').reached) ||
      (decide (129 < (en.observe s').reached + 256) && s'.early.get (Serial.forward 0 129))) = true at htook
    rw [hreached, Bool.or_eq_true, Bool.or_eq_true, Bool.and_eq_true, decide_eq_true_eq] at htook
    rcases htook with (htook | hlt) | ⟨-, hearly'⟩
    · exact (h.took htook).imp_right (hearly _)
    · exact .inl hlt
    · exact .inr hearly'

theorem End.Shows.observe_self {en : End} {s s' : Session} {sent : List Packet} {r : Nat}
    (h : en.Shows s sent r) (hexpected : s'.expected = s.expected)
    (hearly : ∀ b, s.early.get b = true → s'.early.get b = true)
    (hflights : s'.inFlight.length ≤ s.inFlight.length) : (en.observe s').Shows s' sent r := by
  have hnone : (s'.inFlight.flights.drop s.inFlight.length).map Flight.packet = [] := by
    rw [List.drop_eq_nil_of_le hflights]
    rfl
  have := h.observe hexpected hearly hnone
  rwa [List.append_nil] at this

namespace Exchange

variable {e : Exchange} {x y : Role} {s s' : Session} {sent : List Packet} {r : Nat}
  {link ps : List Packet} {numbers : List UInt8} {now : Nat} {p : Packet}

theorem Shows.congr (h : e.Shows y s sent r link) {e' : Exchange} (hends : e'.ends y = e.ends y)
    (hlink : e'.link y = e.link y) : e'.Shows y s sent r link :=
  ⟨by rw [hends]; exact h.toShows, by rw [hlink, h.link]⟩

theorem Shows.widen (h : e.Shows x s sent r link) (c : Config) (o : Role → Options) :
    (e.widen c o).Shows x (s.widen c (o x)) sent r link :=
  ⟨⟨congrArg (·.widen c (o x)) h.session, h.sent, h.reached, h.took⟩, h.link⟩

/-! ## Sending -/

theorem Shows.send (h : e.Shows x s sent r link)
    (hs : s.send ps now (fun ps => (numberFragments numbers ps, ())) = (.ok (), s'))
    (hexpected : s'.expected = s.expected) (hearly : s'.early = s.early) {new : List Flight}
    (hnew : s'.inFlight.flights = s.inFlight.flights ++ new) :
    (e.apply (.send x ps numbers now)).Shows x s' (sent ++ new.map Flight.packet) r link := by
  have hadded : (s'.inFlight.flights.drop s.inFlight.length).map Flight.packet = new.map Flight.packet := by
    rw [hnew, InFlight.length, List.drop_left]
  obtain ⟨hsession, hsent, hreached, htook⟩ :=
    h.toShows.observe hexpected (fun b hb => hearly ▸ hb) hadded
  simp only [apply, h.session, hs]
  refine ⟨?_, h.link⟩
  rw [ends_put, ends_update]
  exact ⟨hsession, hsent, hreached, htook⟩

theorem Shows.send_peer (h : e.Shows y s sent r link) (ps : List Packet) (numbers : List UInt8)
    (now : Nat) (hy : y = x.peer) :
    (e.apply (.send x ps numbers now)).Shows y s sent r link := by
  subst hy
  simp only [apply]
  split
  · exact h.congr (ends_update_peer e x _) rfl
  · exact h.congr (by simp) rfl

theorem Shows.close (h : e.Shows x s sent r link) {answer : Except Error Unit}
    (hs : s.close now = (answer, s')) (hexpected : s'.expected = s.expected) (hearly : s'.early = s.early)
    {new : List Flight} (hnew : s'.inFlight.flights = s.inFlight.flights ++ new) :
    (e.apply (.close x now)).Shows x s' (sent ++ new.map Flight.packet) r link := by
  refine ⟨?_, h.link⟩
  simp only [apply, h.session, hs]
  rw [ends_update]
  exact h.toShows.observe hexpected (fun b hb => hearly ▸ hb)
    (by rw [hnew, InFlight.length, List.drop_left])

theorem Shows.close_peer (h : e.Shows y s sent r link) (now : Nat) (hy : y = x.peer) :
    (e.apply (.close x now)).Shows y s sent r link := by
  subst hy
  exact h.congr (ends_update_peer e x _) rfl

/-! ## The link -/

theorem Shows.take (h : e.Shows x s sent r link) (hs : s.fetchOutbound = (ps, s'))
    (hexpected : s'.expected = s.expected) (hearly : s'.early = s.early)
    (hflights : s'.inFlight = s.inFlight) : (e.apply (.take x)).Shows x s' sent r link := by
  simp only [apply, h.session, hs]
  refine ⟨?_, ?_⟩
  · rw [ends_relink, ends_update]
    exact h.toShows.observe_self hexpected (fun b hb => hearly ▸ hb) (by rw [hflights])
  · simp [relink, update, put, x.peer_ne.symm, h.link]

theorem Shows.take_peer (h : e.Shows y s sent r link) (hy : y = x.peer) {u u' : Session}
    (hu : (e.ends x).session = u) (hps : u.fetchOutbound = (ps, u')) :
    (e.apply (.take x)).Shows y s sent r (link ++ ps) := by
  subst hy
  simp only [apply, hu, hps]
  refine ⟨?_, ?_⟩
  · rw [ends_relink, ends_update_peer]
    exact h.toShows
  · simp [relink, h.link]

theorem Shows.lose (h : e.Shows x s sent r (p :: link)) :
    (e.apply (.lose x)).Shows x s sent r link :=
  ⟨h.toShows, by simp [apply, relink, h.link]⟩

theorem Shows.lose_peer (h : e.Shows x s sent r link) :
    (e.apply (.lose x.peer)).Shows x s sent r link :=
  h.congr rfl (if_neg x.peer_ne.symm)

theorem Shows.deliver (h : e.Shows x s sent r (p :: link)) (now : Nat)
    (hsyn : p.header.flags.syn = false) (hs : (s.receive p).2 = s') (hexpected : s'.expected = s.expected)
    (hearly : ∀ b, s.early.get b = true → s'.early.get b = true)
    (hflights : s'.inFlight.length ≤ s.inFlight.length) :
    ∃ q, q.used ≤ s'.inbound.used ∧ q.capacity = s'.inbound.capacity ∧
      (e.apply (.deliver x true now)).Shows x { s' with inbound := q } sent r link := by
  have hreacted : e.reacted x p now = s' := by
    unfold reacted
    simp only [hsyn]
    rw [if_neg (fun hnot => Bool.false_ne_true hnot.2.2), h.session, hs]
  obtain ⟨q, hq, hused, hcapacity⟩ := fetchInbound_room s'
  have harrived := h.toShows.observe_self hexpected hearly hflights
  have hhanded : (((e.ends x).observe s').observe s'.fetchInbound.2).Shows s'.fetchInbound.2 sent r :=
    harrived.observe_self (by rw [hq]) (fun b hb => by rw [hq]; exact hb) (by rw [hq])
  obtain ⟨hsession, hsent, hreached, htook⟩ := hhanded
  refine ⟨q, hused, hcapacity, ?_⟩
  simp only [apply, h.link]
  refine ⟨?_, ?_⟩
  · rw [if_pos trivial, ends_hand, ends_arrive, ends_relink, reacted_relink, hreacted, harrived.session, ← hq]
    exact ⟨hsession, hsent, hreached, htook⟩
  · simp [hand, update, put, arrive, relink]

theorem Shows.deliver_peer (h : e.Shows y s sent r link) (now : Nat) (hy : y = x.peer) :
    (e.apply (.deliver x true now)).Shows y s sent r link := by
  subst hy
  simp only [apply]
  split
  · exact h
  · exact h.congr (by simp) (if_neg x.peer_ne)

end Exchange

theorem Exchange.Shows.loses {e : Exchange} {y : Role} {s : Session} {sent : List Packet} {r : Nat}
    (lost : List Packet) {link : List Packet} (h : e.Shows y s sent r (lost ++ link)) :
    (e.after (List.replicate lost.length (.lose y))).Shows y s sent r link := by
  induction lost generalizing e with
  | nil => exact h
  | cons p lost ih => exact ih h.lose

/-- What one act leaves as it was, the same act again and again leaves as it was. -/
theorem Exchange.Shows.repeated {e : Exchange} {y : Role} {s : Session} {sent : List Packet} {r : Nat}
    {link : List Packet} {a : Act} (h : e.Shows y s sent r link)
    (hstep : ∀ e : Exchange, e.Shows y s sent r link → (e.apply a).Shows y s sent r link) (n : Nat) :
    (e.after (List.replicate n a)).Shows y s sent r link := by
  induction n generalizing e with
  | zero => exact h
  | succ n ih => exact ih (hstep e h)

theorem Exchange.Shows.loses_peer {e : Exchange} {x : Role} {s : Session} {sent : List Packet} {r : Nat}
    {link : List Packet} (h : e.Shows x s sent r link) (n : Nat) :
    (e.after (List.replicate n (.lose x.peer))).Shows x s sent r link :=
  h.repeated (fun _ h => h.lose_peer) n

/-! ## Messages -/

theorem wireLengths_messages (n : Nat) :
    wireLengths (List.replicate n message) = n * Header.size := by
  have hmessage : message.wireLength = Header.size := rfl
  induction n with
  | zero => simp
  | succ n ih =>
    rw [List.replicate_succ, wireLengths_cons, ih, hmessage, Nat.succ_mul, Nat.add_comm]

section Messages

variable {e : Exchange} {x : Role} {s u : Session} {sent sent' link link' queue : List Packet} {r r' : Nat}
  {port : UInt8}

/-- An end that has queued nothing queues messages, behind the report of a gap. -/
theorem Exchange.Shows.sends (h : e.Shows x s sent r link) (n : Nat) (hst : s.state = .connected)
    (hwindow : s.inFlight.length + n ≤ s.config.window) (hq : s.outbound.Holds s.remotePort [])
    (hroom : s.outbound.used + (wireLengths s.gapReport.toList + n * Header.size) ≤ s.outbound.capacity) :
    ∃ qs q events, qs.length = n ∧ Stamped s.remotePort s.expected s.nextSeq qs ∧
      wireLengths qs = n * Header.size ∧ q.Holds s.remotePort (s.gapReport.toList ++ qs) ∧
      q.used = s.outbound.used + (wireLengths s.gapReport.toList + n * Header.size) ∧
      q.capacity = s.outbound.capacity ∧
      (e.apply (.send x (List.replicate n message) [] 0)).Shows x {
        s with
        nextSeq := Serial.forward s.nextSeq n
        inFlight := ⟨s.inFlight.flights ++ qs.map (⟨·, 0, 0⟩)⟩
        outbound := q
        events := events } (sent ++ qs) r link := by
  have hlen : (List.replicate n message).length = n := List.length_replicate
  obtain ⟨qs, q, events, hsend, hholds, hstamped, hqs, hwire, hused, hcapacity⟩ :=
    send_in_turn (s := s) (List.replicate n message) hst (by rw [hlen]; exact hwindow) hq (inTurn_nil _)
      (decide_eq_true (by rw [wireLengths_messages]; exact hroom)) [] 0
  rw [hlen] at hsend hqs
  rw [wireLengths_messages] at hwire hused
  have h₁ := h.send hsend rfl rfl rfl
  have hsame : (qs.map (⟨·, 0, 0⟩)).map Flight.packet = qs := by
    rw [List.map_map]
    exact List.map_id _
  rw [hsame] at h₁
  exact ⟨qs, q, events, hqs, hstamped, hwire, hholds, hused, hcapacity, h₁⟩

/-- What is queued at an end goes onto the link. -/
theorem Exchange.Shows.takes (h : e.Shows x s sent r link) (h' : e.Shows x.peer u sent' r' link')
    (hst : s.state = .connected) (hq : s.outbound.Holds port queue) :
    ∃ q, q.Holds port [] ∧ q.used ≤ s.outbound.used ∧ q.capacity = s.outbound.capacity ∧
      (e.apply (.take x)).Shows x { s with outbound := q } sent r link ∧
      (e.apply (.take x)).Shows x.peer u sent' r' (link' ++ queue) := by
  obtain ⟨q, htake, hholds, hused, hcapacity⟩ := fetchOutbound_in_turn (s := s) (by rw [hst]; decide) hq
  exact ⟨q, hholds, hused, hcapacity, h.take htake rfl rfl rfl, h'.take_peer rfl h.session htake⟩

end Messages

/-! ## After the handshake -/

/-- An end that is connected, and has neither sent nor taken a message. -/
structure Session.Ready (t : Terms) (x : Role) (s : Session) : Prop where
  config : s.config = t.config
  options : s.options = t.options x
  localPort : s.localPort = t.port x
  remotePort : s.remotePort = t.port x.peer
  state : s.state = .connected
  nextSeq : s.nextSeq = 1
  oldest : s.oldestUnacked = 1
  expected : s.expected = 1
  early : ∀ b, s.early.get b = false
  hasGap : s.hasGap = false
  flights : s.inFlight.flights = []
  outbound : s.outbound.Holds s.remotePort []
  room : s.outbound.used = 0 ∧ s.outbound.capacity = t.config.connectionQueueCapacity ∧
    s.inbound.used = 0 ∧ s.inbound.capacity = t.config.connectionQueueCapacity

/-- An end that is ready sends its first messages, which go onto the link. -/
theorem Session.Ready.sends {t : Terms} {x : Role} {e : Exchange} {s u : Session} (hs : s.Ready t x)
    {sent sent' link link' : List Packet} {r r' : Nat} (h : e.Shows x s sent r link)
    (h' : e.Shows x.peer u sent' r' link') (n : Nat) (hn : n ≤ t.config.window)
    (hroom : n * Header.size ≤ t.config.connectionQueueCapacity) :
    ∃ qs q events, qs.length = n ∧ Stamped s.remotePort 1 1 qs ∧ wireLengths qs = n * Header.size ∧
      q.Holds s.remotePort [] ∧ q.used ≤ n * Header.size ∧
      q.capacity = t.config.connectionQueueCapacity ∧
      (e.after [.send x (List.replicate n message) [] 0, .take x]).Shows x {
        s with
        nextSeq := Serial.forward 1 n
        inFlight := ⟨qs.map (⟨·, 0, 0⟩)⟩
        outbound := q
        events := events } (sent ++ qs) r link ∧
      (e.after [.send x (List.replicate n message) [] 0, .take x]).Shows x.peer u sent' r' (link' ++ qs) := by
  obtain ⟨hused, hcapacity, -, -⟩ := hs.room
  have hreport := gapReport_of_no_gap hs.hasGap
  obtain ⟨qs, q, events, hlen, hstamped, hwire, hholds, hqused, hqcapacity, h₁⟩ := h.sends n hs.state
    (by
      rw [hs.config, InFlight.length, hs.flights]
      exact Nat.le_trans (Nat.le_of_eq (Nat.zero_add n)) hn) hs.outbound
    (by
      rw [hreport, hused, hcapacity, Option.toList_none, wireLengths_nil, Nat.zero_add, Nat.zero_add]
      exact hroom)
  rw [hreport, Option.toList_none] at hholds hqused
  rw [hs.nextSeq, hs.flights, List.nil_append] at h₁
  rw [hs.nextSeq, hs.expected] at hstamped
  obtain ⟨q', hholds', hused', hcapacity', h₂, h₂'⟩ :=
    h₁.takes (h'.send_peer _ [] 0 rfl) hs.state hholds
  refine ⟨qs, q', events, hlen, hstamped, hwire, hholds', ?_, ?_, h₂, h₂'⟩
  · refine Nat.le_trans hused' (Nat.le_of_eq ?_)
    show q.used = _
    rw [hqused, hused, wireLengths_nil, Nat.zero_add, Nat.zero_add]
  · exact hcapacity'.trans (hqcapacity.trans hcapacity)

/-- A connection with a window, in which one end reports gaps, or none. -/
def Terms.withReporter (window : Nat) (reporter : Option Role) : Terms :=
  { Terms.withWindow window false with
    options := fun x => { selectiveAck := decide (reporter = some x) } }

instance (s : Session) : Decidable s.Snug :=
  decidable_of_iff (s.hasGap = true → s.options.selectiveAck = true ∧
    ∀ entry ∈ s.early.values.zipIdx, entry.1 = true →
      Serial.distance s.expected (UInt8.ofNat entry.2) < s.config.window)
    (by unfold Session.Snug; rw [ByteMap.forall_get_iff])

instance (e : Exchange) : Decidable e.Snug :=
  decidable_of_iff ((e.ends .initiator).session.Snug ∧ (e.ends .responder).session.Snug)
    ⟨fun h x => by cases x; exacts [h.1, h.2], fun h => ⟨h .initiator, h .responder⟩⟩

instance (e : Exchange) (act : Act) : Decidable (e.Admits act) := by
  cases act <;> (unfold Exchange.Admits; infer_instance)

instance Exchange.decidableAdmitsAll : (e : Exchange) → (acts : List Act) → Decidable (e.AdmitsAll acts)
  | e, [] => inferInstanceAs (Decidable e.Snug)
  | e, act :: acts =>
    have := decidableAdmitsAll (e.apply act) acts
    inferInstanceAs (Decidable (_ ∧ _ ∧ _))

/-- Two ends that have just been connected. -/
def established : Exchange := (Terms.withReporter 2 none).start.after handshake

theorem established_shows (x : Role) :
    established.Shows x (established.ends x).session (established.ends x).sent 1 [] ∧
      (established.ends x).sent.length = 1 ∧
      ∀ p ∈ (established.ends x).sent, p.header.flags.fin = false := by
  have hknown : (established.ends x).reached = 1 ∧ established.link x = [] ∧
      (established.ends x).took 129 = false ∧ (established.ends x).sent.length = 1 ∧
      ∀ p ∈ (established.ends x).sent, p.header.flags.fin = false := by
    cases x <;> decide +kernel
  obtain ⟨hreached, hlink, htook, hsent⟩ := hknown
  exact ⟨⟨⟨rfl, rfl, hreached, fun h => absurd h (by rw [htook]; exact Bool.false_ne_true)⟩, hlink⟩, hsent⟩

theorem established_ready (x : Role) :
    (established.ends x).session.Ready (Terms.withReporter 2 none) x := by
  have hvalid : (Terms.withReporter 2 none).config.Valid :=
    valid_withWindow (by decide) (by decide) false
  obtain ⟨gs, ls, h⟩ : ∃ gs ls, Accounts (Terms.withReporter 2 none) established gs ls :=
    (accounts_start _).after hvalid (fun y => Terms.tame_of_window (by decide) y) handshake
  have hb := h.books x
  have hqueue : (established.ends x).session.outbound.packets
      ((Terms.withReporter 2 none).port x.peer) = [] := by
    cases x <;> decide +kernel
  have hearly : ∀ b, (established.ends x).session.early.get b = true → False := by
    rw [ByteMap.forall_get_iff]
    cases x <;> decide +kernel
  have hholds := hb.outbound
  rw [← hholds.packets, hqueue, ← hb.remotePort] at hholds
  have hfields : (established.ends x).session.state = .connected ∧
      (established.ends x).session.nextSeq = 1 ∧ (established.ends x).session.oldestUnacked = 1 ∧
      (established.ends x).session.expected = 1 ∧ (established.ends x).session.hasGap = false ∧
      (established.ends x).session.inFlight.flights = [] ∧
      (established.ends x).session.outbound.used = 0 ∧
      (established.ends x).session.outbound.capacity = 65536 ∧
      (established.ends x).session.inbound.used = 0 ∧
      (established.ends x).session.inbound.capacity = 65536 := by
    cases x <;> decide +kernel
  obtain ⟨hst, hnext, holdest, hexpected, hgap, hflights, hroom⟩ := hfields
  exact {
    config := hb.config
    options := hb.options
    localPort := hb.localPort
    remotePort := hb.remotePort
    state := hst
    nextSeq := hnext
    oldest := holdest
    expected := hexpected
    early := fun b => Bool.eq_false_iff.2 (hearly b)
    hasGap := hgap
    flights := hflights
    outbound := hholds
    room := hroom }

/-- A connection with a window, whose ends have these options. -/
def Terms.withOptions (window : Nat) (options : Role → Options) : Terms :=
  { Terms.withWindow window false with options := options }

theorem Session.Ready.widen {s : Session} {x : Role} (h : s.Ready (Terms.withReporter 2 none) x)
    (window : Nat) (options : Role → Options) :
    (s.widen (Terms.withOptions window options).config (options x)).Ready
      (Terms.withOptions window options) x :=
  ⟨rfl, rfl, h.localPort, h.remotePort, h.state, h.nextSeq, h.oldest, h.expected, h.early, h.hasGap,
    h.flights, h.outbound, h.room⟩

/-- The handshake is the same with each window and all options. -/
theorem after_handshake {window : Nat} (hlow : 1 < window) (hhigh : window ≤ 128)
    (options : Role → Options) : (Terms.withOptions window options).start.after handshake =
      established.widen (Terms.withOptions window options).config options := by
  have hadmits : (Terms.withReporter 2 none).start.AdmitsAll handshake := by decide +kernel
  have hunder : (Terms.withReporter 2 none).start.Under (Terms.withReporter 2 none).config
      (Terms.withReporter 2 none).options := rfl
  have hstart : (Terms.withOptions window options).start =
      (Terms.withReporter 2 none).start.widen (Terms.withOptions window options).config options := rfl
  rw [hstart]
  exact Exchange.after_widen hadmits hunder hlow hhigh fun y hy => by cases y <;> cases hy

end NarrowLink.Connection

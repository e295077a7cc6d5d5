import NarrowLink.Proofs.Session.Dispatch

/-!
# What lasts in a session

Everything that happens to a session is made of a few steps: a number is given out, a packet is
queued, some packets are acknowledged, and so on.  A property that these steps preserve lasts through
all operations of a session (`Lasting`), whatever packets arrive and whatever messages are sent.
-/

namespace NarrowLink.Connection

open Wire

/-- The event is not about a packet that found no connection. -/
def Event.Plain (e : Event) : Prop := ∀ port reply, e ≠ .rejected port reply

namespace Session

/-- Gives the next number to a packet, puts it in flight and queues it. -/
def issue (s : Session) (p : Packet) (now : Nat) : Session :=
  { s with
    nextSeq := Serial.next s.nextSeq
    inFlight := s.inFlight.push p now
    outbound := s.outbound.add p }

/-- The packets that a session queues without giving them a number of their own. -/
inductive Control (s : Session) : Packet → Prop where
  | acknowledging : Control s (s.packet .acknowledging s.nextSeq [])
  /-- A report follows an acknowledgement into the queue. -/
  | reporting (opened : s.Open) (behind : Header.size ≤ s.outbound.used) :
      Control s (s.packet .reporting s.nextSeq (Sack.encode s.gapRanges))
  | resetting (resetting : s.state = .resetting) : Control s (s.packet .resetting s.nextSeq [])
  | parting (ended : s.state = .disconnected) : Control s (s.packet .parting s.nextSeq [])
  /-- The responder answers a request that comes again. -/
  | welcoming (connecting : s.state = .connecting) (responder : s.role = .responder) :
      Control s (s.packet .welcoming s.oldestUnacked [])

/-- There is room for a packet in the outbound queue. -/
def Fits (s : Session) (p : Packet) : Prop :=
  s.outbound.used + p.wireLength ≤ s.outbound.capacity

/-- A session on a port that has not begun, but may know what the peer begins with. -/
def Unbegun (config : Config) (port : UInt8) (s : Session) : Prop :=
  ∃ role remotePort channel options expected,
    s = { Session.new config role port remotePort channel options with expected := expected }

/-- The packet as it is sent again. -/
def again (s : Session) (p : Packet) : Packet :=
  { p with header := { p.header with ack := s.expected } }

/-- A session that was answered with some number, which is open now. -/
def greeted (s : Session) (relSeq : UInt8) : Session :=
  { ({ s with expected := relSeq }.arrive relSeq).advance with state := .connected }

/-- A session that the peer has closed. -/
def parted (s : Session) : Session :=
  { s with expected := Serial.next s.expected, inFlight := {}, state := .disconnected }

/-- A property of the sessions of a port under a configuration that every step preserves, as long as the
messages consist of certain packets. -/
structure Lasting (config : Config) (port : UInt8) (App : Packet → Prop) (P : Session → Prop) : Prop where
  begins : ∀ {s : Session} {flags : Flags} (now : Nat), s.Unbegun config port →
    (flags = .opening ∨ flags = .welcoming) → s.Fits (s.packet flags s.nextSeq []) →
    P { s.issue (s.packet flags s.nextSeq []) now with state := .connecting }
  raises : ∀ {s : Session} {e : Event}, P s → e.Plain → P (s.raise e)
  connects : ∀ {s : Session}, P s → s.state = .connecting → s.role = .responder →
    P { s with state := .connected }
  welcomes : ∀ {s : Session} (relSeq : UInt8), P s → s.state = .connecting → s.role = .initiator →
    P (s.greeted relSeq)
  absorbs : ∀ {s : Session} {p : Packet} {q : Queue}, P s → s.Open → ¬ s.Reports → p.port = port →
    Serial.distance s.expected p.header.relSeq < s.config.window →
    s.early.get p.header.relSeq = false → s.inbound.push p = .ok q → P (s.absorb q p.header.relSeq)
  parts : ∀ {s : Session}, P s → s.Open → P s.parted
  resets : ∀ {s : Session}, P s → P { s.discard with state := .resetting }
  ends : ∀ {s : Session}, P s → P { s.discard with state := .disconnected }
  posts : ∀ {s : Session} {p : Packet}, P s → s.Control p → s.Fits p →
    P { s with outbound := s.outbound.add p }
  resends : ∀ {s : Session} {e : Flight}, P s → 0 < s.config.maxRetransmissions →
    e ∈ s.inFlight.flights → s.Fits (s.again e.packet) →
    P { s with outbound := s.outbound.add (s.again e.packet) }
  credits : ∀ {s : Session} {f : InFlight} (oldest : UInt8), P s →
    f.flights.Sublist s.inFlight.flights → (s.state = .connecting → s.role = .initiator) →
    P { s with inFlight := f, oldestUnacked := oldest }
  recounts : ∀ {s : Session} {f : InFlight}, P s →
    f.flights.map Flight.packet = s.inFlight.flights.map Flight.packet → P { s with inFlight := f }
  dispatches : ∀ {s : Session} {ps qs : List Packet} (now : Nat), P s → s.HasRoom ps → ps ≠ [] →
    (∀ p ∈ ps, App p) → List.Forall₂ Renumbered (s.outgoing ps) qs → P (s.dispatch qs now)
  closes : ∀ {s : Session} (now : Nat), P s → s.state = .connected →
    s.Fits (s.packet .closing s.nextSeq []) →
    P { s.issue (s.packet .closing s.nextSeq []) now with state := .disconnecting }

theorem fits_iff {s : Session} {p : Packet} : s.outbound.fits p.wireLength = true ↔ s.Fits p := by
  unfold Queue.fits Fits
  rw [decide_eq_true_eq]

theorem post_of_fits {s : Session} {p : Packet} (h : s.Fits p) :
    s.post p = ({ s with outbound := s.outbound.add p } : Session).raise
      (.outboundAvailable s.localPort) := by
  have hpush : s.outbound.push p = .ok (s.outbound.add p) := Queue.push_eq_ok_iff.2 ⟨h, rfl⟩
  unfold post
  rw [hpush]

theorem post_of_not_fits {s : Session} {p : Packet} (h : ¬ s.Fits p) : s.post p = s := by
  have hpush : s.outbound.push p = .error .queueFull :=
    if_neg fun hfits => h (fits_iff.1 hfits)
  unfold post
  rw [hpush]

/-- The answer to a request to close does not depend on what else becomes of the connection. -/
theorem parted_post (s : Session) (p : Packet) :
    { ({ s with expected := Serial.next s.expected } : Session).post p with
      inFlight := {}, state := .disconnected } = s.parted.post p := by
  by_cases hfits : s.Fits p
  · rw [post_of_fits (s := s.parted) hfits,
      post_of_fits (s := { s with expected := Serial.next s.expected }) hfits, raise_eq, raise_eq]
    rfl
  · rw [post_of_not_fits (s := s.parted) hfits,
      post_of_not_fits (s := { s with expected := Serial.next s.expected }) hfits]
    rfl

theorem raise_with_state (s : Session) (e : Event) (state : State) :
    { s.raise e with state := state } = { s with state := state }.raise e := by
  rw [raise_eq, raise_eq]

/-- A packet that is given a number is queued if there is room, or else nothing changes. -/
theorem postNumbered_eq (s : Session) (flags : Flags) (now : Nat) :
    s.postNumbered flags now =
      if s.outbound.fits (s.packet flags s.nextSeq []).wireLength then
        (.ok (), (s.issue (s.packet flags s.nextSeq []) now).raise (.outboundAvailable s.localPort))
      else (.error .queueFull, s) := by
  unfold postNumbered
  simp only
  split
  · rename_i hfits
    have hpush : s.outbound.push (s.packet flags s.nextSeq []) =
        .ok (s.outbound.add (s.packet flags s.nextSeq [])) := if_pos hfits
    rw [hpush]
    rfl
  · rfl

/-- What survives a report and every packet of a message by itself, survives that a message is sent. -/
theorem dispatch_of_steps {P : Session → Prop} {App : Packet → Prop} {s : Session}
    (reports : ∀ {s : Session}, P s → s.Open →
      s.Fits (s.packet .reporting s.nextSeq (Sack.encode s.gapRanges)) →
      P { s with outbound := s.outbound.add (s.packet .reporting s.nextSeq (Sack.encode s.gapRanges)) })
    (launches : ∀ {s : Session} {p q : Packet} (now : Nat), P s → s.state = .connected →
      s.unacknowledged < s.config.window → App p → Renumbered (s.stamped s.nextSeq p) q → s.Fits q →
      P (s.issue q now))
    (raises : ∀ {s : Session} {e : Event}, P s → e.Plain → P (s.raise e)) (hs : P s) {ps qs : List Packet}
    (now : Nat) (hroom : s.HasRoom ps) (hps : ∀ p ∈ ps, App p)
    (hqs : List.Forall₂ Renumbered (s.outgoing ps) qs) : P (s.dispatch qs now) := by
  have hall : ∀ {ps qs : List Packet} {s : Session}, P s → s.state = .connected → (∀ p ∈ ps, App p) →
      List.Forall₂ Renumbered (s.outgoing ps) qs → s.unacknowledged + ps.length ≤ s.config.window →
      s.outbound.used + wireLengths ps ≤ s.outbound.capacity → P { s with
        nextSeq := Serial.forward s.nextSeq qs.length
        inFlight := ⟨s.inFlight.flights ++ qs.map fun q => ⟨q, now, 0⟩⟩
        outbound := qs.foldl Queue.add s.outbound } := by
    intro ps
    induction ps with
    | nil =>
      intro qs s hs _ _ hqs _ _
      cases hqs
      simpa using hs
    | cons p ps ih =>
      intro qs s hs hst hps hqs hwindow hroom
      have hrest : s.outgoing (p :: ps) = s.stamped s.nextSeq p ::
          ({ s with nextSeq := Serial.next s.nextSeq } : Session).outgoing ps := by
        unfold outgoing
        simp only [List.mapIdx_cons, Serial.forward_next]
        rfl
      rw [hrest] at hqs
      obtain ⟨q, qs, hq, hqs', rfl⟩ := List.forall₂_cons_left_iff.1 hqs
      have hwire : q.wireLength = p.wireLength := by
        rw [hq]
        rfl
      rw [List.length_cons] at hwindow
      rw [wireLengths_cons] at hroom
      have hissued := launches now hs hst (Nat.lt_of_lt_of_le (by omega) hwindow)
        (hps p List.mem_cons_self) hq (show _ ≤ _ by omega)
      have hrec := ih (s := s.issue q now) hissued hst
        (fun p' hp' => hps p' (List.mem_cons_of_mem p hp')) hqs'
        (by
          show (s.inFlight.push q now).length + _ ≤ s.config.window
          simp only [InFlight.length, InFlight.push, List.length_append, List.length_singleton]
          unfold unacknowledged InFlight.length at hwindow
          omega)
        (by
          show s.outbound.used + q.wireLength + _ ≤ s.outbound.capacity
          omega)
      rw [List.length_cons, ← Serial.forward_next]
      simpa [issue, InFlight.push] using hrec
  have hbytes := hroom.outbound
  have hreported : P { s with outbound := s.gapReport.toList.foldl Queue.add s.outbound } := by
    cases hr : s.gapReport with
    | none => exact hs
    | some r =>
      rw [hr, Option.toList_some, wireLengths_cons, wireLengths_nil] at hbytes
      obtain ⟨-, rfl⟩ := gapReport_eq_some hr
      exact reports hs (.inl hroom.connected) (show _ ≤ _ by omega)
  have hsent := hall (s := { s with outbound := s.gapReport.toList.foldl Queue.add s.outbound })
    hreported hroom.connected hps hqs hroom.window (by
      simp only
      rw [Queue.used_foldl_add, Queue.capacity_foldl_add]
      exact hroom.outbound)
  unfold dispatch
  rw [List.foldl_append]
  exact raises hsent fun _ _ => by simp

namespace Lasting

variable {config : Config} {port : UInt8} {App : Packet → Prop} {P : Session → Prop}
  {s s' : Session}

/-- The owner is told of a state that a session gets into. -/
theorem moveTo (h : Lasting config port App P) {new : State} (hs : P { s with state := new }) :
    P (s.moveTo new) := by
  unfold Session.moveTo
  split
  · rename_i hst
    rwa [← hst] at hs
  · exact h.raises hs fun _ _ => by simp

theorem discard_disconnected (h : Lasting config port App P) (hs : P s) :
    P (s.discard.moveTo .disconnected) :=
  h.moveTo (s := s.discard) (h.ends hs)

theorem raise_available (h : Lasting config port App P) (hs : P s) :
    P (s.raise (.outboundAvailable s.localPort)) :=
  h.raises hs fun _ _ => by simp

theorem post (h : Lasting config port App P) (hs : P s) {p : Packet} (hp : s.Control p) :
    P (s.post p) := by
  by_cases hfits : s.Fits p
  · rw [post_of_fits hfits]
    exact h.raise_available (s := { s with outbound := s.outbound.add p }) (h.posts hs hp hfits)
  · rw [post_of_not_fits hfits]
    exact hs

/-- A report is queued behind an acknowledgement, or there is no room for either. -/
theorem postAck (h : Lasting config port App P) (hs : P s) (hopen : s.Open) : P s.postAck := by
  have hacked := h.post hs .acknowledging
  obtain ⟨outbound, events, hfields⟩ := post_fields s (s.packet .acknowledging s.nextSeq [])
  unfold Session.postAck Session.postGapReport
  split
  · rename_i r hr
    obtain ⟨-, rfl⟩ := gapReport_eq_some hr
    by_cases hfits : s.Fits (s.packet .acknowledging s.nextSeq [])
    · refine h.post hacked (.reporting (by rw [hfields]; exact hopen) ?_)
      rw [post_of_fits hfits, raise_eq]
      show Header.size ≤ s.outbound.used + (s.packet .acknowledging s.nextSeq []).wireLength
      exact Nat.le_trans (Nat.le_add_right _ _) (Nat.le_add_left _ _)
    · have hlarger : ∀ payload,
          ¬ s.Fits (s.packet .reporting s.nextSeq payload) := fun payload hroom =>
        hfits (Nat.le_trans (Nat.add_le_add_left (Nat.le_add_right _ _) _) hroom)
      rw [post_of_not_fits hfits, post_of_not_fits (hlarger _)]
      exact hs
  · exact hacked

/-! ## What the owner does -/

theorem begin_of_postNumbered (h : Lasting config port App P) (hs : s.Unbegun config port) {flags : Flags}
    (hflags : flags = .opening ∨ flags = .welcoming) {now : Nat}
    (he : (match s.postNumbered flags now with
      | (.ok (), s') => (.ok (), s'.moveTo .connecting)
      | (.error e, s') => (.error e, s') : Attempt Session Unit) = (.ok (), s')) : P s' := by
  rw [postNumbered_eq] at he
  split at he
  · rename_i hn
    split at hn
    · rename_i hfits
      have hbegun := h.begins now hs hflags (fits_iff.1 hfits)
      cases he
      cases hn
      refine h.moveTo ?_
      rw [raise_with_state]
      exact h.raises hbegun fun _ _ => by simp
    · cases hn
  · cases he

theorem connect (h : Lasting config port App P) {remotePort channel : UInt8} {options : Options}
    {now : Nat}
    (he : (Session.new config .initiator port remotePort channel options).connect now =
      (.ok (), s')) : P s' := by
  unfold Session.connect at he
  rw [if_neg (fun hne => hne rfl)] at he
  exact h.begin_of_postNumbered ⟨_, _, _, _, 0, rfl⟩ (.inl rfl) he

theorem accept (h : Lasting config port App P) {remotePort channel : UInt8} {options : Options}
    {syn : Packet} {now : Nat}
    (he : (Session.new config .responder port remotePort channel options).accept syn now =
      (.ok (), s')) : P s' := by
  unfold Session.accept at he
  rw [if_neg (fun hne => hne rfl)] at he
  exact h.begin_of_postNumbered ⟨_, _, _, _, _, rfl⟩ (.inr rfl) he

theorem reset (h : Lasting config port App P) (hs : P s) : P s.reset := by
  have hreset := h.resets hs
  have hposted : P { s.discard.post (s.discard.packet .resetting s.discard.nextSeq []) with
      state := .resetting } := by
    by_cases hfits : s.discard.Fits (s.discard.packet .resetting s.discard.nextSeq [])
    · rw [post_of_fits hfits, raise_with_state]
      exact h.raise_available (h.posts hreset (.resetting rfl) hfits)
    · rw [post_of_not_fits hfits]
      exact hreset
  unfold Session.reset
  split
  · exact hs
  · exact hs
  · exact h.moveTo hposted

theorem close (h : Lasting config port App P) (hs : P s) (now : Nat) : P (s.close now).2 := by
  unfold Session.close
  split
  · rename_i hst
    rw [postNumbered_eq]
    split
    · rename_i hn
      split at hn
      · rename_i hfits
        cases hn
        have hclosed := h.closes now hs hst (fits_iff.1 hfits)
        refine h.moveTo ?_
        rw [raise_with_state]
        exact h.raises hclosed fun _ _ => by simp
      · cases hn
    · rename_i hn
      split at hn <;> cases hn
      exact hs
  · exact h.reset hs
  · exact hs
  · exact hs
  · exact hs

theorem send {α : Type} (h : Lasting config port App P) (hs : P s) {ps : List Packet} (now : Nat)
    {number : List Packet → List Packet × α} (hnumber : NumbersFragments number) (hne : ps ≠ [])
    (hps : ∀ p ∈ ps, App p) : P (s.send ps now number).2 := by
  by_cases hroom : s.HasRoom ps
  · rw [send_of_hasRoom now hnumber hroom]
    exact h.dispatches now hs hroom hne hps (hnumber (s.outgoing ps))
  · unfold Session.send
    rw [admits_of_not_hasRoom hroom]
    exact hs

end Lasting

/-! ## Timers -/

/-- What is due is in flight, and is sent again only if packets are sent again at all. -/
theorem mem_due {f f' : InFlight} {config : Config} {now : Nat} {ps : List Packet}
    (h : f.due config now = (.packets ps, f')) :
    ∀ p ∈ ps, 0 < config.maxRetransmissions ∧ p ∈ f.flights.map Flight.packet := by
  have hcollect : ∀ es ps es', InFlight.collect config now es = (.packets ps, es') →
      ∀ p ∈ ps, 0 < config.maxRetransmissions ∧ p ∈ es.map Flight.packet := by
    intro es
    induction es with
    | nil =>
      intro ps es' he p hp
      cases he
      exact absurd hp List.not_mem_nil
    | cons e es ih =>
      intro ps es' he p hp
      unfold InFlight.collect at he
      split at he
      · -- not due yet
        simp only at he
        have hpair := Prod.mk.inj he
        obtain ⟨hpos, hmem⟩ := ih ps _ (Prod.ext hpair.1 rfl) p hp
        exact ⟨hpos, List.mem_cons_of_mem _ hmem⟩
      split at he
      · cases he
      · rename_i hretries
        split at he
        · rename_i qs es'' hrest
          cases he
          rcases List.mem_cons.1 hp with rfl | hp
          · exact ⟨by omega, List.mem_cons_self⟩
          · obtain ⟨hpos, hmem⟩ := ih qs _ hrest p hp
            exact ⟨hpos, List.mem_cons_of_mem _ hmem⟩
        · cases he
  unfold InFlight.due at h
  have hpair := Prod.mk.inj h
  exact hcollect f.flights ps _ (Prod.ext hpair.1 rfl)

namespace Lasting

variable {config : Config} {port : UInt8} {App : Packet → Prop} {P : Session → Prop}
  {s s' : Session}

/-- Packets that are due are queued again. -/
theorem sendDue (h : Lasting config port App P) (hs : P s) {ps : List Packet}
    (hps : ∀ p ∈ ps, 0 < s.config.maxRetransmissions ∧ p ∈ s.inFlight.flights.map Flight.packet) :
    P (ps.foldl (fun s p => s.post { p with header := { p.header with ack := s.expected } }) s) := by
  induction ps generalizing s with
  | nil => exact hs
  | cons p ps ih =>
    obtain ⟨hpos, hmem⟩ := hps p List.mem_cons_self
    obtain ⟨e, he, rfl⟩ := List.mem_map.1 hmem
    have hposted : P (s.post (s.again e.packet)) := by
      by_cases hfits : s.Fits (s.again e.packet)
      · rw [post_of_fits hfits]
        exact h.raise_available (s := { s with outbound := s.outbound.add (s.again e.packet) })
          (h.resends hs hpos he hfits)
      · rw [post_of_not_fits hfits]
        exact hs
    obtain ⟨outbound, events, hfields⟩ := post_fields s (s.again e.packet)
    rw [List.foldl_cons]
    refine ih hposted fun p hp => ?_
    rw [show s.post { e.packet with header := { e.packet.header with ack := s.expected } } =
      { s with outbound := outbound, events := events } from hfields]
    exact hps p (List.mem_cons_of_mem _ hp)

theorem checkTimers (h : Lasting config port App P) (hs : P s) (now : Nat) : P (s.checkTimers now) := by
  have hreminded : P (if s.outbound.isEmpty then s else s.raise (.outboundAvailable s.localPort)) := by
    split
    · exact hs
    · exact h.raise_available hs
  unfold Session.checkTimers
  generalize (if s.outbound.isEmpty then s else s.raise (.outboundAvailable s.localPort)) = r at hreminded
  simp only
  have hsame := r.inFlight.map_packet_due r.config now
  split
  · cases hdue : r.inFlight.due r.config now with
    | mk due f =>
      rw [hdue] at hsame
      have hcounted : P { r with inFlight := f } := h.recounts hreminded hsame
      cases due with
      | packets ps =>
        refine h.sendDue hcounted fun p hp => ?_
        obtain ⟨hpos, hmem⟩ := mem_due hdue p hp
        exact ⟨hpos, hsame ▸ hmem⟩
      | exhausted => exact h.reset hcounted
  · exact hreminded

/-! ## What arrives -/

theorem not_connecting_of_open (hopen : s.Open) : s.state = .connecting → s.role = .initiator :=
  fun hst => absurd hst hopen.not_connecting

theorem acknowledge (h : Lasting config port App P) (hs : P s)
    (hrole : s.state = .connecting → s.role = .initiator) (ack : UInt8) : P (s.acknowledge ack) := by
  unfold Session.acknowledge
  split
  · exact h.credits ack hs List.filter_sublist hrole
  · exact hs

theorem acknowledgeRanges (h : Lasting config port App P) (hs : P s)
    (hrole : s.state = .connecting → s.role = .initiator) (ranges : List (UInt8 × UInt8)) :
    P (s.acknowledgeRanges ranges) := by
  have hsub : (ranges.foldl (fun f r => f.acknowledgeWithin r.1 r.2) s.inFlight).flights.Sublist
      s.inFlight.flights := by
    rw [InFlight.flights_foldl_acknowledgeWithin]
    exact List.filter_sublist
  exact h.credits s.oldestUnacked hs hsub hrole

theorem receiveClosing (h : Lasting config port App P) (hs : P s) (hopen : s.Open) (p : Packet) :
    P (s.receiveClosing p).2 := by
  unfold Session.receiveClosing
  split
  · split
    · exact h.discard_disconnected hs
    · exact hs
  split
  · exact hs
  · refine h.moveTo ?_
    have hposted := h.post (h.parts hs hopen) (.parting rfl)
    rwa [← parted_post] at hposted

theorem receiveData (h : Lasting config port App P) (hs : P s) (hopen : s.Open) (hq : ¬ s.Reports)
    {p : Packet} (hport : p.port = port) : P (s.receiveData p).2 := by
  unfold Session.receiveData
  simp only
  split
  · split
    · exact h.postAck hs hopen
    · exact hs
  rename_i hnear
  split
  · exact h.postAck hs hopen
  rename_i hnew
  split
  · exact hs
  · rename_i q hpush
    refine h.postAck (s := s.absorb q p.header.relSeq) (h.absorbs hs hopen hq hport (Nat.not_le.1 hnear)
      (Bool.not_eq_true _ ▸ hnew) hpush) ?_
    obtain ⟨early, expected, hasGap, events, hfields⟩ := absorb_fields s q p.header.relSeq
    rw [hfields]
    exact hopen

theorem receiveOpen (h : Lasting config port App P) (hs : P s) (hopen : s.Open) (hq : ¬ s.Reports)
    {p : Packet} (hport : p.port = port) : P (s.receiveOpen p).2 := by
  obtain ⟨t, ht, hcredited, htopen, htq⟩ : ∃ t : Session,
      (if p.header.flags.ack then s.acknowledge p.header.ack else s) = t ∧ P t ∧ t.Open ∧
        ¬ t.Reports := by
    refine ⟨_, rfl, ?_, ?_⟩
    · split
      · exact h.acknowledge hs (not_connecting_of_open hopen) _
      · exact hs
    · obtain ⟨inFlight, oldest, hfields⟩ := acknowledge_fields s p.header.ack
      rw [hfields]
      split <;> exact ⟨hopen, hq⟩
  unfold Session.receiveOpen
  simp only
  rw [ht]
  split
  · split
    · exact h.postAck hs hopen
    · exact hs
  split
  · split
    · exact hcredited
    · exact h.acknowledgeRanges hcredited (not_connecting_of_open htopen) _
  split
  · exact h.receiveClosing hcredited htopen p
  split
  · exact h.receiveData hcredited htopen htq hport
  · exact hcredited

theorem receiveConnecting (h : Lasting config port App P) (hs : P s) (hst : s.state = .connecting)
    (hq : ¬ s.Reports) {p : Packet} (hport : p.port = port) : P (s.receiveConnecting p).2 := by
  unfold Session.receiveConnecting
  simp only
  split
  · rename_i hrole
    split
    · exact hs
    split
    · exact hs
    · obtain ⟨inFlight, oldest, hfields⟩ := acknowledge_fields s p.header.ack
      have hcredited := h.acknowledge hs (fun _ => hrole) p.header.ack
      have hgreeted : P ((s.acknowledge p.header.ack).greeted p.header.relSeq) :=
        h.welcomes p.header.relSeq hcredited (by rw [hfields]; exact hst) (by rw [hfields]; exact hrole)
      refine h.postAck (h.moveTo hgreeted) ?_
      obtain ⟨events, hmoved⟩ := moveTo_fields
        (({ s.acknowledge p.header.ack with expected := p.header.relSeq } : Session).arrive
          p.header.relSeq).advance .connected
      rw [hmoved]
      exact .inl rfl
  · rename_i hrole
    have hmoved : P (s.moveTo .connected) := h.moveTo (h.connects hs hst hrole)
    have hmovedq : ¬ (s.moveTo .connected).Reports :=
      fun e => hq ((TakesNothing.reports_moveTo s .connected).1 e)
    have hopen : (s.moveTo .connected).Open := by
      obtain ⟨events, he⟩ := moveTo_fields s .connected
      rw [he]
      exact .inl rfl
    split
    · split
      · exact hs
      · exact h.post hs (.welcoming hst hrole)
    split
    · exact hs
    split
    · exact h.receiveOpen hmoved hopen hmovedq hport
    · exact h.acknowledge hmoved (not_connecting_of_open hopen) _

theorem receive (h : Lasting config port App P) (hs : P s) (hq : ¬ s.Reports) {p : Packet}
    (hport : p.port = port) : P (s.receive p).2 := by
  unfold Session.receive
  split
  · exact h.discard_disconnected hs
  split
  · rename_i hst
    exact h.receiveConnecting hs hst hq hport
  · rename_i hst
    exact h.receiveOpen hs (.inl hst) hq hport
  · rename_i hst
    exact h.receiveOpen hs (.inr hst) hq hport
  · exact hs
  · exact hs

/-! ## Properties together -/

/-- Two properties that last, last together. -/
theorem and {P' : Session → Prop} (h : Lasting config port App P) (h' : Lasting config port App P') :
    Lasting config port App fun s => P s ∧ P' s where
  begins now hs hflags hroom := ⟨h.begins now hs hflags hroom, h'.begins now hs hflags hroom⟩
  raises hs he := ⟨h.raises hs.1 he, h'.raises hs.2 he⟩
  connects hs hst hrole := ⟨h.connects hs.1 hst hrole, h'.connects hs.2 hst hrole⟩
  welcomes relSeq hs hst hrole := ⟨h.welcomes relSeq hs.1 hst hrole, h'.welcomes relSeq hs.2 hst hrole⟩
  absorbs hs hopen hq hport hnear hnew hpush := ⟨h.absorbs hs.1 hopen hq hport hnear hnew hpush,
    h'.absorbs hs.2 hopen hq hport hnear hnew hpush⟩
  parts hs hopen := ⟨h.parts hs.1 hopen, h'.parts hs.2 hopen⟩
  resets hs := ⟨h.resets hs.1, h'.resets hs.2⟩
  ends hs := ⟨h.ends hs.1, h'.ends hs.2⟩
  posts hs hp hroom := ⟨h.posts hs.1 hp hroom, h'.posts hs.2 hp hroom⟩
  resends hs hpos he hroom := ⟨h.resends hs.1 hpos he hroom, h'.resends hs.2 hpos he hroom⟩
  credits oldest hs hf hrole := ⟨h.credits oldest hs.1 hf hrole, h'.credits oldest hs.2 hf hrole⟩
  recounts hs hf := ⟨h.recounts hs.1 hf, h'.recounts hs.2 hf⟩
  dispatches now hs hroom hne hps hqs :=
    ⟨h.dispatches now hs.1 hroom hne hps hqs, h'.dispatches now hs.2 hroom hne hps hqs⟩
  closes now hs hst hroom := ⟨h.closes now hs.1 hst hroom, h'.closes now hs.2 hst hroom⟩

end Lasting

/-- What the owner is to be told of a session is about the session itself. -/
theorem lasting_plain (config : Config) (port : UInt8) (App : Packet → Prop) :
    Lasting config port App fun s => ∀ e ∈ s.events, e.Plain := by
  have hraises : ∀ {s : Session} {e : Event}, (∀ e ∈ s.events, e.Plain) → e.Plain →
      ∀ e' ∈ (s.raise e).events, e'.Plain := by
    intro s e hs he x hx
    rcases (mem_events_raise s e x).1 hx with hx | rfl
    · exact hs x hx
    · exact he
  exact {
    begins := by
      rintro s flags now ⟨_, _, _, _, _, rfl⟩ - - e he
      exact absurd he List.not_mem_nil
    raises := hraises
    connects := fun hs _ _ => hs
    welcomes := fun _ hs _ _ => hs
    absorbs := by
      intro s p q hs _ _ _ _ _ _
      unfold Session.absorb
      simp only
      split
      · exact hraises (s := (({ s with inbound := q } : Session).arrive p.header.relSeq).advance) hs
          fun _ _ => by simp
      · exact hs
    parts := fun hs _ => hs
    resets := fun hs => hs
    ends := fun hs => hs
    posts := fun hs _ _ => hs
    resends := fun hs _ _ _ => hs
    credits := fun _ hs _ _ => hs
    recounts := fun hs _ => hs
    dispatches := by
      intro s ps qs now hs _ _ _ _
      exact hraises (s := { s with
        nextSeq := _
        inFlight := _
        outbound := _ }) hs fun _ _ => by simp
    closes := fun _ hs _ _ => hs }

end Session

end NarrowLink.Connection

import NarrowLink.Proofs.Exchange.Moves
import NarrowLink.Proofs.Exchange.Steps
import NarrowLink.Proofs.Exchange.Sweep
import NarrowLink.Proofs.Queue.Contents
import NarrowLink.Proofs.Queue.Single

/-!
# Sessions and their books

`Books` says that a session is what a ledger says of it: its numbers are the bytes of the ledger's
counts, and its queues hold what the ledger lists.  Each step that the operations of a session are
made of changes the session as one of the moves changes the ledger: posting a packet (`Posts`),
hearing an acknowledgement (`Books.acknowledge`, `Books.acknowledgeRanges`), and taking a number
(`Books.advance`).
-/

namespace NarrowLink.Connection

open Wire

/-- The session is what the ledger says. -/
structure Books (t : Terms) (x : Role) (s : Session) (g : Ledger) : Prop where
  config : s.config = t.config
  role : s.role = x
  localPort : s.localPort = t.port x
  remotePort : s.remotePort = t.port x.peer
  options : s.options = t.options x
  nextSeq : s.nextSeq = Serial.forward 0 g.sent.length
  expected : s.expected = Serial.forward 0 g.intake.reached
  outbound : s.outbound.Holds (t.port x.peer) (g.queue.map Parcel.packet)
  oldest : g.alive = true → s.oldestUnacked = Serial.forward 0 g.known.reached
  flights : g.alive = true →
    s.inFlight.flights.map (fun f => some f.packet) = g.flying.map fun n => g.sent[n]?
  early : g.alive = true → ∀ n, g.intake.reached ≤ n → n < g.intake.reached + 256 →
    (s.early.get (Serial.forward 0 n) = true ↔ g.intake.early n)

/-- Where a connection stands, in its state and in its books. -/
structure Phase (x : Role) (s : Session) (g : Ledger) : Prop where
  alive : s.isWaiting = g.alive
  dead : g.alive = false → s.inFlight.flights = []
  connecting : s.state = .connecting → g.sent.length = 1 ∧ g.bulk = 1 ∧ g.known.reached = 0 ∧
    (x = .initiator → g.intake.reached = 0 ∧ ∀ n, ¬ g.intake.early n)
  connected : s.state = .connected → 0 < g.sent.length ∧ g.sent.length = g.bulk
  disconnecting : s.state = .disconnecting → g.sent.length = g.bulk + 1
  resetting : s.state = .resetting → g.queue.length ≤ 1 ∧
    ∀ p ∈ g.queue, p.packet.header.flags.rst = true

variable {t : Terms} {x : Role} {s s' : Session} {g gy : Ledger} {out back : List Parcel}

/-- What has been raised, and what the state is called, is not in the books. -/
theorem Books.congr (h : Books t x s g) (state : State) (events : List Event) :
    Books t x { s with state := state, events := events } g :=
  { h with }

theorem Books.raise (h : Books t x s g) (e : Event) : Books t x (s.raise e) g := by
  obtain ⟨events, he⟩ := raise_fields s e
  rw [he]
  exact h.congr s.state events

theorem Books.moveTo (h : Books t x s g) (state : State) : Books t x (s.moveTo state) g := by
  obtain ⟨events, he⟩ := moveTo_fields s state
  rw [he]
  exact h.congr state events

/-! ## Posting a packet -/

/-- The packet goes to its place in the queue. -/
theorem Books.add (h : Books t x s g) (hfits : ∀ q ∈ g.queue, q.Fits t x g.sent) {p : Parcel}
    (hport : p.packet.port = t.port x.peer)
    (hrel : p.packet.header.relSeq = Serial.forward 0 p.number) :
    ∃ front rear, g.queue = front ++ rear ∧
      (∀ y ∈ rear, Serial.precedes (Serial.forward (0 : UInt8) p.number)
        (Serial.forward 0 y.number) = true) ∧
      (∀ z, front.getLast? = some z → Serial.precedes (Serial.forward (0 : UInt8) p.number)
        (Serial.forward 0 z.number) = false) ∧
      (s.outbound.add p.packet).Holds (t.port x.peer)
        ((front ++ p :: rear).map Parcel.packet) := by
  obtain ⟨front', rear', hsplit, hins, hrear, hfront⟩ :=
    Order.reliability.insert_split p.packet (g.queue.map Parcel.packet)
  obtain ⟨front, rear, hq, rfl, rfl⟩ := List.map_eq_append_iff.1 hsplit
  have hnumber : ∀ y ∈ g.queue, y.packet.header.relSeq = Serial.forward 0 y.number :=
    fun y hy => (hfits y hy).relSeq
  refine ⟨front, rear, hq, ?_, ?_, ?_⟩
  · intro y hy
    have := hrear y.packet (List.mem_map_of_mem hy)
    rwa [Order.precedes, hrel, hnumber y (by rw [hq]; exact List.mem_append_right _ hy)] at this
  · intro z hz
    have := hfront z.packet (by rw [List.getLast?_map, hz]; rfl)
    rwa [Order.precedes, hrel,
      hnumber z (by rw [hq]; exact List.mem_append_left _ (List.mem_of_getLast? hz))] at this
  · have := h.outbound.add hport
    rw [hins] at this
    simpa using this

/-- The session `s'` is `s` with some packets posted, and its books are sound. -/
def Posts (t : Terms) (x : Role) (s s' : Session) (g gy : Ledger) (out back : List Parcel) : Prop :=
  ∃ queue outbound events, s' = { s with outbound := outbound, events := events } ∧
    Books t x s' { g with queue := queue } ∧ Sound t x { g with queue := queue } gy out back

theorem Posts.refl (hb : Books t x s g) (hs : Sound t x g gy out back) :
    Posts t x s s g gy out back :=
  ⟨g.queue, s.outbound, s.events, rfl, hb, hs⟩

theorem Posts.trans {s'' : Session} (h : Posts t x s s' g gy out back)
    (h' : ∀ queue, Books t x s' { g with queue := queue } →
      Sound t x { g with queue := queue } gy out back →
      Posts t x s' s'' { g with queue := queue } gy out back) :
    Posts t x s s'' g gy out back := by
  obtain ⟨queue, outbound, events, rfl, hb, hs⟩ := h
  obtain ⟨queue', outbound', events', rfl, hb', hs'⟩ := h' queue hb hs
  exact ⟨queue', outbound', events', rfl, hb', hs'⟩

/-- A packet that fits is posted if there is room, and has no effect otherwise. -/
theorem Posts.post (hb : Books t x s g) (hs : Sound t x g gy out back) {p : Parcel}
    (hfits : p.Fits t x g.sent) (hintake : p.intake = g.intake)
    (hnear : ¬ p.Parts → g.intake.reached ≤ g.told + 127)
    (hparts : p.Parts → gy.sent.length = gy.bulk + 1 ∧ gy.bulk < g.intake.reached)
    (hnum : p.number ≤ g.sent.length)
    (hcounts : p.Counts → g.alive = true ∧ g.known.reached ≤ p.number)
    (hshows : ¬ p.Counts → p.number = g.sent.length) :
    Posts t x s (s.post p.packet) g gy out back := by
  unfold Session.post
  cases hpush : s.outbound.push p.packet with
  | error e => exact Posts.refl hb hs
  | ok q =>
    obtain ⟨hroom, rfl⟩ := Queue.push_eq_ok_iff.1 hpush
    obtain ⟨front, rear, hq, hrear, hfront, hholds⟩ :=
      hb.add hs.tidy.queue_fits hfits.port_eq hfits.relSeq
    have hgone := hs.tidy.gone_le
    have hfloor := hs.tidy.floor_le
    have hsorted : (front ++ p :: rear).Pairwise fun q r => q.Counts → q.number ≤ r.number := by
      by_cases hc : p.Counts
      · obtain ⟨ha, hlow⟩ := hcounts hc
        obtain ⟨q, hpq, -⟩ := hfits.copy hc
        have hlt := (List.getElem?_eq_some_iff.1 hpq).1
        exact hs.tidy.insert_sorted ha hq hlow hnum (fun e => by omega) hrear hfront
      · exact hs.tidy.insert_shown hq hc (hshows hc)
    obtain ⟨events', hr⟩ := raise_fields { s with outbound := s.outbound.add p.packet }
      (.outboundAvailable s.localPort)
    simp only
    rw [hr]
    refine ⟨front ++ p :: rear, s.outbound.add p.packet, events', rfl, ?_, ?_⟩
    · exact { hb with outbound := hholds }
    · refine hs.enqueue hq hfits hintake hnear hparts hnum (fun hc => ?_) (fun hc => ?_) hsorted
      · have := (hcounts hc).2
        omega
      · rw [hshows hc]
        exact hgone

/-- A packet that shows the next number without being given it. -/
theorem Posts.shown (hb : Books t x s g) (hs : Sound t x g gy out back) {flags : Flags}
    {payload : List UInt8}
    (hflags : flags = .acknowledging ∨ flags = .reporting ∨ flags = .parting ∨ flags = .resetting)
    (hreport : flags = .reporting → (t.options x).selectiveAck = true ∧
      ∀ ranges, Sack.decode payload = .ok ranges → ∀ r ∈ ranges, ∀ b,
        Serial.inRange b r.1 r.2 = true → ∃ n, g.intake.early n ∧ b = Serial.forward 0 n)
    (hnear : flags ≠ .parting → g.intake.reached ≤ g.told + 127)
    (hparts : flags = .parting → gy.sent.length = gy.bulk + 1 ∧ gy.bulk < g.intake.reached) :
    Posts t x s (s.post (s.packet flags s.nextSeq payload)) g gy out back := by
  have hcounts : ¬ (Parcel.mk (s.packet flags s.nextSeq payload) g.sent.length g.intake).Counts := by
    unfold Parcel.Counts
    show ¬ (flags.syn = true ∨ flags.data = true ∨ flags = .closing)
    rcases hflags with rfl | rfl | rfl | rfl <;> decide
  refine Posts.post hb hs (p := ⟨s.packet flags s.nextSeq payload, g.sent.length, g.intake⟩)
    ⟨?_, ?_, ?_, fun hc => absurd hc hcounts, fun _ => hflags, hreport⟩ rfl hnear hparts
    (Nat.le_refl _) (fun hc => absurd hc hcounts) fun _ => rfl
  · exact hb.remotePort
  · exact hb.nextSeq
  · exact hb.expected

/-- What lies beyond the gap is what the report lists. -/
theorem Books.gapRanges (hb : Books t x s g) (ha : g.alive = true)
    (hwindow : t.config.window ≤ 256) {r : UInt8 × UInt8} (hr : r ∈ s.gapRanges) {b : UInt8}
    (hin : Serial.inRange b r.1 r.2 = true) :
    ∃ n, g.intake.early n ∧ b = Serial.forward 0 n := by
  have hearly := Session.early_of_mem_rangesFrom s.early s.config.window s.expected none
    (by simp) (by rw [hb.config]; exact hwindow) hr hin
  have hd := Serial.distance_lt s.expected b
  have he : b = Serial.forward 0 (g.intake.reached + Serial.distance s.expected b) := by
    rw [Serial.forward_add, ← hb.expected, Serial.forward_distance]
  refine ⟨_, (hb.early ha _ (Nat.le_add_right _ _) ?_).1 (he ▸ hearly), he⟩
  simp only [Serial.half] at hd
  omega

theorem pairs_of_decode {ranges ranges' : List (UInt8 × UInt8)}
    (h : Sack.decode (Sack.encode ranges) = .ok ranges') : ranges' = ranges := by
  unfold Sack.encode Sack.decode at h
  simp only at h
  split at h
  · rw [Sack.pairs_endsOf] at h
    exact (Except.ok.inj h).symm
  · cases h

theorem Posts.gapReport (hb : Books t x s g) (hs : Sound t x g gy out back) (ha : g.alive = true)
    (hwindow : t.config.window ≤ 256) : Posts t x s s.postGapReport g gy out back := by
  unfold Session.postGapReport Session.gapReport
  by_cases hgap : (s.hasGap && s.options.selectiveAck) = true
  · rw [if_pos hgap]
    rw [Bool.and_eq_true, hb.options] at hgap
    refine Posts.shown hb hs (.inr (.inl rfl)) (fun _ => ⟨hgap.2, ?_⟩)
      (fun _ => hs.reached_near ha) fun e => by cases e
    intro ranges hdec r hr b hin
    rw [pairs_of_decode hdec] at hr
    exact hb.gapRanges ha hwindow hr hin
  · rw [if_neg hgap]
    exact Posts.refl hb hs

/-- An acknowledgement, with a report where there is something to report. -/
theorem Posts.ack (hb : Books t x s g) (hs : Sound t x g gy out back) (ha : g.alive = true)
    (hwindow : t.config.window ≤ 256) : Posts t x s s.postAck g gy out back := by
  have hpure : Posts t x s (s.post (s.packet .acknowledging s.nextSeq [])) g gy out back :=
    Posts.shown hb hs (.inl rfl) (fun e => by cases e) (fun _ => hs.reached_near ha)
      fun e => by cases e
  exact hpure.trans fun queue hb' hs' => Posts.gapReport hb' hs' ha hwindow

/-! ## Hearing an acknowledgement -/

theorem map_filter_congr {α β γ : Type} {f : α → γ} {f' : β → γ} {p : α → Bool} {p' : β → Bool}
    {as : List α} {bs : List β} (h : as.map f = bs.map f')
    (hp : ∀ a ∈ as, ∀ b ∈ bs, f a = f' b → p a = p' b) :
    (as.filter p).map f = (bs.filter p').map f' := by
  induction as generalizing bs with
  | nil =>
    obtain rfl := List.map_eq_nil_iff.1 h.symm
    rfl
  | cons a as ih =>
    cases bs with
    | nil => cases h
    | cons b bs =>
      obtain ⟨hab, hrest⟩ := List.cons.inj h
      have hpab := hp a List.mem_cons_self b List.mem_cons_self hab
      have := ih hrest fun a ha b hb =>
        hp a (List.mem_cons_of_mem _ ha) b (List.mem_cons_of_mem _ hb)
      rw [List.filter_cons, List.filter_cons, hpab]
      split
      · rw [List.map_cons, List.map_cons, hab, this]
      · exact this

/-- Taking packets out of flight by the bytes of their numbers. -/
theorem Books.filter (hb : Books t x s g)
    (hshape : ∀ n q, g.sent[n]? = some q → q.header.relSeq = Serial.forward 0 n)
    (ha : g.alive = true) (keep : UInt8 → Bool) :
    (s.inFlight.flights.filter fun e => keep e.packet.header.relSeq).map
        (fun e => some e.packet) =
      (g.flying.filter fun n => keep (Serial.forward 0 n)).map fun n => g.sent[n]? := by
  refine map_filter_congr (hb.flights ha) fun e _ n _ he => ?_
  rw [hshape n e.packet he.symm]

/-- A number from what is known on up to the next one acknowledges some of what was sent. -/
theorem Books.inRange (hb : Books t x s g) (ha : g.alive = true) {n : Nat}
    (hlow : g.known.reached ≤ n) (hhigh : n ≤ g.sent.length)
    (hspan : g.sent.length < g.known.reached + 256) :
    Serial.inRange (Serial.forward (0 : UInt8) n) s.oldestUnacked s.nextSeq = true := by
  unfold Serial.inRange
  rw [decide_eq_true_eq, hb.oldest ha, hb.nextSeq,
    Serial.distance_forward _ hlow (by simp only [Serial.half]; omega),
    Serial.distance_forward _ (Nat.le_trans hlow hhigh) (by simp only [Serial.half]; omega)]
  omega

/-- An acknowledgement takes out of flight what its sender had taken in sequence, unless it is older
than what is known already. -/
theorem Books.acknowledge (hb : Books t x s g) (hs : Sound t x g gy out back) (ha : g.alive = true)
    {i : Intake} (hi : gy.past i) (htold : i.reached ≤ gy.told)
    (hknown : g.known.reached ≤ i.reached + 127)
    (hback : ∀ p ∈ back, i.reached ≤ p.intake.reached + 127) :
    ∃ known flying, known.reached = max g.known.reached i.reached ∧ flying.Sublist g.flying ∧
      Books t x (s.acknowledge (Serial.forward 0 i.reached))
        { g with known := known, flying := flying } ∧
      Sound t x { g with known := known, flying := flying } gy out back := by
  have hlen := hs.tidy.length_le
  have hreached := hs.flow.past_reached_le hi
  have hgone := hs.flow.reached_le_gone
  have hgonele := hs.tidy.gone_le
  have hknownle := hs.tidy.known_le
  rcases Nat.lt_or_ge i.reached g.known.reached with hold | hnew
  · -- an old acknowledgement lies too far ahead of the oldest number to be among those sent
    have hrange : Serial.inRange (Serial.forward (0 : UInt8) i.reached) s.oldestUnacked s.nextSeq =
        false := by
      unfold Serial.inRange
      rw [decide_eq_false_iff_not, hb.oldest ha, hb.nextSeq,
        Serial.distance_forward_back _ hold (by simp only [Serial.half]; omega),
        Serial.distance_forward _ hknownle (by simp only [Serial.half]; omega)]
      simp only [Serial.half]
      omega
    have hsame : s.acknowledge (Serial.forward 0 i.reached) = s := by
      unfold Session.acknowledge
      rw [if_neg (by rw [hrange]; simp)]
    rw [hsame]
    exact ⟨g.known, g.flying, by omega, List.Sublist.refl _, hb, hs⟩
  · have hrange := hb.inRange ha hnew (by omega) (by omega)
    have hprec : ∀ n ∈ g.flying, Serial.precedes (Serial.forward (0 : UInt8) n)
        (Serial.forward 0 i.reached) = true ↔ n < i.reached := by
      intro n hn
      have := hs.tidy.flying_mem n hn
      have := hs.tidy.span
      have := hs.tidy.le_bulk
      exact Serial.precedes_forward_iff _ (by simp only [Serial.half]; omega)
        (by simp only [Serial.half]; omega)
    let flying := g.flying.filter fun n =>
      !Serial.precedes (Serial.forward (0 : UInt8) n) (Serial.forward 0 i.reached)
    have hmem : ∀ n, n ∈ flying ↔ n ∈ g.flying ∧ i.reached ≤ n := by
      intro n
      rw [List.mem_filter, Bool.not_eq_true', ← Bool.not_eq_true]
      constructor
      · rintro ⟨hn, hp⟩
        exact ⟨hn, by rw [hprec n hn] at hp; omega⟩
      · rintro ⟨hn, hp⟩
        exact ⟨hn, by rw [hprec n hn]; omega⟩
    have hremoved : ∀ n ∈ g.flying, n ∉ flying → n < i.reached := by
      intro n hn hnf
      by_contra hge
      exact hnf ((hmem n).2 ⟨hn, by omega⟩)
    obtain ⟨known, hmax, hs'⟩ := hs.hear ha hi htold hback flying
      List.filter_sublist (fun n hn => ((hmem n).1 hn).2)
      (fun n hn hnf => .inl (hremoved n hn hnf)) fun _ n hn hnf => hremoved n hn hnf
    refine ⟨known, flying, hmax, List.filter_sublist, ?_, hs'⟩
    unfold Session.acknowledge
    rw [if_pos hrange]
    have hkr : known.reached = i.reached := by omega
    exact {
      hb with
      oldest := fun _ => by rw [hkr]
      flights := fun _ => hb.filter (fun n q hq => (hs.tidy.sent_shape n q hq).1) ha fun b =>
        !Serial.precedes b (Serial.forward 0 i.reached) }

/-- A report takes out of flight what its sender had taken early. -/
theorem Books.acknowledgeRanges (hb : Books t x s g) (hs : Sound t x g gy out back)
    (ha : g.alive = true) {i : Intake} (hi : gy.past i) (htold : i.reached ≤ gy.told)
    (hknown : i.reached ≤ g.known.reached) (hnear : g.known.reached ≤ i.reached + 127)
    (hback : ∀ p ∈ back, i.reached ≤ p.intake.reached + 127)
    (hwindow : t.config.window ≤ 128) (hselective : (t.options x.peer).selectiveAck = true)
    {ranges : List (UInt8 × UInt8)}
    (hranges : ∀ r ∈ ranges, ∀ b, Serial.inRange b r.1 r.2 = true →
      ∃ n, i.early n ∧ b = Serial.forward 0 n) :
    ∃ known flying, known.reached = g.known.reached ∧ flying.Sublist g.flying ∧
      Books t x (s.acknowledgeRanges ranges) { g with known := known, flying := flying } ∧
      Sound t x { g with known := known, flying := flying } gy out back := by
  let keep : UInt8 → Bool := fun b => !ranges.any fun r => Serial.inRange b r.1 r.2
  let flying := g.flying.filter fun n => keep (Serial.forward 0 n)
  have hlen := hs.tidy.length_le
  have hgone := hs.flow.took_gone
  have hgonele := hs.tidy.gone_le
  -- a packet whose byte is listed was taken, as the counts are less than a turn apart
  have hremoved : ∀ n ∈ g.flying, n ∉ flying → i.took n := by
    intro n hn hnf
    have hk : keep (Serial.forward 0 n) = false := by
      rw [← Bool.not_eq_true]
      exact fun hk => hnf (List.mem_filter.2 ⟨hn, hk⟩)
    simp only [keep, Bool.not_eq_false', List.any_eq_true] at hk
    obtain ⟨r, hr, hin⟩ := hk
    obtain ⟨m, hm, he⟩ := hranges r hr _ hin
    have hmv := hs.flow.valid i hi m hm
    have hmg := hgone m (hs.flow.latest i hi m (.inr hm))
    have hnm := hs.tidy.flying_mem n hn
    have : n = m := Serial.forward_inj (0 : UInt8) (by simp only [Serial.half]; omega)
      (by simp only [Serial.half]; omega) he
    rw [this]
    exact .inr hm
  obtain ⟨known, hmax, hs'⟩ := hs.hear ha hi htold hback flying List.filter_sublist
    (fun n hn => Nat.le_trans hknown
      (hs.tidy.flying_mem n (List.filter_sublist.subset hn)).1)
    hremoved (fun hsel => by rw [hselective] at hsel; cases hsel)
  have hkr : known.reached = g.known.reached := by omega
  refine ⟨known, flying, hkr, List.filter_sublist, ?_, hs'⟩
  exact {
    hb with
    oldest := fun _ => by rw [hkr]; exact hb.oldest ha
    flights := fun _ => by
      show ((ranges.foldl (fun f r => f.acknowledgeWithin r.1 r.2) s.inFlight).flights).map _ = _
      rw [InFlight.flights_foldl_acknowledgeWithin]
      exact hb.filter (fun n q hq => (hs.tidy.sent_shape n q hq).1) ha keep }

/-! ## Taking a number -/

/-- The books with one more number taken. -/
def Ledger.take (g : Ledger) (i : Intake) : Ledger :=
  { g with intake := i, past := fun j => g.past j ∨ j = i }

/-- What has arrived with a number in the window, counted from what is expected on. -/
theorem Books.early_set (hb : Books t x s g) (ha : g.alive = true) {m : Nat}
    (hlow : g.intake.reached ≤ m) (hhigh : m < g.intake.reached + 256) {n : Nat}
    (hn : g.intake.reached ≤ n) (hn' : n < g.intake.reached + 256) :
    (s.early.set (Serial.forward 0 m) true).get (Serial.forward 0 n) = true ↔
      g.intake.early n ∨ n = m := by
  rw [ByteMap.get_set]
  split
  · rename_i he
    have : m = n := Serial.forward_inj (0 : UInt8) (by simp only [Serial.half]; omega)
      (by simp only [Serial.half]; omega) he
    simp [this]
  · rename_i hne
    rw [hb.early ha n hn hn']
    exact ⟨.inl, fun h => h.resolve_right fun e => hne (by rw [e])⟩

/-- The sweep over what has arrived, in counts: it passes the `k` numbers that have arrived in sequence,
and leaves what lies beyond the gap. -/
theorem Books.sweep (hb : Books t x s g) (ha : g.alive = true) (hwindow : t.config.window ≤ 128)
    (hvalid : g.intake.Valid t.config.window) {m : Nat} (hlow : g.intake.reached ≤ m)
    (hhigh : m < g.intake.reached + t.config.window) :
    ∃ k ≤ t.config.window,
      (s.arrive (Serial.forward 0 m)).advance.expected = Serial.forward 0 (g.intake.reached + k) ∧
      (∀ j < k, g.intake.early (g.intake.reached + j) ∨ g.intake.reached + j = m) ∧
      ¬ (g.intake.early (g.intake.reached + k) ∨ g.intake.reached + k = m) ∧
      ∀ n, g.intake.reached + k ≤ n → n < g.intake.reached + k + 256 →
        ((s.arrive (Serial.forward 0 m)).advance.early.get (Serial.forward 0 n) = true ↔
          g.intake.early n ∨ n = m) := by
  let now : ByteMap Bool := s.early.set (Serial.forward 0 m) true
  have hnow : ∀ n, g.intake.reached ≤ n → n < g.intake.reached + 256 →
      (now.get (Serial.forward 0 n) = true ↔ g.intake.early n ∨ n = m) :=
    fun n hn hn' => hb.early_set ha hlow (by omega) hn hn'
  have hnowhigh : ∀ n, g.intake.early n ∨ n = m → n < g.intake.reached + t.config.window := by
    rintro n (hn | rfl)
    · exact (hvalid n hn).2
    · exact hhigh
  obtain ⟨k, hk, hend, hrun, hstop, hrest⟩ :=
    Session.runFrom_spec 256 (Nat.le_refl _) now s.expected
  have hforward : ∀ j, Serial.forward s.expected j = Serial.forward 0 (g.intake.reached + j) := by
    intro j
    rw [hb.expected, Serial.forward_add]
  have hpassed : ∀ j < k, j < 256 → g.intake.early (g.intake.reached + j) ∨
      g.intake.reached + j = m := by
    intro j hj hj'
    exact (hnow _ (by omega) (by omega)).1 (hforward j ▸ hrun j hj)
  have hkw : k ≤ t.config.window := by
    by_contra hlt
    have := hnowhigh _ (hpassed t.config.window (by omega) (by omega))
    omega
  refine ⟨k, hkw, hend.trans (hforward k), fun j hj => hpassed j hj (by omega), fun h => ?_,
    fun n hn hn' => ?_⟩
  · have := (hnow _ (by omega) (by omega)).2 h
    rw [← hforward, hstop (by omega)] at this
    cases this
  show (Session.runFrom 256 now s.expected).1.get (Serial.forward 0 n) = true ↔ _
  rw [hrest]
  by_cases hturn : n < g.intake.reached + 256
  · rw [hnow n (by omega) hturn]
    refine ⟨fun h => h.1, fun h => ⟨h, fun j hj e => ?_⟩⟩
    rw [hforward] at e
    have := Serial.forward_inj (0 : UInt8) (by simp only [Serial.half]; omega)
      (by simp only [Serial.half]; omega) e
    omega
  · -- one turn later the bytes are those of the numbers that were passed
    have hbyte : Serial.forward (0 : UInt8) n =
        Serial.forward s.expected (n - 256 - g.intake.reached) := by
      have hround := Serial.forward_turn (Serial.forward (0 : UInt8) (n - 256))
      have hturned : n - 256 + 2 * Serial.half UInt8 = n := by
        show n - 256 + 256 = n
        omega
      rw [hforward, Nat.add_sub_cancel' (by omega), ← hround, ← Serial.forward_add, hturned]
    constructor
    · rintro ⟨-, h⟩
      exact absurd hbyte (h _ (by omega))
    · intro h
      have := hnowhigh n h
      omega

/-- A number in the window arrives, and what follows it in sequence is passed. -/
theorem Books.arrive (hb : Books t x s g) (ha : g.alive = true) (hwindow : t.config.window ≤ 128)
    (hvalid : g.intake.Valid t.config.window) {m : Nat} (hlow : g.intake.reached ≤ m)
    (hhigh : m < g.intake.reached + t.config.window) :
    ∃ i : Intake, g.intake.reached ≤ i.reached ∧
      i.reached ≤ g.intake.reached + t.config.window ∧ i.Valid t.config.window ∧
      (∀ n, i.took n ↔ g.intake.took n ∨ n = m) ∧
      Books t x (s.arrive (Serial.forward 0 m)).advance (g.take i) := by
  obtain ⟨k, hk, hexpected, hpassed, hmissing, hearly⟩ := hb.sweep ha hwindow hvalid hlow hhigh
  refine ⟨⟨g.intake.reached + k, fun n => (g.intake.early n ∨ n = m) ∧ g.intake.reached + k ≤ n⟩,
    Nat.le_add_right _ _, Nat.add_le_add_left hk _, ?_, fun n => ⟨?_, fun h => ?_⟩, ?_⟩
  · rintro n ⟨h, hle⟩
    have hne : n ≠ g.intake.reached + k := fun e => hmissing (e ▸ h)
    have hlt : n < g.intake.reached + t.config.window := by
      rcases h with h | rfl
      · exact (hvalid n h).2
      · exact hhigh
    simp only at hle ⊢
    omega
  · rintro (hlt | ⟨h, -⟩)
    · by_cases hn : n < g.intake.reached
      · exact .inl (.inl hn)
      · simp only at hlt
        have := hpassed (n - g.intake.reached) (by omega)
        rw [Nat.add_sub_cancel' (by omega)] at this
        exact this.imp .inr id
    · exact h.imp .inr id
  · by_cases hn : n < g.intake.reached + k
    · exact .inl hn
    · refine .inr ⟨?_, by omega⟩
      rcases h with (hlt | h) | h
      · omega
      · exact .inl h
      · exact .inr h
  · exact {
      hb with
      expected := hexpected
      early := by
        intro _ n hn hn'
        rw [hearly n hn hn']
        exact ⟨fun h => ⟨h, hn⟩, fun h => h.1⟩ }

/-- A number in the window is taken, and what follows it in sequence is passed. -/
theorem Books.advance (hb : Books t x s g) (hs : Sound t x g gy out back) (ha : g.alive = true)
    (hwindow : t.config.window ≤ 128) {m : Nat} (hlow : g.intake.reached ≤ m)
    (hhigh : m < g.intake.reached + t.config.window) (hgone : m < gy.gone) (hbulk : m < gy.bulk)
    (hnear : ∀ p ∈ back, p.Counts → m < p.number + 128) :
    ∃ i : Intake, g.intake.reached ≤ i.reached ∧
      i.reached ≤ g.intake.reached + t.config.window ∧
      (∀ n, i.took n ↔ g.intake.took n ∨ n = m) ∧
      Books t x (s.arrive (Serial.forward 0 m)).advance (g.take i) ∧
      Sound t x (g.take i) gy out back := by
  obtain ⟨i, hle, hle', hi, htook, hb'⟩ :=
    hb.arrive ha hwindow (hs.flow_peer.valid _ hs.flow_peer.current) hlow hhigh
  exact ⟨i, hle, hle', htook, hb', hs.intake (fun n hn => (htook n).2 (.inl hn)) hi
    (fun n hn => (htook n).1 hn) hgone (fun _ => hbulk) hnear⟩

end NarrowLink.Connection

import NarrowLink.Proofs.Exchange.Actions

/-!
# Sending messages

The fragments of a message get the next numbers (`Stands.send`).  As long as the window is not too
large for the numbers (`Terms.Tame`), these never run more than half the number space ahead of what the
peer is known to have taken (`Sound.room`).
-/

namespace NarrowLink.Connection

open Wire

/-- The window is small enough for the numbers: a peer that reports gaps lets another window of
packets follow the ones that it reports. -/
def Terms.Tame (t : Terms) (x : Role) : Prop :=
  t.config.window + (if (t.options x.peer).selectiveAck then t.config.window - 1 else 0) ≤ 127

theorem Terms.tame_of_window {t : Terms} (h : t.config.window ≤ 64) (x : Role) : t.Tame x := by
  unfold Terms.Tame
  split <;> omega

theorem Terms.tame_of_plain {t : Terms} {x : Role} (h : t.config.window ≤ 127)
    (hplain : (t.options x.peer).selectiveAck = false) : t.Tame x := by
  unfold Terms.Tame
  rw [hplain, if_neg Bool.false_ne_true]
  exact h

variable {t : Terms} {x : Role} {s : Session} {g gy : Ledger} {out back : List Parcel}

/-- If some numbers cover what is not in flight of the recent ones, there are no more recent ones. -/
theorem Ledger.length_le_of_subset (g : Ledger) {c : Finset Nat}
    (hc : Finset.Ico g.known.reached g.sent.length ⊆ g.flying.toFinset ∪ c) :
    g.sent.length ≤ g.known.reached + (g.flying.length + c.card) := by
  have hle := Nat.le_trans (Finset.card_le_card hc) (Finset.card_union_le _ _)
  rw [Nat.card_Ico] at hle
  have := g.flying.toFinset_card_le
  omega

/-- What the window admits does not run more than half the number space ahead of what the peer is known
to have taken: packets that are not in flight any more were taken early, so they lie in a window. -/
theorem Sound.room (hs : Sound t x g gy out back) (ha : g.alive = true) (htame : t.Tame x)
    (hpos : 0 < t.config.window) {k : Nat} (hk : g.flying.length + k ≤ t.config.window) :
    g.sent.length + k ≤ g.known.reached + 127 := by
  unfold Terms.Tame at htame
  cases hsel : (t.options x.peer).selectiveAck with
  | false =>
    have := g.length_le_of_subset (c := ∅) fun n hn => by
      obtain ⟨hlow, hlt⟩ := Finset.mem_Ico.1 hn
      rw [Finset.union_empty, List.mem_toFinset]
      exact hs.flow.known_plain hsel ha n hlow hlt
    rw [Finset.card_empty] at this
    rw [hsel, if_neg Bool.false_ne_true] at htame
    omega
  | true =>
    have := g.length_le_of_subset
      (c := Finset.Ioo g.known.reached (g.known.reached + t.config.window)) fun n hn => by
        obtain ⟨hlow, hlt⟩ := Finset.mem_Ico.1 hn
        rw [Finset.mem_union, List.mem_toFinset, Finset.mem_Ioo]
        refine or_iff_not_imp_left.2 fun hnf => ?_
        exact hs.flow.valid _ hs.flow.known_past n (hs.flow.known_early ha n hlow hlt hnf)
    rw [Nat.card_Ioo] at this
    rw [hsel, if_pos rfl] at htame
    omega

/-! ## Numbers for a message -/

/-- The packets are data for a port, with numbers from `n` on, that acknowledge the same number. -/
def Stamped (port ack : UInt8) : UInt8 → List Packet → Prop
  | _, [] => True
  | n, p :: ps =>
    p.port = port ∧ p.header.flags = .carrying ∧ p.header.relSeq = n ∧ p.header.ack = ack ∧
      Stamped port ack (Serial.next n) ps

theorem fits_cons {q : Queue} {p : Packet} {ps : List Packet}
    (h : q.fits (wireLengths (p :: ps)) = true) :
    q.push p = .ok (q.add p) ∧ (q.add p).fits (wireLengths ps) = true := by
  unfold Queue.fits at h
  rw [decide_eq_true_eq, wireLengths_cons] at h
  refine ⟨Queue.push_eq_ok_iff.2 ⟨by omega, rfl⟩, ?_⟩
  unfold Queue.fits Queue.add
  rw [decide_eq_true_eq]
  simp only
  omega

/-- Stamped packets go out under the numbers that they carry. -/
theorem Books.launch {n : UInt8} {ps : List Packet} (hb : Books t x { s with nextSeq := n } g)
    (hs : Sound t x g gy out back) (ha : g.alive = true) (hopen : g.sent.length = g.bulk)
    (hpos : 0 < g.sent.length) (hspan : g.sent.length + ps.length ≤ g.known.reached + 127)
    (hst : Stamped s.remotePort s.expected n ps) (hroom : s.outbound.fits (wireLengths ps) = true)
    (now : Nat) :
    ∃ outbound f g', s.launch now ps = (.ok (), { s with inFlight := f, outbound := outbound }) ∧
      f.flights = s.inFlight.flights ++ ps.map (fun p => ⟨p, now, 0⟩) ∧
      Books t x
        { s with nextSeq := Serial.forward n ps.length, inFlight := f, outbound := outbound } g' ∧
      Sound t x g' gy out back ∧ g'.sent = g.sent ++ ps ∧ g'.bulk = g.bulk + ps.length ∧
      g'.intake = g.intake ∧ g'.alive = true := by
  induction ps generalizing s n g with
  | nil => exact ⟨s.outbound, s.inFlight, g, rfl, by simp, hb, hs, by simp, rfl, rfl, ha⟩
  | cons p ps ih =>
    obtain ⟨hport, hflags, hrel, hack, hrest⟩ := hst
    obtain ⟨hpush, hroom'⟩ := fits_cons hroom
    rw [List.length_cons] at hspan
    have hcarry : p.header.flags = flagsOf x (g.bulk + 1) g.sent.length := by
      rw [hflags]
      unfold flagsOf
      rw [if_neg (by omega), if_pos (by omega)]
    obtain ⟨queue, hb', hs'⟩ := hb.issue hs ha hopen (g.bulk + 1) (.inl rfl) (by omega) now
      (hport.trans hb.remotePort) hrel hack hcarry fun e => by omega
    have hlen : (g.issue (g.bulk + 1) p queue).sent.length = g.sent.length + 1 := by
      simp [Ledger.issue]
    obtain ⟨outbound, f, g', hlaunch, hf, hb'', hs'', hsent, hbulk, hi, ha'⟩ :=
      ih (s := { s with inFlight := s.inFlight.push p now, outbound := s.outbound.add p })
        (n := Serial.next n) hb' hs' ha (by rw [hlen, hopen]; rfl) (by omega)
        (by rw [hlen]; simp only [Ledger.issue]; omega) hrest hroom'
    refine ⟨outbound, f, g', ?_, ?_, ?_, hs'', ?_, ?_, hi, ha'⟩
    · unfold Session.launch
      simp only
      rw [hpush]
      exact hlaunch
    · rw [hf]
      simp [InFlight.push]
    · rw [List.length_cons, ← Serial.forward_next]
      exact hb''
    · rw [hsent]
      simp [Ledger.issue]
    · rw [hbulk, List.length_cons]
      simp only [Ledger.issue]
      omega

/-- Stamping numbers packets, and neither what an application sees of them nor how long they are
changes. -/
theorem stamp_spec (s : Session) (ps : List Packet) :
    ∃ qs, s.stamp ps = (qs, { s with nextSeq := Serial.forward s.nextSeq ps.length }) ∧
      ∀ numbers, Stamped s.remotePort s.expected s.nextSeq (numberFragments numbers qs) ∧
        (numberFragments numbers qs).map Piece.of = (numberFragments numbers ps).map Piece.of ∧
        wireLengths (numberFragments numbers qs) = wireLengths ps ∧
        (numberFragments numbers qs).length = ps.length := by
  induction ps generalizing s with
  | nil =>
    refine ⟨[], rfl, fun numbers => ?_⟩
    cases numbers <;> exact ⟨trivial, rfl, rfl, rfl⟩
  | cons p ps ih =>
    obtain ⟨qs, hstamp, hnumbers⟩ := ih { s with nextSeq := Serial.next s.nextSeq }
    refine ⟨s.stamped s.nextSeq p :: qs, ?_, fun numbers => ?_⟩
    · unfold Session.stamp
      simp only
      rw [hstamp, List.length_cons, ← Serial.forward_next]
    cases numbers with
    | nil =>
      obtain ⟨hst, hpieces, hwire, hlen⟩ := hnumbers []
      simp only [numberFragments] at hst hpieces hwire hlen ⊢
      refine ⟨⟨rfl, rfl, rfl, rfl, hst⟩, ?_, ?_, ?_⟩
      · rw [List.map_cons, List.map_cons, hpieces]
        rfl
      · rw [wireLengths_cons, wireLengths_cons, hwire]
        rfl
      · rw [List.length_cons, List.length_cons, hlen]
    | cons n ns =>
      obtain ⟨hst, hpieces, hwire, hlen⟩ := hnumbers ns
      simp only [numberFragments]
      refine ⟨⟨rfl, rfl, rfl, rfl, hst⟩, ?_, ?_, ?_⟩
      · rw [List.map_cons, List.map_cons, hpieces]
        rfl
      · rw [wireLengths_cons, wireLengths_cons, hwire]
        rfl
      · rw [List.length_cons, List.length_cons, hlen]

/-- Room for a report beside other packets is room for these after the report. -/
theorem fits_postGapReport (s : Session) (n : Nat)
    (h : s.outbound.fits (n + (s.gapReport.map Packet.wireLength).getD 0) = true) :
    s.postGapReport.outbound.fits n = true := by
  unfold Session.postGapReport
  unfold Queue.fits at h
  rw [decide_eq_true_eq] at h
  cases hr : s.gapReport with
  | none =>
    show s.outbound.fits n = true
    unfold Queue.fits
    rw [decide_eq_true_eq]
    omega
  | some r =>
    rw [hr, Option.map_some, Option.getD_some] at h
    have hpush : s.outbound.push r = .ok (s.outbound.add r) :=
      Queue.push_eq_ok_iff.2 ⟨by omega, rfl⟩
    obtain ⟨events, he⟩ := raise_fields { s with outbound := s.outbound.add r }
      (.outboundAvailable s.localPort)
    simp only [Session.post, hpush]
    rw [he]
    unfold Queue.fits Queue.add
    rw [decide_eq_true_eq]
    simp only
    omega

/-- A message is refused, or its fragments get the next numbers. -/
theorem Stands.send (h : Stands t x s g gy out back) (htame : t.Tame x)
    (hpos : 0 < t.config.window) (ps : List Packet) (numbers : List UInt8) (now : Nat) :
    (∃ e, s.send ps now (fun ps => (numberFragments numbers ps, ())) = (.error e, s)) ∨
      ∃ s', s.send ps now (fun ps => (numberFragments numbers ps, ())) = (.ok (), s') ∧
        g.sent.length = g.bulk ∧ Acts t x s s' g gy out back ((numberFragments numbers ps).map Piece.of) := by
  unfold Session.send
  cases hadmits : s.admits ps with
  | error e => exact .inl ⟨e, rfl⟩
  | ok =>
    right
    obtain ⟨hst, hwindow, hfits⟩ := admits_eq_ok hadmits
    have ha := h.phase.alive_of_state (.inl hst)
    have hw : t.config.window ≤ 127 := Nat.le_trans (Nat.le_add_right _ _) htame
    rw [h.books.config, h.books.length_flights ha] at hwindow
    have hspan := h.sound.room ha htame hpos hwindow
    obtain ⟨hlen, hopen⟩ := h.phase.connected hst
    have hroom := fits_postGapReport s _ hfits
    obtain ⟨queue, outbound, events, he, h₁⟩ := h.posts (by rw [hst]; decide)
      (Posts.gapReport h.books h.sound ha (by omega))
    rw [he] at hroom h₁ ⊢
    let s₁ : Session := { s with outbound := outbound, events := events }
    obtain ⟨qs, hstamp, hnumbers⟩ := stamp_spec { s with outbound := outbound, events := events } ps
    obtain ⟨hstamped, hpieces, hwire, hqlen⟩ := hnumbers numbers
    rw [← hwire] at hroom
    rw [← hqlen] at hspan
    let s₂ : Session := { s₁ with nextSeq := Serial.forward s₁.nextSeq ps.length }
    obtain ⟨outbound', f, g', hlaunch, hf, hb, hs, hsent, hbulk, hi, ha'⟩ :=
      h₁.books.launch (s := s₂) h₁.sound ha hopen hlen hspan hstamped hroom now
    obtain ⟨events', hr⟩ := raise_fields { s₂ with inFlight := f, outbound := outbound' }
      (.outboundAvailable s.localPort)
    simp only at hsent hbulk hi hopen
    simp only [hstamp]
    rw [hlaunch]
    refine ⟨_, rfl, hopen, g', ?_, hi, ?_⟩
    · simp only
      rw [hr]
      refine ⟨⟨?_, ?_, hs⟩, .none hi (ha'.trans ha.symm) rfl, ?_⟩
      · rw [hqlen] at hb
        exact { hb with }
      · refine Phase.of_connected ha' hst ?_ ?_ <;>
          (rw [hsent, List.length_append]; omega)
      · show g'.sent = g.sent ++ (f.flights.drop s.inFlight.flights.length).map Flight.packet
        rw [hf, hsent, List.drop_left, List.map_map]
        exact congrArg _ (List.map_id _).symm
    · unfold Ledger.pieces
      rw [hsent, hbulk, ← hopen, List.take_length, ← List.length_append, List.take_length,
        List.drop_append_of_le_length hlen, List.map_append, hpieces]

end NarrowLink.Connection

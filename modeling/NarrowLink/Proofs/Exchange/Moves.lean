import Mathlib.Data.List.Basic
import Mathlib.Order.Interval.Finset.Nat
import NarrowLink.Proofs.Exchange.Ledger

/-!
# What changes the books

The books of a connection change in few ways: an end queues a packet (`Sound.enqueue`), gives a packet
a number (`Sound.issue`), learns what its peer has taken (`Sound.learn`), takes a number
(`Sound.intake`), ends (`Sound.die`), or has its queue taken (`Sound.take`); and a packet leaves the
link (`Sound.drop`).  Each of them keeps the books sound.
-/

namespace NarrowLink.Connection

open Wire

variable {t : Terms} {x : Role} {gx gy : Ledger} {out back : List Parcel}

/-! ## Bounds that follow -/

theorem Intake.reached_le_of_took {i : Intake} {n : Nat} (h : ∀ m, i.took m → m < n) :
    i.reached ≤ n := by
  by_contra hlt
  have := h n (.inl (by omega))
  omega

/-- What the peer has taken in sequence was sent. -/
theorem Flow.reached_le_gone (h : Flow t x gx gy out back) : gy.intake.reached ≤ gx.gone :=
  Intake.reached_le_of_took h.took_gone

theorem Flow.past_reached_le (h : Flow t x gx gy out back) {i : Intake} (hi : gy.past i) :
    i.reached ≤ gy.intake.reached :=
  Intake.reached_le (h.latest i hi) (h.valid _ h.current)

/-- Since its queue was taken last, a living end has passed less than half the number space. -/
theorem Sound.reached_near (h : Sound t x gx gy out back) (ha : gx.alive = true) :
    gx.intake.reached ≤ gx.told + 127 := by
  have hbulk := Intake.reached_le_of_took (h.flow_peer.took_bulk ha)
  have hspan := h.tidy_peer.span
  have htold := h.flow_peer.known_told
  omega

/-- The numbers that may be in flight span at most half the number space. -/
theorem Tidy.length_le (h : Tidy t x gx) : gx.sent.length ≤ gx.known.reached + 128 := by
  have := h.le_bulk
  have := h.span
  omega

/-! ## Where the queue puts a packet -/

/-- What a packet does not precede has no higher number. -/
theorem Tidy.le_of_not_precedes (h : Tidy t x gx) {p y : Parcel} (hlow : gx.known.reached ≤ p.number)
    (hy : y.number ≤ gx.sent.length)
    (hf : Serial.precedes (Serial.forward (0 : UInt8) p.number) (Serial.forward 0 y.number) = false) :
    y.number ≤ p.number := by
  have hlen := h.length_le
  by_contra hlt
  rw [(Serial.precedes_forward_iff (0 : UInt8) (by simp only [Serial.half]; omega)
    (by simp only [Serial.half]; omega)).2 (by omega)] at hf
  cases hf

/-- The queue puts no packet with a lower number behind a packet with a number of its own. -/
theorem Tidy.insert_behind (h : Tidy t x gx) (ha : gx.alive = true) {p y : Parcel}
    {front rear : List Parcel} (hq : gx.queue = front ++ rear)
    (hlow : gx.known.reached ≤ p.number) (hhigh : p.number ≤ gx.sent.length)
    (hopen : p.number = gx.sent.length → gx.sent.length = gx.bulk)
    (hrear : ∀ y ∈ rear, Serial.precedes (Serial.forward (0 : UInt8) p.number)
      (Serial.forward 0 y.number) = true) (hy : y ∈ rear) : p.number ≤ y.number := by
  have hlen := h.length_le
  have hfloor := h.floor_le
  have hgone := h.gone_near
  have hyq : y ∈ gx.queue := by
    rw [hq]
    exact List.mem_append_right _ hy
  by_contra hlt
  -- so far behind that the byte looks ahead
  have hfar : y.number + 128 ≤ p.number := by
    by_contra hnear
    have := (Serial.precedes_forward_iff (0 : UInt8) (by simp only [Serial.half]; omega)
      (by simp only [Serial.half]; omega)).1 (hrear y hy)
    omega
  -- a packet that was given its number since the queue was taken stands before all later ones
  have hnew : ∀ n, gx.gone ≤ n → n < gx.sent.length → n ≤ p.number → p.number ≤ n + 1 → False := by
    intro n hn hn' hle hle'
    have hsorted := h.queue_sorted
    rw [hq, List.pairwise_append] at hsorted
    obtain ⟨k, hk, hkc, rfl⟩ := h.queue_new ha n hn hn'
    rw [hq] at hk
    rcases List.mem_append.1 hk with hk | hk
    · have := hsorted.2.2 k hk y hy hkc
      omega
    · have := (Serial.precedes_forward_iff (0 : UInt8) (by simp only [Serial.half]; omega)
        (by simp only [Serial.half]; omega)).1 (hrear k hk)
      omega
  by_cases hp : p.number < gx.gone
  · by_cases hc : y.Counts
    · have := h.queue_counts y hyq hc
      omega
    · have := h.queue_shows y hyq hc
      omega
  by_cases hp' : p.number < gx.sent.length
  · exact hnew p.number (by omega) hp' (by omega) (by omega)
  by_cases hgone' : gx.gone < gx.sent.length
  · exact hnew (gx.sent.length - 1) (by omega) (by omega) (by omega) (by omega)
  by_cases hc : y.Counts
  · have := h.queue_counts y hyq hc
    have := h.gone_near_open (hopen (by omega))
    omega
  · have := h.queue_shows y hyq hc
    omega

/-- The queue puts a packet with a number of its own in order: behind all lower numbers, and before
all higher ones. -/
theorem Tidy.insert_sorted (h : Tidy t x gx) (ha : gx.alive = true) {p : Parcel}
    {front rear : List Parcel} (hq : gx.queue = front ++ rear)
    (hlow : gx.known.reached ≤ p.number) (hhigh : p.number ≤ gx.sent.length)
    (hopen : p.number = gx.sent.length → gx.sent.length = gx.bulk)
    (hrear : ∀ y ∈ rear, Serial.precedes (Serial.forward (0 : UInt8) p.number)
      (Serial.forward 0 y.number) = true)
    (hfront : ∀ z, front.getLast? = some z → Serial.precedes (Serial.forward (0 : UInt8) p.number)
      (Serial.forward 0 z.number) = false) :
    (front ++ p :: rear).Pairwise fun q r => q.Counts → q.number ≤ r.number := by
  have hsorted := h.queue_sorted
  rw [hq, List.pairwise_append] at hsorted
  obtain ⟨hsf, hsr, hsfr⟩ := hsorted
  have hupto : ∀ q ∈ front, q.Counts → q.number ≤ p.number := by
    intro q hqf hc
    rcases List.eq_nil_or_concat' front with rfl | ⟨init, z, rfl⟩
    · cases hqf
    have hzq : z ∈ gx.queue := by
      rw [hq]
      simp
    have hz := h.le_of_not_precedes hlow (h.queue_number z hzq) (hfront z (by simp))
    rcases List.mem_append.1 hqf with hin | hlast
    · have := (List.pairwise_append.1 hsf).2.2 q hin z (by simp) hc
      omega
    · rw [List.mem_singleton.1 hlast]
      exact hz
  have hbehind : ∀ y ∈ rear, p.number ≤ y.number :=
    fun y hy => h.insert_behind ha hq hlow hhigh hopen hrear hy
  refine List.pairwise_append.2 ⟨hsf, List.pairwise_cons.2 ⟨fun y hy _ => hbehind y hy, hsr⟩, ?_⟩
  intro q hqf y hy hc
  rcases List.mem_cons.1 hy with rfl | hy
  · exact hupto q hqf hc
  · exact hsfr q hqf y hy hc

/-- A packet that only shows the next number may be anywhere among those before it. -/
theorem Tidy.insert_shown (h : Tidy t x gx) {p : Parcel} {front rear : List Parcel}
    (hq : gx.queue = front ++ rear) (hp : ¬ p.Counts) (hnum : p.number = gx.sent.length) :
    (front ++ p :: rear).Pairwise fun q r => q.Counts → q.number ≤ r.number := by
  have hsorted := h.queue_sorted
  rw [hq, List.pairwise_append] at hsorted
  obtain ⟨hsf, hsr, hsfr⟩ := hsorted
  refine List.pairwise_append.2 ⟨hsf, List.pairwise_cons.2 ⟨fun y _ hc => absurd hc hp, hsr⟩, ?_⟩
  intro q hqf y hy hc
  rcases List.mem_cons.1 hy with rfl | hy
  · rw [hnum]
    exact h.queue_number q (by rw [hq]; exact List.mem_append_left _ hqf)
  · exact hsfr q hqf y hy hc

/-! ## An end queues a packet -/

theorem forall_mem_insert {P : Parcel → Prop} {queue front rear : List Parcel} {p : Parcel}
    (hq : queue = front ++ rear) (hall : ∀ q ∈ queue, P q) (hp : P p) :
    ∀ q ∈ front ++ p :: rear, P q := by
  intro q hqm
  rcases List.mem_append.1 hqm with hf | hr
  · exact hall q (by rw [hq]; exact List.mem_append_left _ hf)
  rcases List.mem_cons.1 hr with rfl | hr
  · exact hp
  · exact hall q (by rw [hq]; exact List.mem_append_right _ hr)

theorem exists_mem_insert {P : Parcel → Prop} {queue front rear : List Parcel} (p : Parcel)
    (hq : queue = front ++ rear) (h : ∃ q ∈ queue, P q) : ∃ q ∈ front ++ p :: rear, P q := by
  obtain ⟨q, hm, hp⟩ := h
  refine ⟨q, ?_, hp⟩
  rw [hq] at hm
  rcases List.mem_append.1 hm with hm | hm
  · exact List.mem_append_left _ hm
  · exact List.mem_append_right _ (List.mem_cons_of_mem _ hm)

theorem Sound.enqueue (h : Sound t x gx gy out back) {p : Parcel} {front rear : List Parcel}
    (hq : gx.queue = front ++ rear) (hfits : p.Fits t x gx.sent) (hintake : p.intake = gx.intake)
    (hnear : ¬ p.Parts → gx.intake.reached ≤ gx.told + 127)
    (hparts : p.Parts → gy.sent.length = gy.bulk + 1 ∧ gy.bulk < gx.intake.reached)
    (hnum : p.number ≤ gx.sent.length)
    (hcounts : p.Counts → gx.floor ≤ p.number) (hshows : ¬ p.Counts → gx.gone ≤ p.number)
    (hsorted : (front ++ p :: rear).Pairwise fun q r => q.Counts → q.number ≤ r.number) :
    Sound t x { gx with queue := front ++ p :: rear } gy out back := by
  have hmem := fun {P : Parcel → Prop} => forall_mem_insert (P := P) hq (p := p)
  obtain ⟨htidy, hpeer, hflow, hback⟩ := h
  refine ⟨?_, hpeer, ?_, ?_⟩
  · exact {
      htidy with
      queue_fits := hmem htidy.queue_fits hfits
      queue_number := hmem htidy.queue_number hnum
      queue_counts := hmem htidy.queue_counts hcounts
      queue_shows := hmem htidy.queue_shows hshows
      queue_sorted := hsorted
      queue_new := fun ha n hn hn' => exists_mem_insert p hq (htidy.queue_new ha n hn hn') }
  · exact { hflow with }
  · exact {
      hback with
      queue_past := hmem hback.queue_past (by
        rw [hintake]
        exact ⟨hback.current, htidy.told_le⟩)
      queue_near := hmem hback.queue_near (by rwa [hintake])
      queue_parts := hmem hback.queue_parts (by rwa [hintake]) }

/-! ## An end gives a packet a number -/

theorem Parcel.Fits.append {sent : List Packet} {p : Parcel} (h : p.Fits t x sent)
    (more : List Packet) : p.Fits t x (sent ++ more) where
  port_eq := h.port_eq
  relSeq := h.relSeq
  ack := h.ack
  copy := by
    intro hc
    obtain ⟨q, hq, hrest⟩ := h.copy hc
    exact ⟨q, List.getElem?_append_left (List.getElem?_eq_some_iff.1 hq).1 ▸ hq, hrest⟩
  control := h.control
  report := h.report

theorem flagsOf_of_lt {bulk bulk' n : Nat} (h : n < bulk) (h' : bulk ≤ bulk') :
    flagsOf x bulk' n = flagsOf x bulk n := by
  unfold flagsOf
  rw [if_pos h, if_pos (Nat.lt_of_lt_of_le h h')]

theorem Parcel.counts_of_flags {p : Parcel} {bulk n : Nat}
    (h : p.packet.header.flags = flagsOf x bulk n) : p.Counts := by
  unfold Parcel.Counts
  rw [h]
  unfold flagsOf
  split
  · left
    cases x <;> rfl
  split
  · exact .inr (.inl rfl)
  · exact .inr (.inr rfl)

theorem Parcel.Counts.not_parts {p : Parcel} (h : p.Counts) : ¬ p.Parts := by
  intro hp
  unfold Parcel.Parts at hp
  rcases h with h | h | h <;> rw [hp] at h <;> cases h

/-- An end that has not begun comes to life. -/
theorem Sound.wake (h : Sound t x gx gy out back) (hs : gx.sent = [])
    (htook : ∀ n, gx.intake.took n → n < gy.bulk) :
    Sound t x { gx with alive := true } gy out back := by
  have hzero : gx.known.reached = 0 := by
    have := h.tidy.known_le
    rw [hs] at this
    exact Nat.le_zero.1 this
  have hnone : ∀ n, ¬ n < gx.sent.length := by rw [hs]; simp
  obtain ⟨htidy, hpeer, hflow, hback⟩ := h
  refine ⟨{ htidy with queue_new := ?_ }, hpeer,
    { hflow with known_early := ?_, known_plain := ?_, back_known := ?_ },
    { hback with took_bulk := fun _ => htook }⟩
  · exact fun _ n _ hn => absurd hn (hnone n)
  · exact fun _ n _ hn => absurd hn (hnone n)
  · exact fun _ _ n _ hn => absurd hn (hnone n)
  · intro _ p _
    rw [hzero]
    omega

/-- The books with one more packet that was given a number. -/
def Ledger.issue (g : Ledger) (bulk : Nat) (p : Packet) (queue : List Parcel) : Ledger :=
  { g with
    sent := g.sent ++ [p]
    bulk := bulk
    flying := g.flying ++ [g.sent.length]
    queue := queue }

/-- A packet that is due the next number: one of those before the packet that closes, or that one. -/
structure Issues (t : Terms) (x : Role) (g : Ledger) (bulk : Nat) (p : Parcel) : Prop where
  isOpen : g.sent.length = g.bulk
  bulk_eq : bulk = g.bulk + 1 ∨ (bulk = g.bulk ∧ 0 < g.bulk)
  span : bulk ≤ g.known.reached + 127
  number_eq : p.number = g.sent.length
  intake_eq : p.intake = g.intake
  port_eq : p.packet.port = t.port x.peer
  relSeq : p.packet.header.relSeq = Serial.forward 0 g.sent.length
  ack : p.packet.header.ack = Serial.forward 0 g.intake.reached
  flags : p.packet.header.flags = flagsOf x bulk g.sent.length
  piece : g.sent.length = 0 → Piece.of p.packet = ⟨[], false, 0⟩

section Issue

variable {bulk : Nat} {p : Parcel} {front rear : List Parcel}

theorem Issues.counts (h : Issues t x gx bulk p) : p.Counts := Parcel.counts_of_flags h.flags

theorem Issues.bulk_le (h : Issues t x gx bulk p) : gx.bulk ≤ bulk := by
  have := h.bulk_eq
  omega

theorem Issues.fits (h : Issues t x gx bulk p) : p.Fits t x (gx.sent ++ [p.packet]) := by
  refine ⟨h.port_eq, h.number_eq ▸ h.relSeq, h.intake_eq ▸ h.ack, fun _ => ⟨p.packet, ?_, rfl, rfl⟩,
    fun hc => absurd h.counts hc, fun hr => ?_⟩
  · rw [h.number_eq, List.getElem?_concat_length]
  · rcases h.counts with hc | hc | hc <;> rw [hr] at hc <;> cases hc

theorem Tidy.issue (ht : Tidy t x gx) (h : Issues t x gx bulk p) (hq : gx.queue = front ++ rear)
    (hsorted : (front ++ p :: rear).Pairwise fun q r => q.Counts → q.number ≤ r.number) :
    Tidy t x (gx.issue bulk p.packet (front ++ p :: rear)) := by
  have hmem := fun {P : Parcel → Prop} => forall_mem_insert (P := P) hq (p := p)
  have hlen : (gx.sent ++ [p.packet]).length = gx.sent.length + 1 := by simp
  have hopen := h.isOpen
  have hbulk := h.bulk_eq
  have hnum := h.number_eq
  have hknown := ht.known_le
  exact {
    sent_shape := by
      intro n q hnq
      by_cases hn : n < gx.sent.length
      · unfold Ledger.issue at hnq
        rw [List.getElem?_append_left hn] at hnq
        obtain ⟨hr, hf, hp⟩ := ht.sent_shape n q hnq
        exact ⟨hr, hf.trans (flagsOf_of_lt (hopen ▸ hn) h.bulk_le).symm, hp⟩
      · have hlt := (List.getElem?_eq_some_iff.1 hnq).1
        have he : n = gx.sent.length := by simp only [Ledger.issue, hlen] at hlt; omega
        subst he
        unfold Ledger.issue at hnq
        rw [List.getElem?_concat_length, Option.some.injEq] at hnq
        subst hnq
        exact ⟨h.relSeq, h.flags, h.piece⟩
    sent_port := by
      intro q hq
      rcases List.mem_append.1 hq with hq | hq
      · exact ht.sent_port q hq
      · rw [List.mem_singleton.1 hq]
        exact h.port_eq
    bulk_pos := fun _ => by simp only [Ledger.issue]; omega
    bulk_le := by simp only [Ledger.issue, hlen]; omega
    le_bulk := by simp only [Ledger.issue, hlen]; omega
    known_le := by simp only [Ledger.issue, hlen]; omega
    span := h.span
    flying_sorted := by
      refine List.pairwise_append.2 ⟨ht.flying_sorted, List.pairwise_singleton _ _, ?_⟩
      intro n hn m hm
      rw [List.mem_singleton.1 hm]
      exact (ht.flying_mem n hn).2
    flying_mem := by
      intro n hn
      simp only [Ledger.issue, hlen]
      rcases List.mem_append.1 hn with hn | hn
      · have := ht.flying_mem n hn
        omega
      · rw [List.mem_singleton.1 hn]
        omega
    floor_le := ht.floor_le
    gone_le := by have := ht.gone_le; simp only [Ledger.issue, hlen]; omega
    gone_near := ht.gone_near
    gone_near_open := fun _ => ht.gone_near_open hopen
    told_le := ht.told_le
    queue_fits := hmem (fun q hq => (ht.queue_fits q hq).append _) h.fits
    queue_number := hmem
      (fun q hq => by have := ht.queue_number q hq; simp only [Ledger.issue, hlen]; omega)
      (by simp only [Ledger.issue, hlen]; omega)
    queue_counts := hmem ht.queue_counts fun _ => by
      have := ht.floor_le
      simp only [Ledger.issue]
      omega
    queue_shows := hmem ht.queue_shows fun hc => absurd h.counts hc
    queue_sorted := hsorted
    queue_new := by
      intro ha n hn hn'
      by_cases he : n = gx.sent.length
      · exact ⟨p, by simp [Ledger.issue], h.counts, hnum.trans he.symm⟩
      · simp only [Ledger.issue, hlen] at hn'
        exact exists_mem_insert p hq (ht.queue_new ha n hn (by omega)) }

theorem Flow.issue (hf : Flow t x gx gy out back) (h : Issues t x gx bulk p) (ha : gx.alive = true)
    (queue : List Parcel) : Flow t x (gx.issue bulk p.packet queue) gy out back := by
  have hopen := h.isOpen
  have hbulk := h.bulk_eq
  have hlen : (gx.sent ++ [p.packet]).length = gx.sent.length + 1 := by simp
  have hfly : ∀ n, n < gx.sent.length + 1 → n ∉ gx.flying ++ [gx.sent.length] →
      n < gx.sent.length ∧ n ∉ gx.flying := by
    intro n hn hnot
    rw [List.mem_append, List.mem_singleton, not_or] at hnot
    exact ⟨by omega, hnot.1⟩
  exact {
    hf with
    took_bulk := fun hy n hn => Nat.lt_of_lt_of_le (hf.took_bulk hy n hn) h.bulk_le
    out_fits := fun q hq => (hf.out_fits q hq).append _
    known_early := by
      intro _ n hlow hn hnf
      simp only [Ledger.issue, hlen] at hn
      obtain ⟨hn, hnf⟩ := hfly n hn hnf
      exact hf.known_early ha n hlow hn hnf
    known_plain := by
      intro hs _ n hlow hn
      by_contra hnf
      simp only [Ledger.issue, hlen] at hn
      obtain ⟨hn, hnf⟩ := hfly n hn hnf
      exact hnf (hf.known_plain hs ha n hlow hn)
    back_parts := fun q hq hp => by have := hf.back_parts q hq hp; omega
    queue_parts := fun q hq hp => by have := hf.queue_parts q hq hp; omega }

theorem Flow.issue_peer (hf : Flow t x.peer gy gx back out) (h : Issues t x gx bulk p)
    (htold : gx.told ≤ gx.intake.reached) (hnear : gx.intake.reached ≤ gx.told + 127)
    (hq : gx.queue = front ++ rear) :
    Flow t x.peer gy (gx.issue bulk p.packet (front ++ p :: rear)) back out := by
  have hmem := fun {P : Parcel → Prop} => forall_mem_insert (P := P) hq (p := p)
  exact {
    hf with
    queue_past := hmem hf.queue_past (by
      rw [h.intake_eq]
      exact ⟨hf.current, htold⟩)
    queue_near := hmem hf.queue_near fun _ => by rwa [h.intake_eq]
    queue_parts := hmem hf.queue_parts fun hp => absurd hp h.counts.not_parts }

/-- A packet is given the next number, put in flight and queued. -/
theorem Sound.issue (hs : Sound t x gx gy out back) (ha : gx.alive = true) (h : Issues t x gx bulk p)
    (hq : gx.queue = front ++ rear)
    (hrear : ∀ y ∈ rear, Serial.precedes (Serial.forward (0 : UInt8) p.number)
      (Serial.forward 0 y.number) = true)
    (hfront : ∀ z, front.getLast? = some z → Serial.precedes (Serial.forward (0 : UInt8) p.number)
      (Serial.forward 0 z.number) = false) :
    Sound t x (gx.issue bulk p.packet (front ++ p :: rear)) gy out back := by
  have hsorted := hs.tidy.insert_sorted ha hq (h.number_eq ▸ hs.tidy.known_le)
    (Nat.le_of_eq h.number_eq) (fun _ => h.isOpen) hrear hfront
  exact ⟨hs.tidy.issue h hq hsorted, hs.tidy_peer, hs.flow.issue h ha _,
    hs.flow_peer.issue_peer h hs.tidy.told_le (hs.reached_near ha) hq⟩

end Issue

/-! ## An end learns what its peer has taken -/

theorem Sound.learn (h : Sound t x gx gy out back) {known : Intake} {flying : List Nat}
    (hpast : gy.past known) (hle : gx.known ≤ known) (htold : known.reached ≤ gy.told)
    (hback : ∀ p ∈ back, known.reached ≤ p.intake.reached + 127)
    (hsub : flying.Sublist gx.flying) (hlow : ∀ n ∈ flying, known.reached ≤ n)
    (hgone : ∀ n ∈ gx.flying, n ∉ flying → known.took n)
    (hplain : (t.options x.peer).selectiveAck = false → ∀ n ∈ gx.flying, n ∉ flying →
      n < known.reached) :
    Sound t x { gx with known := known, flying := flying } gy out back := by
  have hreached := Intake.reached_le hle (h.flow.valid _ hpast)
  have hgonele := h.flow.reached_le_gone
  have hcur := h.flow.past_reached_le hpast
  obtain ⟨htidy, hpeer, hflow, hback'⟩ := h
  refine ⟨?_, hpeer, ?_, { hback' with }⟩
  · exact {
      htidy with
      known_le := by have := htidy.gone_le; simp only; omega
      span := by have := htidy.span; simp only; omega
      flying_sorted := htidy.flying_sorted.sublist hsub
      flying_mem := fun n hn => ⟨hlow n hn, (htidy.flying_mem n (hsub.subset hn)).2⟩
      floor_le := by have := htidy.floor_le; simp only; omega }
  · exact {
      hflow with
      known_past := hpast
      known_early := by
        intro ha n hn hn' hnf
        simp only at hn hnf ⊢
        by_cases hf : n ∈ gx.flying
        · rcases hgone n hf hnf with hlt | hearly
          · omega
          · exact hearly
        · have := hflow.known_early ha n (by omega) hn' hf
          exact Intake.early_of_le hle (.inr this) hn
      known_plain := by
        intro hs ha n hn hn'
        simp only at hn ⊢
        by_contra hnf
        have := hplain hs n (hflow.known_plain hs ha n (by omega) hn') hnf
        omega
      known_told := htold
      back_known := fun _ => hback }

/-- What is learned from a packet that arrives: its end had taken `i` when it stamped the packet. -/
theorem Sound.hear (h : Sound t x gx gy out back) (ha : gx.alive = true) {i : Intake}
    (hi : gy.past i) (htold : i.reached ≤ gy.told)
    (hback : ∀ p ∈ back, i.reached ≤ p.intake.reached + 127) (flying : List Nat)
    (hsub : flying.Sublist gx.flying) (hlow : ∀ n ∈ flying, i.reached ≤ n)
    (hgone : ∀ n ∈ gx.flying, n ∉ flying → i.took n)
    (hplain : (t.options x.peer).selectiveAck = false → ∀ n ∈ gx.flying, n ∉ flying →
      n < i.reached) :
    ∃ known, known.reached = max gx.known.reached i.reached ∧
      Sound t x { gx with known := known, flying := flying } gy out back := by
  rcases h.flow.chain _ _ h.flow.known_past hi with hle | hle
  · have hr := Intake.reached_le hle (h.flow.valid _ hi)
    exact ⟨i, by omega, h.learn hi hle htold hback hsub hlow hgone hplain⟩
  · have hr := Intake.reached_le hle (h.flow.valid _ h.flow.known_past)
    refine ⟨gx.known, by omega, h.learn h.flow.known_past (Intake.le_refl _) h.flow.known_told
      (h.flow.back_known ha) hsub ?_ (fun n hn hnf => hle n (hgone n hn hnf)) ?_⟩
    · exact fun n hn => (h.tidy.flying_mem n (hsub.subset hn)).1
    · intro hs n hn hnf
      have := hplain hs n hn hnf
      omega

/-! ## An end takes a number -/

theorem Sound.intake (h : Sound t x gx gy out back) {i : Intake} {m : Nat}
    (hle : gx.intake ≤ i) (hvalid : i.Valid t.config.window)
    (htook : ∀ n, i.took n → gx.intake.took n ∨ n = m) (hgone : m < gy.gone)
    (hbulk : gx.alive = true → m < gy.bulk)
    (hnear : ∀ p ∈ back, p.Counts → m < p.number + 128) :
    Sound t x { gx with intake := i, past := fun j => gx.past j ∨ j = i } gy out back := by
  have hreached := Intake.reached_le hle hvalid
  obtain ⟨htidy, hpeer, hflow, hback⟩ := h
  refine ⟨{ htidy with told_le := Nat.le_trans htidy.told_le hreached }, hpeer, { hflow with }, ?_⟩
  exact {
    hback with
    chain := by
      rintro j k (hj | rfl) (hk | rfl)
      · exact hback.chain j k hj hk
      · exact .inl (Intake.le_trans (hback.latest j hj) hle)
      · exact .inr (Intake.le_trans (hback.latest k hk) hle)
      · exact .inl (Intake.le_refl _)
    valid := by
      rintro j (hj | rfl)
      · exact hback.valid j hj
      · exact hvalid
    current := .inr rfl
    latest := by
      rintro j (hj | rfl)
      · exact Intake.le_trans (hback.latest j hj) hle
      · exact Intake.le_refl _
    took_gone := by
      intro n hn
      rcases htook n hn with hn | rfl
      · exact hback.took_gone n hn
      · exact hgone
    took_bulk := by
      intro ha n hn
      rcases htook n hn with hn | rfl
      · exact hback.took_bulk ha n hn
      · exact hbulk ha
    out_took := by
      intro p hp hc n hn
      rcases htook n hn with hn | rfl
      · exact hback.out_took p hp hc n hn
      · exact hnear p hp hc
    known_past := .inl hback.known_past
    back_past := fun p hp => ⟨.inl (hback.back_past p hp).1, (hback.back_past p hp).2⟩
    queue_past := fun p hp => ⟨.inl (hback.queue_past p hp).1, (hback.queue_past p hp).2⟩ }

/-! ## An end dies, its queue is taken, the link delivers -/

theorem Sound.die (h : Sound t x gx gy out back) {queue : List Parcel}
    (hq : queue.Sublist gx.queue) :
    Sound t x { gx with alive := false, queue := queue } gy out back := by
  obtain ⟨htidy, hpeer, hflow, hback⟩ := h
  refine ⟨?_, hpeer, ?_, ?_⟩
  · exact {
      htidy with
      queue_fits := fun p hp => htidy.queue_fits p (hq.subset hp)
      queue_number := fun p hp => htidy.queue_number p (hq.subset hp)
      queue_counts := fun p hp => htidy.queue_counts p (hq.subset hp)
      queue_shows := fun p hp => htidy.queue_shows p (hq.subset hp)
      queue_sorted := htidy.queue_sorted.sublist hq
      queue_new := by simp }
  · exact { hflow with known_early := by simp, known_plain := by simp, back_known := by simp }
  · exact {
      hback with
      took_bulk := by simp
      queue_past := fun p hp => hback.queue_past p (hq.subset hp)
      queue_near := fun p hp => hback.queue_near p (hq.subset hp)
      queue_parts := fun p hp => hback.queue_parts p (hq.subset hp) }

/-- The books after the queue was taken. -/
def Ledger.flush (g : Ledger) : Ledger :=
  { g with
    queue := []
    floor := g.known.reached
    gone := g.sent.length
    told := g.intake.reached }

theorem Tidy.flush (ht : Tidy t x gx) : Tidy t x gx.flush where
  sent_shape := ht.sent_shape
  sent_port := ht.sent_port
  bulk_pos := ht.bulk_pos
  bulk_le := ht.bulk_le
  le_bulk := ht.le_bulk
  known_le := ht.known_le
  span := ht.span
  flying_sorted := ht.flying_sorted
  flying_mem := ht.flying_mem
  floor_le := Nat.le_refl _
  gone_le := Nat.le_refl _
  gone_near := ht.length_le
  gone_near_open := by
    intro hopen
    have := ht.span
    simp only [Ledger.flush] at hopen ⊢
    omega
  told_le := Nat.le_refl _
  queue_fits := by simp [Ledger.flush]
  queue_number := by simp [Ledger.flush]
  queue_counts := by simp [Ledger.flush]
  queue_shows := by simp [Ledger.flush]
  queue_sorted := .nil
  queue_new := fun _ n hn hn' => by simp only [Ledger.flush] at hn hn'; omega

theorem Flow.flush (hf : Flow t x gx gy out back) (ht : Tidy t x gx) :
    Flow t x gx.flush gy (out ++ gx.queue) back := by
  have hlen := ht.length_le
  have hgone := ht.gone_near
  have hcounts : ∀ p ∈ gx.queue, p.Counts → p.number < gx.sent.length := by
    intro p hp hc
    obtain ⟨q, hq, -⟩ := (ht.queue_fits p hp).copy hc
    exact (List.getElem?_eq_some_iff.1 hq).1
  exact {
    hf with
    took_gone := fun n hn => Nat.lt_of_lt_of_le (hf.took_gone n hn) ht.gone_le
    out_fits := by
      intro p hp
      rcases List.mem_append.1 hp with hp | hp
      · exact hf.out_fits p hp
      · exact ht.queue_fits p hp
    out_gone := by
      intro p hp hc
      rcases List.mem_append.1 hp with hp | hp
      · exact Nat.lt_of_lt_of_le (hf.out_gone p hp hc) ht.gone_le
      · exact hcounts p hp hc
    out_near := by
      refine List.pairwise_append.2 ⟨hf.out_near, ?_, ?_⟩
      · refine ht.queue_sorted.imp ?_
        intro p q hpq hp _
        have := hpq hp
        omega
      · intro p hp q hq hpc hqc
        have := hf.out_gone p hp hpc
        have := ht.queue_counts q hq hqc
        omega
    out_took := by
      intro p hp hc n hn
      rcases List.mem_append.1 hp with hp | hp
      · exact hf.out_took p hp hc n hn
      · have := hf.took_gone n hn
        have := ht.queue_counts p hp hc
        omega }

theorem Flow.flush_peer (hf : Flow t x.peer gy gx back out) (htold : gx.told ≤ gx.intake.reached) :
    Flow t x.peer gy gx.flush back (out ++ gx.queue) where
  chain := hf.chain
  valid := hf.valid
  current := hf.current
  latest := hf.latest
  took_gone := hf.took_gone
  took_bulk := hf.took_bulk
  out_fits := hf.out_fits
  out_gone := hf.out_gone
  out_near := hf.out_near
  out_took := hf.out_took
  known_past := hf.known_past
  known_early := hf.known_early
  known_plain := hf.known_plain
  known_told := Nat.le_trans hf.known_told htold
  back_past := by
    intro p hp
    rcases List.mem_append.1 hp with hp | hp
    · exact ⟨(hf.back_past p hp).1, Nat.le_trans (hf.back_past p hp).2 htold⟩
    · exact ⟨(hf.queue_past p hp).1, hf.past_reached_le (hf.queue_past p hp).1⟩
  back_known := by
    intro ha p hp
    rcases List.mem_append.1 hp with hp | hp
    · exact hf.back_known ha p hp
    · have := hf.known_told
      have := (hf.queue_past p hp).2
      omega
  back_near := by
    refine List.pairwise_append.2 ⟨hf.back_near, ?_, ?_⟩
    · refine List.pairwise_of_forall_mem_list ?_
      intro p hp q hq hpp
      have := hf.queue_near p hp hpp
      have := (hf.queue_past q hq).2
      omega
    · intro p hp q hq _
      have := (hf.back_past p hp).2
      have := (hf.queue_past q hq).2
      omega
  back_parts := by
    intro p hp hpp
    rcases List.mem_append.1 hp with hp | hp
    · exact hf.back_parts p hp hpp
    · exact hf.queue_parts p hp hpp
  queue_past := by simp [Ledger.flush]
  queue_near := by simp [Ledger.flush]
  queue_parts := by simp [Ledger.flush]

/-- Everything that waits goes onto the link. -/
theorem Sound.flush (h : Sound t x gx gy out back) :
    Sound t x gx.flush gy (out ++ gx.queue) back :=
  ⟨h.tidy.flush, h.tidy_peer, h.flow.flush h.tidy, h.flow_peer.flush_peer h.tidy.told_le⟩

/-- Packets leave the link. -/
theorem Sound.drop (h : Sound t x gx gy out back) {back' : List Parcel} (hb : back'.Sublist back) :
    Sound t x gx gy out back' := by
  obtain ⟨htidy, hpeer, hflow, hback⟩ := h
  refine ⟨htidy, hpeer, ?_, ?_⟩
  · exact {
      hflow with
      back_past := fun p hp => hflow.back_past p (hb.subset hp)
      back_known := fun ha p hp => hflow.back_known ha p (hb.subset hp)
      back_near := hflow.back_near.sublist hb
      back_parts := fun p hp => hflow.back_parts p (hb.subset hp) }
  · exact {
      hback with
      out_fits := fun p hp => hback.out_fits p (hb.subset hp)
      out_gone := fun p hp => hback.out_gone p (hb.subset hp)
      out_near := hback.out_near.sublist hb
      out_took := fun p hp => hback.out_took p (hb.subset hp) }

end NarrowLink.Connection

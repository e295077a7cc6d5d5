import NarrowLink.Proofs.Session.Room

/-!
# What is on the way between ends that send everything once

If an end neither sends again nor reports, then what it sends is on the way in the order of its numbers, and
so are its acknowledgements (`Streams`).  What is in flight are then the numbers from the last
acknowledgement on, and what the peer takes next is behind all that it has taken.  None of this depends on
how large the window is.
-/

namespace NarrowLink.Connection

open Wire

variable {t : Terms} {x : Role} {s s' : Session} {g g' gx gy : Ledger}
  {link out back : List Parcel} {p : Parcel}

/-! ## What is on the way -/

/-- The packet only acknowledges, or it was given a number; all numbers that were given are below `n`. -/
structure Parcel.Plain (x : Role) (n : Nat) (p : Parcel) : Prop where
  relSeq : p.packet.header.relSeq = Serial.forward 0 p.number
  ack : p.packet.header.ack = Serial.forward 0 p.intake.reached
  le : p.number ≤ n
  flags : p.packet.header.flags = .acknowledging ∨
    (p.packet.header.flags = flagsOf x (p.number + 1) p.number ∧ p.number < n)

/-- What holds of what the end `x` sends to its peer.  Everything on the way, in its queue or on the link,
is `out`, and everything on the way back is `back`. -/
structure Streams (t : Terms) (x : Role) (gx gy : Ledger) (out back : List Parcel) : Prop where
  sent_shape : ∀ n q, gx.sent[n]? = some q → q.header.relSeq = Serial.forward 0 n
  length_le : gx.sent.length ≤ gx.known.reached + t.config.window
  known_le : gx.known.reached ≤ gy.intake.reached
  flying : gx.flying = List.range' gx.known.reached (gx.sent.length - gx.known.reached)
  valid : gy.intake.Valid t.config.window
  took_lt : ∀ n, gy.intake.took n → n < gx.sent.length
  out_plain : ∀ p ∈ out, p.Plain x gx.sent.length
  /-- The numbers ascend. -/
  out_sorted : out.Pairwise fun p q => p.Counts → q.Counts → p.number < q.number
  /-- What is on the way lies behind everything that was taken. -/
  out_new : ∀ p ∈ out, p.Counts → ∀ n, gy.intake.took n → n < p.number
  /-- The acknowledgements ascend. -/
  back_sorted : back.Pairwise fun p q => p.intake.reached ≤ q.intake.reached
  back_known : ∀ p ∈ back, gx.known.reached ≤ p.intake.reached ∧
    p.intake.reached ≤ gy.intake.reached
  queue_last : ∀ z, gx.queue.getLast? = some z → gx.sent.length ≤ z.number + 1

/-- What the peer has passed was sent. -/
theorem Streams.reached_le (h : Streams t x gx gy out back) : gy.intake.reached ≤ gx.sent.length :=
  Intake.reached_le_of_took h.took_lt

theorem Parcel.Plain.mono {n m : Nat} (h : p.Plain x n) (hle : n ≤ m) : p.Plain x m :=
  ⟨h.relSeq, h.ack, Nat.le_trans h.le hle,
    h.flags.imp id fun hf => ⟨hf.1, Nat.lt_of_lt_of_le hf.2 hle⟩⟩

theorem Parcel.Plain.lt {n : Nat} (h : p.Plain x n) (hc : p.Counts) : p.number < n := by
  rcases h.flags with hf | ⟨-, hlt⟩
  · rcases hc with hc | hc | hc <;> rw [hf] at hc <;> cases hc
  · exact hlt

theorem flagsOf_pos (x : Role) {n : Nat} (h : n ≠ 0) : flagsOf x (n + 1) n = .carrying := by
  unfold flagsOf
  rw [if_neg h, if_pos (Nat.lt_succ_self n)]

theorem Parcel.Plain.counts {n : Nat} (h : p.Plain x n)
    (hflags : p.packet.header.flags ≠ .acknowledging) : p.Counts :=
  Parcel.counts_of_flags (h.flags.resolve_left hflags).1

/-- Only the packet that opens asks for a connection. -/
theorem Parcel.Plain.opens {n : Nat} (h : p.Plain x n) (hsyn : p.packet.header.flags.syn = true) :
    p.number = 0 ∧ p.packet.header.flags = flagsOf x 1 0 := by
  rcases h.flags with hf | ⟨hf, -⟩
  · rw [hf] at hsyn
    cases hsyn
  by_cases hz : p.number = 0
  · rw [hz] at hf
    exact ⟨hz, hf⟩
  · rw [hf, flagsOf_pos x hz] at hsyn
    cases hsyn

/-- A packet that does not open acknowledges or carries data. -/
theorem Parcel.Plain.flags_of_not_syn {n : Nat} (h : p.Plain x n)
    (hsyn : p.packet.header.flags.syn = false) :
    p.packet.header.flags = .acknowledging ∨ p.packet.header.flags = .carrying := by
  refine h.flags.imp id fun hf => ?_
  by_cases hz : p.number = 0
  · rw [hf.1, hz] at hsyn
    cases x <;> cases hsyn
  · rw [hf.1, flagsOf_pos x hz]

/-- Everything that the queue holds is older than the next number, so what gets it goes to the end. -/
theorem Streams.inTurn (h : Streams t x gx gy (link ++ gx.queue) back) :
    InTurn (gx.queue.map Parcel.packet) (Serial.forward 0 gx.sent.length) := by
  intro z hz
  rw [List.getLast?_map] at hz
  obtain ⟨q, hq, rfl⟩ := Option.map_eq_some_iff.1 hz
  have hlast := h.queue_last q hq
  have hplain := h.out_plain q (List.mem_append_right _ (List.mem_of_getLast? hq))
  have hle := hplain.le
  rw [hplain.relSeq]
  refine Bool.eq_false_iff.2 fun hp => ?_
  have := (Serial.precedes_forward_iff (0 : UInt8) (by simp only [Serial.half]; omega)
    (by simp only [Serial.half]; omega)).1 hp
  omega

/-! ## What changes the streams -/

/-- An end queues a packet that only acknowledges. -/
theorem Streams.acknowledges (h : Streams t x gx gy out back) (hp : p.Plain x gx.sent.length)
    (hc : ¬ p.Counts) (hnum : p.number = gx.sent.length) :
    Streams t x { gx with queue := gx.queue ++ [p] } gy (out ++ [p]) back := by
  have hmem : ∀ {P : Parcel → Prop}, (∀ q ∈ out, P q) → P p → ∀ q ∈ out ++ [p], P q := by
    intro P hall hp q hq
    rcases List.mem_append.1 hq with hq | hq
    · exact hall q hq
    · rwa [List.mem_singleton.1 hq]
  exact {
    h with
    out_plain := hmem h.out_plain hp
    out_sorted := List.pairwise_append.2 ⟨h.out_sorted, List.pairwise_singleton _ _,
      fun q _ r hr _ hrc => absurd (List.mem_singleton.1 hr ▸ hrc) hc⟩
    out_new := hmem h.out_new fun hc' => absurd hc' hc
    queue_last := by
      intro z hz
      simp only [List.getLast?_concat, Option.some.injEq] at hz
      rw [← hz, hnum]
      exact Nat.le_succ _ }

/-- An end gives a packet the next number, if the window has room for it. -/
theorem Streams.issue (h : Streams t x gx gy out back) (hp : p.Plain x (gx.sent.length + 1))
    (hnum : p.number = gx.sent.length)
    (hroom : gx.sent.length + 1 ≤ gx.known.reached + t.config.window) (bulk : Nat) :
    Streams t x (gx.issue bulk p.packet (gx.queue ++ [p])) gy (out ++ [p]) back := by
  have hlen : (gx.sent ++ [p.packet]).length = gx.sent.length + 1 := by simp
  have hknown : gx.known.reached ≤ gx.sent.length :=
    Nat.le_trans h.known_le h.reached_le
  exact {
    sent_shape := by
      intro n q hq
      by_cases hn : n < gx.sent.length
      · unfold Ledger.issue at hq
        rw [List.getElem?_append_left hn] at hq
        exact h.sent_shape n q hq
      · have hlt := (List.getElem?_eq_some_iff.1 hq).1
        have he : n = gx.sent.length := by simp only [Ledger.issue, hlen] at hlt; omega
        subst he
        unfold Ledger.issue at hq
        rw [List.getElem?_concat_length, Option.some.injEq] at hq
        rw [← hq, hp.relSeq, hnum]
    length_le := by simp only [Ledger.issue, hlen]; omega
    known_le := h.known_le
    flying := by
      simp only [Ledger.issue, hlen]
      rw [h.flying, Nat.sub_add_comm hknown, List.range'_concat, Nat.one_mul,
        Nat.add_sub_cancel' hknown]
    valid := h.valid
    took_lt := fun n hn => by
      have := h.took_lt n hn
      simp only [Ledger.issue, hlen]
      omega
    out_plain := by
      intro q hq
      simp only [Ledger.issue, hlen]
      rcases List.mem_append.1 hq with hq | hq
      · exact (h.out_plain q hq).mono (Nat.le_succ _)
      · rwa [List.mem_singleton.1 hq]
    out_sorted := by
      refine List.pairwise_append.2 ⟨h.out_sorted, List.pairwise_singleton _ _, fun q hq r hr hqc _ => ?_⟩
      rw [List.mem_singleton.1 hr, hnum]
      exact (h.out_plain q hq).lt hqc
    out_new := by
      intro q hq hqc n hn
      rcases List.mem_append.1 hq with hq | hq
      · exact h.out_new q hq hqc n hn
      · rw [List.mem_singleton.1 hq, hnum]
        exact h.took_lt n hn
    back_sorted := h.back_sorted
    back_known := h.back_known
    queue_last := by
      intro z hz
      simp only [Ledger.issue, List.getLast?_concat, Option.some.injEq] at hz
      simp only [Ledger.issue, hlen, ← hz, hnum]
      omega }

/-- What an end queues shows what it has passed by now. -/
theorem Streams.shows (h : Streams t x.peer gy gx back out) (hi : p.intake = gx.intake) :
    ∀ gx' : Ledger, gx'.intake = gx.intake → Streams t x.peer gy gx' back (out ++ [p]) := by
  intro gx' hi'
  exact {
    sent_shape := h.sent_shape
    length_le := h.length_le
    known_le := hi' ▸ h.known_le
    flying := h.flying
    valid := hi' ▸ h.valid
    took_lt := hi' ▸ h.took_lt
    out_plain := h.out_plain
    out_sorted := h.out_sorted
    out_new := hi' ▸ h.out_new
    back_sorted := by
      refine List.pairwise_append.2 ⟨h.back_sorted, List.pairwise_singleton _ _, fun q hq r hr => ?_⟩
      rw [List.mem_singleton.1 hr, hi]
      exact (h.back_known q hq).2
    back_known := by
      intro q hq
      rw [hi']
      rcases List.mem_append.1 hq with hq | hq
      · exact h.back_known q hq
      · rw [List.mem_singleton.1 hq, hi]
        exact ⟨h.known_le, Nat.le_refl _⟩
    queue_last := h.queue_last }

/-- A packet is lost. -/
theorem Streams.lose (h : Streams t x gx gy (p :: out) back) : Streams t x gx gy out back :=
  { h with
    out_plain := fun q hq => h.out_plain q (List.mem_cons_of_mem _ hq)
    out_sorted := (List.pairwise_cons.1 h.out_sorted).2
    out_new := fun q hq => h.out_new q (List.mem_cons_of_mem _ hq) }

/-- What a packet acknowledges is lost with it. -/
theorem Streams.lose_back (h : Streams t x gx gy out (p :: back)) : Streams t x gx gy out back :=
  { h with
    back_sorted := (List.pairwise_cons.1 h.back_sorted).2
    back_known := fun q hq => h.back_known q (List.mem_cons_of_mem _ hq) }

/-- Of what is in flight, an acknowledgement leaves the numbers from the one that it names on. -/
theorem Streams.filter_flying (h : Streams t x gx gy out (p :: back))
    (hwindow : t.config.window ≤ 128) : (gx.flying.filter fun n =>
        !Serial.precedes (Serial.forward (0 : UInt8) n) (Serial.forward 0 p.intake.reached)) =
      List.range' p.intake.reached (gx.sent.length - p.intake.reached) := by
  obtain ⟨hlow, hhigh⟩ := h.back_known p List.mem_cons_self
  have hreached := h.reached_le
  have hlen := h.length_le
  have hprec : ∀ n, gx.known.reached ≤ n → n < gx.sent.length →
      (Serial.precedes (Serial.forward (0 : UInt8) n) (Serial.forward 0 p.intake.reached) = true ↔
        n < p.intake.reached) := fun n hn hn' =>
    Serial.precedes_forward_iff _ (by simp only [Serial.half]; omega)
      (by simp only [Serial.half]; omega)
  have hsplit : gx.flying = List.range' gx.known.reached (p.intake.reached - gx.known.reached) ++
      List.range' p.intake.reached (gx.sent.length - p.intake.reached) := by
    have := List.range'_append_1 (s := gx.known.reached)
      (m := p.intake.reached - gx.known.reached) (n := gx.sent.length - p.intake.reached)
    rw [Nat.add_sub_cancel' hlow] at this
    rw [h.flying, this]
    congr 1
    omega
  rw [hsplit, List.filter_append, List.filter_eq_nil_iff.2, List.filter_eq_self.2, List.nil_append]
  · intro n hn
    rw [List.mem_range'_1] at hn
    rw [Bool.not_eq_true', ← Bool.not_eq_true, hprec n (by omega) (by omega)]
    omega
  · intro n hn
    rw [List.mem_range'_1] at hn
    rw [Bool.not_eq_true', ← Bool.not_eq_true, hprec n (by omega) (by omega)]
    omega

/-- An end hears the next acknowledgement. -/
theorem Streams.hear (h : Streams t x gx gy out (p :: back)) (known : Intake)
    (hknown : known.reached = p.intake.reached) :
    Streams t x { gx with
      known := known
      flying := List.range' known.reached (gx.sent.length - known.reached) } gy out back := by
  obtain ⟨hle, hle'⟩ := h.back_known p List.mem_cons_self
  obtain ⟨hfirst, hrest⟩ := List.pairwise_cons.1 h.back_sorted
  have hlen := h.length_le
  exact {
    h with
    length_le := by simp only; omega
    known_le := by simp only; omega
    flying := rfl
    back_sorted := hrest
    back_known := fun q hq => ⟨hknown ▸ hfirst q hq, (h.back_known q (List.mem_cons_of_mem _ hq)).2⟩ }

/-- An end takes the next number that is on the way to it. -/
theorem Streams.takes {i : Intake} (h : Streams t x.peer gy gx (p :: back) out) (hc : p.Counts)
    (hle : gx.intake.reached ≤ i.reached) (hvalid : i.Valid t.config.window)
    (htook : ∀ n, i.took n → gx.intake.took n ∨ n = p.number) (gx' : Ledger) (hi : gx'.intake = i) :
    Streams t x.peer gy gx' back out := by
  obtain ⟨hfirst, hrest⟩ := List.pairwise_cons.1 h.out_sorted
  exact {
    sent_shape := h.sent_shape
    length_le := h.length_le
    known_le := by rw [hi]; exact Nat.le_trans h.known_le hle
    flying := h.flying
    valid := by rwa [hi]
    took_lt := by
      intro n hn
      rw [hi] at hn
      rcases htook n hn with hn | rfl
      · exact h.took_lt n hn
      · exact (h.out_plain p List.mem_cons_self).lt hc
    out_plain := fun q hq => h.out_plain q (List.mem_cons_of_mem _ hq)
    out_sorted := hrest
    out_new := by
      intro q hq hqc n hn
      rw [hi] at hn
      rcases htook n hn with hn | rfl
      · exact h.out_new q (List.mem_cons_of_mem _ hq) hqc n hn
      · exact hfirst q hq hc hqc
    back_sorted := h.back_sorted
    back_known := fun q hq => by
      have := h.back_known q hq
      rw [hi]
      omega
    queue_last := h.queue_last }

end NarrowLink.Connection

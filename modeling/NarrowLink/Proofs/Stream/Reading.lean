import NarrowLink.Proofs.Wire.Vote
import NarrowLink.Stream.Frame

/-!
# Reading past interruptions

A source that does not fail otherwise than by interruptions (`Steady`) is as good as the bytes it holds
(`content`).  How they are cut into pieces makes no difference.  A read either takes its bytes off the
front, or there are too few of them and it finds the end of the stream.  `readFrame_of_record` and
`readFrame_of_cut` say the same of a whole record.
-/

namespace NarrowLink.Stream.Source

open Wire

/-- The bytes that a source holds. -/
def content : Source → List UInt8
  | [] => []
  | .fault _ :: s => content s
  | .bytes bs :: s => bs ++ content s

/-- Only interruptions get between the bytes of a source. -/
def Steady (s : Source) : Prop := ∀ f, .fault f ∈ s → f = .interrupted

variable {s : Source} {p : Piece} {f : IoFault} {n limit : Nat}

theorem Steady.tail (h : Steady (p :: s)) : s.Steady := fun f hf => h f (List.mem_cons_of_mem p hf)

theorem Steady.head (h : Steady (.fault f :: s)) : f = .interrupted := h f List.mem_cons_self

theorem Steady.cons (h : s.Steady) (bs : List UInt8) : Steady (.bytes bs :: s) := fun f hf =>
  h f ((List.mem_cons.1 hf).resolve_left nofun)

/-! ## Bytes -/

theorem take_of_le (h : s.Steady) (hn : n ≤ s.content.length) :
    ∃ s', s.take n = (.ok (s.content.take n), s') ∧ s'.Steady ∧ s'.content = s.content.drop n := by
  induction s generalizing n with
  | nil =>
    have hzero : n = 0 := Nat.le_zero.1 hn
    subst hzero
    exact ⟨[], rfl, h, rfl⟩
  | cons p s ih =>
    cases p with
    | fault f =>
      cases h.head
      by_cases hzero : n = 0
      · subst hzero
        exact ⟨.fault .interrupted :: s, by rw [Source.take, if_pos rfl]; rfl, h, rfl⟩
      · obtain ⟨s', htake, hs', hcontent⟩ := ih h.tail hn
        exact ⟨s', by rw [Source.take, if_neg hzero, if_pos rfl]; exact htake, hs', hcontent⟩
    | bytes bs =>
      rw [content] at hn ⊢
      by_cases hfits : n ≤ bs.length
      · refine ⟨.bytes (bs.drop n) :: s, ?_, h.tail.cons _, ?_⟩
        · rw [Source.take, if_pos hfits, List.take_append_of_le_length hfits]
        · rw [content, List.drop_append_of_le_length hfits]
      · have hlater : n - bs.length ≤ (content s).length := by
          rw [List.length_append] at hn
          omega
        obtain ⟨s', htake, hs', hcontent⟩ := ih h.tail hlater
        refine ⟨s', ?_, hs', ?_⟩
        · rw [Source.take, if_neg hfits, htake, List.take_append,
            List.take_of_length_le (Nat.le_of_not_le hfits)]
        · rw [hcontent, List.drop_append, List.drop_eq_nil_of_le (Nat.le_of_not_le hfits),
            List.nil_append]

theorem take_of_lt (h : s.Steady) (hn : s.content.length < n) :
    ∃ s', s.take n = (.error .unexpectedEof, s') := by
  have hzero : n ≠ 0 := Nat.ne_zero_of_lt hn
  induction s generalizing n with
  | nil => exact ⟨[], by rw [Source.take, if_neg hzero]⟩
  | cons p s ih =>
    cases p with
    | fault f =>
      cases h.head
      rw [Source.take, if_neg hzero, if_pos rfl]
      exact ih h.tail hn hzero
    | bytes bs =>
      rw [content, List.length_append] at hn
      obtain ⟨s', htake⟩ := ih (n := n - bs.length) h.tail (by omega) (by omega)
      exact ⟨s', by rw [Source.take, if_neg (by omega), htake]⟩

theorem takeOne_of_nil (h : s.Steady) (hs : s.content = []) :
    ∃ s', s.takeOne = (.ok none, s') := by
  induction s with
  | nil => exact ⟨[], rfl⟩
  | cons p s ih =>
    cases p with
    | fault f =>
      cases h.head
      rw [takeOne, if_pos rfl]
      exact ih h.tail hs
    | bytes bs =>
      rw [content, List.append_eq_nil_iff] at hs
      obtain ⟨rfl, hs⟩ := hs
      exact ih h.tail hs

theorem takeOne_of_cons {b : UInt8} {rest : List UInt8} (h : s.Steady) (hs : s.content = b :: rest) :
    ∃ s', s.takeOne = (.ok (some b), s') ∧ s'.Steady ∧ s'.content = rest := by
  induction s with
  | nil => cases hs
  | cons p s ih =>
    cases p with
    | fault f =>
      cases h.head
      obtain ⟨s', htake, hs'⟩ := ih h.tail hs
      exact ⟨s', by rw [takeOne, if_pos rfl]; exact htake, hs'⟩
    | bytes bs =>
      cases bs with
      | nil => exact ih h.tail hs
      | cons c cs =>
        cases hs
        exact ⟨.bytes cs :: s, rfl, h.tail.cons cs, rfl⟩

/-! ## Frames -/

theorem readFrame_of_nil (h : s.Steady) (hs : s.content = []) :
    ∃ s', s.readFrame limit = (.ok none, s') := by
  obtain ⟨s', htake⟩ := takeOne_of_nil h hs
  exact ⟨s', by simp only [readFrame, htake]⟩

/-- A frame with a damaged record is read as it was sent. -/
theorem readFrame_of_record {record frame rest : List UInt8} {length : UInt32} (h : s.Steady)
    (hs : s.content = record ++ (frame ++ rest))
    (hrecord : LengthRecord.Damaged (LengthRecord.encode length) record)
    (hlength : length.toNat = frame.length) (hlimit : frame.length ≤ limit) :
    ∃ s', s.readFrame limit = (.ok (some frame), s') ∧ s'.Steady ∧ s'.content = rest := by
  have hsize : record.length = LengthRecord.size := hrecord.length_eq
  obtain ⟨b, bs, rfl⟩ : ∃ b bs, record = b :: bs := List.exists_cons_of_length_pos (by
    rw [hsize]; decide)
  have hbs : bs.length = LengthRecord.size - 1 := Nat.eq_sub_of_add_eq hsize
  rw [List.cons_append] at hs
  obtain ⟨s₁, h₁, hs₁, hc₁⟩ := takeOne_of_cons h hs
  obtain ⟨s₂, h₂, hs₂, hc₂⟩ := take_of_le (n := LengthRecord.size - 1) hs₁ (by
    rw [hc₁, List.length_append, hbs]; exact Nat.le_add_right _ _)
  rw [hc₁, ← hbs, List.take_left] at h₂
  rw [hc₁, ← hbs, List.drop_left] at hc₂
  obtain ⟨s₃, h₃, hs₃, hc₃⟩ := take_of_le (n := frame.length) hs₂ (by
    rw [hc₂, List.length_append]; exact Nat.le_add_right _ _)
  rw [hc₂, List.take_left] at h₃
  rw [hc₂, List.drop_left] at hc₃
  refine ⟨s₃, ?_, hs₃, hc₃⟩
  simp only [readFrame, h₁, ← hbs, h₂, hrecord.decode_eq, hlength, if_neg (Nat.not_lt.2 hlimit), h₃]

/-- A record that is cut off behind its start is an unexpected end of the stream. -/
theorem readFrame_of_cut {record frame : List UInt8} {length : UInt32} {cut : Nat} (h : s.Steady)
    (hs : s.content = (record ++ frame).take cut)
    (hrecord : LengthRecord.Damaged (LengthRecord.encode length) record)
    (hlength : length.toNat = frame.length) (hlimit : frame.length ≤ limit)
    (hstart : 0 < cut) (hcut : cut < record.length + frame.length) :
    ∃ s', s.readFrame limit = (.error (.io .unexpectedEof), s') := by
  have hsize : record.length = LengthRecord.size := hrecord.length_eq
  obtain ⟨b, bs, rfl⟩ : ∃ b bs, record = b :: bs := List.exists_cons_of_length_pos (by
    rw [hsize]; decide)
  obtain ⟨cut, rfl⟩ : ∃ k, cut = k + 1 := Nat.exists_eq_add_one.2 hstart
  have hbs : bs.length = LengthRecord.size - 1 := Nat.eq_sub_of_add_eq hsize
  rw [List.length_cons] at hcut
  rw [List.cons_append, List.take_succ_cons] at hs
  obtain ⟨s₁, h₁, hs₁, hc₁⟩ := takeOne_of_cons h hs
  have hlen₁ : s₁.content.length = cut := by
    rw [hc₁, List.length_take, List.length_append]
    omega
  by_cases hwhole : bs.length ≤ cut
  · obtain ⟨s₂, h₂, hs₂, hc₂⟩ := take_of_le hs₁ (hlen₁ ▸ hwhole)
    rw [hc₁, List.take_take, Nat.min_eq_left hwhole, List.take_left] at h₂
    obtain ⟨s₃, h₃⟩ := take_of_lt (n := frame.length) hs₂ (by
      rw [hc₂, List.length_drop, hlen₁]; omega)
    refine ⟨s₃, ?_⟩
    simp only [readFrame, h₁, ← hbs, h₂, hrecord.decode_eq, hlength, if_neg (Nat.not_lt.2 hlimit), h₃]
  · obtain ⟨s₂, h₂⟩ := take_of_lt (n := bs.length) hs₁ (by rw [hlen₁]; omega)
    exact ⟨s₂, by simp only [readFrame, h₁, ← hbs, h₂]⟩

end NarrowLink.Stream.Source

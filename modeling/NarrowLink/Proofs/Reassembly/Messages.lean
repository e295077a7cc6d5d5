import NarrowLink.Proofs.Reassembly.Calls

/-!
# Messages on a lossy link

The sender cuts messages into runs of fragments and numbers the fragments of a port without a gap
(`Numbered`), and the link loses some of them, but not half the number space in a row (`Loses`).  As
only the last fragment of a message is final, a final fragment marks the end of a message wherever it
is found (`Numbered.split`).
-/

namespace NarrowLink.Reassembly

open Wire

/-- The messages are runs of fragments, each numbered from where the one before it ends. -/
def Numbered : UInt8 → List (List Packet) → Prop
  | _, [] => True
  | first, m :: ms => IsRun first m ∧ Numbered (Serial.forward first m.length) ms

/-- What a message says. -/
def content (message : List Packet) : List UInt8 := message.flatMap Packet.payload

/-- The link loses all but the packets `got` of the packets `sent`, and less than 128 in a row, of
which `n` were lost just before. -/
inductive Loses : Nat → List Packet → List Packet → Prop
  | done {n : Nat} : Loses n [] []
  | keep {n : Nat} {p : Packet} {sent got : List Packet} (h : Loses 0 sent got) :
      Loses n (p :: sent) (p :: got)
  | lose {n : Nat} {p : Packet} {sent got : List Packet} (hn : n + 1 < 128)
      (h : Loses (n + 1) sent got) : Loses n (p :: sent) got

variable {first : UInt8} {ms : List (List Packet)}

/-! ## Losses -/

/-- What was sent before a packet that arrives was lost. -/
theorem Loses.arrive {n : Nat} {sent got : List Packet} {p : Packet} (h : Loses n sent (p :: got))
    (hn : n < 128) :
    ∃ lost later, sent = lost ++ p :: later ∧ n + lost.length < 128 ∧ Loses 0 later got := by
  generalize hg : p :: got = all at h
  induction h with
  | done => cases hg
  | keep h =>
    cases hg
    exact ⟨[], _, rfl, hn, h⟩
  | @lose n x sent all hlt _ ih =>
    obtain ⟨lost, later, rfl, hlen, hl⟩ := ih hlt hg
    refine ⟨x :: lost, later, rfl, ?_, hl⟩
    rw [List.length_cons]
    omega

/-- Less than 128 packets in a row may be lost. -/
theorem Loses.lost_append {n : Nat} {sent got : List Packet} (lost : List Packet)
    (hn : n + lost.length < 128) (h : Loses (n + lost.length) sent got) :
    Loses n (lost ++ sent) got := by
  induction lost generalizing n with
  | nil => exact h
  | cons x lost ih =>
    rw [List.length_cons] at hn h
    refine .lose (by omega) (ih (by omega) ?_)
    rwa [Nat.add_assoc, Nat.add_comm 1]

/-! ## Numbers of fragments -/

/-- A fragment with fragments of its message behind it is not final. -/
theorem IsRun.eq_nil_of_isFinal {front back : List Packet} {x : Packet}
    (h : IsRun first (front ++ x :: back)) (hx : x.isFinal = true) : back = [] := by
  induction front generalizing first with
  | nil =>
    obtain ⟨-, h⟩ := h
    rwa [if_pos hx] at h
  | cons y front ih =>
    obtain ⟨-, h⟩ := h
    split at h
    · exact absurd h (by simp)
    · exact ih h

/-- The fragments of all messages are numbered without a gap. -/
theorem Numbered.fragSeq (h : Numbered first ms) (i : Nat) (hi : i < ms.flatten.length) :
    ms.flatten[i].header.fragSeq = Serial.forward first i := by
  induction ms generalizing first i with
  | nil => exact absurd hi (by simp)
  | cons m ms ih =>
    obtain ⟨hm, h⟩ := h
    simp only [List.flatten_cons]
    rw [List.flatten_cons, List.length_append] at hi
    by_cases hlt : i < m.length
    · rw [List.getElem_append_left hlt]
      exact hm.fragSeq i hlt
    · rw [List.getElem_append_right (Nat.not_lt.1 hlt), ih h _ (by omega), ← Serial.forward_add,
        Nat.add_sub_cancel' (Nat.not_lt.1 hlt)]

theorem Numbered.fragSeq_of_split (h : Numbered first ms) {front back : List Packet} {x : Packet}
    (he : ms.flatten = front ++ x :: back) :
    x.header.fragSeq = Serial.forward first front.length := by
  have := h.fragSeq front.length (by simp [he])
  simpa [he] using this

/-- Behind a final fragment a message begins. -/
theorem Numbered.split (h : Numbered first ms) {front back : List Packet} {x : Packet}
    (he : ms.flatten = front ++ x :: back) (hx : x.isFinal = true) :
    ∃ gone rest, ms = gone ++ rest ∧ gone.flatten = front ++ [x] ∧ rest.flatten = back ∧
      Numbered first gone ∧ Numbered (Serial.next x.header.fragSeq) rest := by
  induction ms generalizing first front with
  | nil => exact absurd he (by simp)
  | cons m ms ih =>
    obtain ⟨hm, hms⟩ := h
    rw [List.flatten_cons] at he
    rcases List.append_eq_append_iff.1 he with ⟨front', rfl, hfront⟩ | ⟨tail, rfl, htail⟩
    · obtain ⟨gone, rest, rfl, hgone, hrest, hn, hnrest⟩ := ih hms hfront
      exact ⟨m :: gone, rest, rfl, by simp [hgone], hrest, ⟨hm, hn⟩, hnrest⟩
    · cases tail with
      | nil =>
        rw [List.nil_append] at htail
        rw [List.append_nil] at hm hms ⊢
        have hnext : ms.flatten = [] ++ x :: back := htail.symm
        obtain ⟨gone, rest, rfl, hgone, hrest, hn, hnrest⟩ := ih hms hnext
        exact ⟨front :: gone, rest, rfl, by simp [hgone], hrest, ⟨hm, hn⟩, hnrest⟩
      | cons y tail =>
        rw [List.cons_append, List.cons.injEq] at htail
        obtain ⟨rfl, hback⟩ := htail
        -- the fragment ends this message
        obtain rfl := hm.eq_nil_of_isFinal hx
        have hnum : x.header.fragSeq = Serial.forward first front.length := by
          have := hm.fragSeq front.length (by simp)
          simpa using this
        rw [List.length_append, List.length_singleton, Serial.forward_succ, ← hnum] at hms
        exact ⟨[front ++ [x]], ms, rfl, by simp, hback.symm, ⟨hm, trivial⟩, hms⟩

/-- Messages that make up one run are one message. -/
theorem Numbered.eq_singleton (h : Numbered first ms) {run : List Packet} (he : ms.flatten = run)
    (hrun : IsRun first run) : ms = [run] := by
  cases ms with
  | nil => exact absurd he.symm hrun.ne_nil
  | cons m ms =>
    obtain ⟨hm, hms⟩ := h
    rw [List.flatten_cons] at he
    have hfirst : run = m := by
      have := hrun.throughFinal_append []
      rw [List.append_nil, ← he, hm.throughFinal_append, he] at this
      exact this.symm
    subst hfirst
    cases ms with
    | nil => rfl
    | cons m' ms =>
      have := hms.1.ne_nil
      simp_all

/-! ## Queues of fragments that arrived -/

/-- What is queued behind a packet arrived behind it. -/
theorem sublist_cut {front back arrived : List Packet} {x : Packet}
    (h : (front ++ x :: back).Sublist arrived)
    (hlast : (front ++ x :: back).getLast? = arrived.getLast?) :
    ∃ before behind, arrived = before ++ x :: behind ∧ front.Sublist before ∧
      back.Sublist behind ∧ back.getLast? = behind.getLast? := by
  rcases List.eq_nil_or_concat' back with rfl | ⟨back', y, rfl⟩
  · rw [List.getLast?_concat] at hlast
    obtain ⟨before, rfl⟩ := List.getLast?_eq_some_iff.1 hlast.symm
    exact ⟨before, [], rfl, List.append_sublist_append_right _ |>.1 h, .slnil, rfl⟩
  · obtain ⟨front', rest, rfl, hf, hr⟩ := List.append_sublist_iff.1 h
    obtain ⟨upTo, behind, rfl, hx, hb⟩ := List.cons_sublist_iff.1 hr
    obtain ⟨u, v, rfl⟩ := List.append_of_mem hx
    refine ⟨front' ++ u, v ++ behind, by simp, hf.trans (List.sublist_append_left _ _),
      hb.trans (List.sublist_append_right _ _), ?_⟩
    have hne : behind ≠ [] := by
      rintro rfl
      simpa using hb.length_le
    have harrived : (front' ++ (u ++ x :: v ++ behind)).getLast? = behind.getLast? := by
      rw [List.getLast?_append_of_ne_nil _ (by simp), List.getLast?_append_of_ne_nil _ hne]
    have hqueued : (front ++ x :: (back' ++ [y])).getLast? = some y := by
      rw [← List.cons_append, ← List.append_assoc, List.getLast?_concat]
    rw [List.getLast?_append_of_ne_nil _ hne, ← harrived, ← hlast, hqueued, List.getLast?_concat]

end NarrowLink.Reassembly

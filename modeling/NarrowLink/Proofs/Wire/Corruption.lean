import NarrowLink.Proofs.Wire.Format
import NarrowLink.Proofs.Wire.Remainder

/-!
# Corruption is detected

A frame that is corrupted on the link keeps its length.  If an odd number of its bits are flipped, or if
all that changed lies in one byte or two adjacent ones behind the checksum (`Corrupts`), then the
checksum no longer fits (`Corrupts.checksum_ne`).  So the frame is refused (`decode_corrupted`): for its
length if the bits that give it are among those that were flipped, because they are looked at first, and
for its checksum otherwise.
-/

namespace NarrowLink.Wire

/-- The checksum of a frame fits the bytes behind it. -/
def Checked (frame : List UInt8) : Prop := wordAt frame 0 = (checksum (frame.drop 2)).toNat

/-- What the link may make of a frame without its being taken for a packet. -/
inductive Corrupts (f g : List UInt8) : Prop where
  /-- An odd number of bits are flipped, wherever they are. -/
  | oddly (length : g.length = f.length) (flips : bitsApart f g % 2 = 1)
  /-- One byte or two adjacent ones change, behind the checksum. -/
  | nearby (length : g.length = f.length) (ne : g ≠ f) (i : Nat) (behind : 2 ≤ i)
    (same : ∀ j, j ≠ i → j ≠ i + 1 → g[j]? = f[j]?)

variable {f g : List UInt8}

theorem Corrupts.length_eq (h : Corrupts f g) : g.length = f.length := by
  cases h <;> assumption

/-- A frame whose checksum fits has an even number of ones. -/
theorem Checked.even_ones (h : Checked f) (hsize : 2 ≤ f.length) : onesOf f % 2 = 0 := by
  match f, hsize with
  | hi :: lo :: rest, _ =>
    have hword : 256 * hi.toNat + lo.toNat = (checksum rest).toNat := h
    have hones := ones_checksum rest
    have hlo := lo.toNat_lt
    have hmod : (256 * hi.toNat + lo.toNat) % 2 ^ 8 = lo.toNat := by omega
    have hlow : ones 8 (256 * hi.toNat + lo.toNat) = ones 8 lo.toNat := by
      rw [← ones_mod 8 (256 * hi.toNat + lo.toNat), hmod]
    have hhigh : (256 * hi.toNat + lo.toNat) / 2 ^ 8 = hi.toNat := by omega
    have hsplit : ones 16 (256 * hi.toNat + lo.toNat) = _ := ones_add 8 8 _
    rw [hlow, hhigh, hword] at hsplit
    rw [onesOf_cons, onesOf_cons]
    omega

theorem take_eq_of_getElem? {i : Nat} (h : ∀ j < i, g[j]? = f[j]?) : g.take i = f.take i :=
  List.ext_getElem? fun j => by
    rw [List.getElem?_take, List.getElem?_take]
    split
    · rename_i hj
      exact h j hj
    · rfl

theorem drop_eq_of_getElem? {i : Nat} (h : ∀ j, i ≤ j → g[j]? = f[j]?) : g.drop i = f.drop i :=
  List.ext_getElem? fun j => by
    rw [List.getElem?_drop, List.getElem?_drop]
    exact h _ (Nat.le_add_right i j)

/-- If two frames that differ nearby have the same checksum behind them, they are the same. -/
theorem eq_of_checksum_eq {i : Nat} (hlength : g.length = f.length)
    (hsame : ∀ j, j ≠ i → j ≠ i + 1 → g[j]? = f[j]?) (h : checksum g = checksum f) : g = f := by
  have hfront : g.take i = f.take i :=
    take_eq_of_getElem? fun j hj => hsame j (by omega) (by omega)
  have hback : (g.drop i).drop 2 = (f.drop i).drop 2 := by
    rw [List.drop_drop, List.drop_drop]
    exact drop_eq_of_getElem? fun j hj => hsame j (by omega) (by omega)
  have hdrop : g.drop i = f.drop i := by
    refine Checksum.eq_of_foldl_absorb_eq (r := checksum (f.take i)) ?_ hback ?_
    · rw [List.length_drop, List.length_drop, hlength]
    · calc (g.drop i).foldl Checksum.absorb (checksum (f.take i))
          = checksum (g.take i ++ g.drop i) := by rw [checksum_append, hfront]
        _ = checksum (f.take i ++ f.drop i) := by
          rw [List.take_append_drop, List.take_append_drop, h]
        _ = (f.drop i).foldl Checksum.absorb (checksum (f.take i)) := checksum_append _ _
  rw [← List.take_append_drop i g, hfront, hdrop, List.take_append_drop]

/-- The checksum of a corrupted frame does not fit. -/
theorem Corrupts.checksum_ne (h : Corrupts f g) (hf : Checked f) (hsize : 2 ≤ f.length) :
    wordAt g 0 ≠ (checksum (g.drop 2)).toNat := by
  intro hg
  cases h with
  | oddly hlength hflips =>
    have hparity := bitsApart_parity hlength
    have hones := hf.even_ones hsize
    have hones' := Checked.even_ones hg (hlength ▸ hsize)
    omega
  | nearby hlength hne i hbehind hsame =>
    have hbyte : ∀ j < 2, byteAt g j = byteAt f j := fun j hj => by
      rw [byteAt, byteAt, List.getD_eq_getElem?_getD, List.getD_eq_getElem?_getD,
        hsame j (by omega) (by omega)]
    have hword : wordAt g 0 = wordAt f 0 := by
      rw [wordAt, wordAt, hbyte 0 (by decide), hbyte 1 (by decide)]
    have hdrop : g.drop 2 = f.drop 2 := by
      refine eq_of_checksum_eq (i := i - 2) ?_ (fun j hj hj' => ?_) ?_
      · rw [List.length_drop, List.length_drop, hlength]
      · rw [List.getElem?_drop, List.getElem?_drop]
        exact hsame _ (by omega) (by omega)
      · exact UInt16.toNat_inj.1 (hg.symm.trans (hword.trans hf))
    have htake : g.take 2 = f.take 2 :=
      take_eq_of_getElem? fun j hj => hsame j (by omega) (by omega)
    exact hne (by rw [← List.take_append_drop 2 g, htake, hdrop, List.take_append_drop])

/-- A corrupted frame is never taken for a packet.  It is refused for its length if the bits that give it
have changed, and for its checksum otherwise. -/
theorem decode_corrupted {p : Packet} (hp : p.Encodable) (h : Corrupts p.encode g) (channel : UInt8) :
    (lengthBits g = lengthBits p.encode → Packet.decode channel g =
      .error (.crcMismatch (.ofNat (wordAt g 0)) (checksum (g.drop 2)))) ∧
    (lengthBits g ≠ lengthBits p.encode → Packet.decode channel g =
      .error (.malformed (.lengthMismatch (lengthBits g) p.payload.length))) := by
  have hsize : Header.size ≤ p.encode.length := by
    rw [Packet.length_encode, Packet.wireLength]
    exact Nat.le_add_right _ _
  have hrest : g.length - Header.size = p.payload.length := by
    rw [h.length_eq, Packet.length_encode, Packet.wireLength]
    exact Nat.add_sub_cancel_left _ _
  have hnot := h.checksum_ne (Packet.wordAt_encode_zero p) (Nat.le_trans (by decide) hsize)
  rw [Packet.lengthBits_encode hp.payload, decode_eq, hrest,
    if_neg (Nat.not_lt.2 (h.length_eq ▸ hsize))]
  exact ⟨fun hlength => by rw [if_neg (fun hne => hne hlength), if_pos hnot],
    fun hlength => if_pos hlength⟩

/-- The frame of a packet with its lowest length bit flipped. -/
def shortened : List UInt8 := Packet.busiest.encode.set 5 2

/-- The frame of a packet with all bits of the last byte of the header and the first of the payload
flipped. -/
def smeared : List UInt8 := (Packet.busiest.encode.set 11 0).set 12 0xff

theorem decode_corrupted_of_busiest : Packet.busiest.Encodable ∧
    Packet.decode 3 shortened = .error (.malformed (.lengthMismatch 2 3)) ∧
    Packet.decode 3 smeared =
      .error (.crcMismatch (.ofNat (wordAt smeared 0)) (checksum (smeared.drop 2))) := by
  have hfits : Packet.busiest.Encodable := ⟨by decide, by decide, by decide⟩
  have hshortened : Corrupts Packet.busiest.encode shortened := .oddly (by decide +kernel) (by decide +kernel)
  have hsmeared : Corrupts Packet.busiest.encode smeared := by
    refine .nearby (by decide +kernel) (by decide +kernel) 11 (by decide) fun j hj hj' => ?_
    rw [smeared, List.getElem?_set_ne (Ne.symm hj'), List.getElem?_set_ne (Ne.symm hj)]
  exact ⟨hfits, (decode_corrupted hfits hshortened 3).2 (by decide +kernel),
    (decode_corrupted hfits hsmeared 3).1 (by decide +kernel)⟩

end NarrowLink.Wire

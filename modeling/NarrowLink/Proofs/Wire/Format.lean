import Mathlib.Data.Nat.Bitwise
import NarrowLink.Wire.Packet

/-!
# The frame format

The numbers of a frame are read off its bytes by place value (`byteAt`, `wordAt`, `lengthBits`,
`kindBits`).  A frame that can be read satisfies six conditions on these numbers (`Acceptable`), and
`decode_eq` says in which order they are checked.

Writing and reading undo each other, for headers (`ofBytes_toBytes`, `toBytes_of_ofBytes`) and for
packets (`decode_inverts_encode`): the packets that can be written correspond one to one to the
acceptable frames, once the length and the checksum are entered in the header.
-/

namespace NarrowLink.Wire

/-! ## The numbers of a frame -/

/-- The byte at an offset of a frame, as a number. -/
def byteAt (frame : List UInt8) (i : Nat) : Nat := (frame.getD i 0).toNat

/-- The number that the two bytes at an offset stand for, high byte first. -/
def wordAt (frame : List UInt8) (i : Nat) : Nat := 256 * byteAt frame i + byteAt frame (i + 1)

/-- The fourteen bits of a frame that give the length of its payload. -/
def lengthBits (frame : List UInt8) : Nat := wordAt frame 4 % 2 ^ 14

/-- The two bits of a frame that give its kind. -/
def kindBits (frame : List UInt8) : Nat := wordAt frame 4 / 2 ^ 14

/-- A byte string that is a packet. -/
structure Acceptable (frame : List UInt8) : Prop where
  size : Header.size ≤ frame.length
  length : lengthBits frame = frame.length - Header.size
  crc : wordAt frame 0 = (checksum (frame.drop 2)).toNat
  kind : kindBits frame = 0 ∨ kindBits frame = 1
  src : byteAt frame 8 < 0x80
  flags : byteAt frame 9 ≤ 0x3f

theorem toNat_payloadLengthOf (field : UInt16) :
    (payloadLengthOf field).toNat = field.toNat % 2 ^ 14 := by
  rw [payloadLengthOf, UInt16.toNat_and]
  exact Nat.and_two_pow_sub_one_eq_mod _ 14

theorem toNat_shiftRight_kind (field : UInt16) : (field >>> 14).toNat = field.toNat / 2 ^ 14 := by
  rw [UInt16.toNat_shiftRight]
  exact Nat.shiftRight_eq_div_pow _ _

/-- A byte string that is long enough for a header. -/
theorem exists_bytes_of_size_le {frame : List UInt8} (h : Header.size ≤ frame.length) :
    ∃ c₁ c₀ s₁ s₀ l₁ l₀ frag port src flags rel ack rest, frame =
      c₁ :: c₀ :: s₁ :: s₀ :: l₁ :: l₀ :: frag :: port :: src :: flags :: rel :: ack :: rest := by
  match frame, h with
  | c₁ :: c₀ :: s₁ :: s₀ :: l₁ :: l₀ :: frag :: port :: src :: flags :: rel :: ack :: rest, _ =>
    exact ⟨c₁, c₀, s₁, s₀, l₁, l₀, frag, port, src, flags, rel, ack, rest, rfl⟩

/-- The length is checked before the checksum, and the checksum before the header is read. -/
theorem decode_eq (channel : UInt8) (frame : List UInt8) :
    Packet.decode channel frame =
      if frame.length < Header.size then .error (.malformed (.shortFrame frame.length))
      else if lengthBits frame ≠ frame.length - Header.size then
        .error (.malformed (.lengthMismatch (lengthBits frame) (frame.length - Header.size)))
      else if wordAt frame 0 ≠ (checksum (frame.drop 2)).toNat then
        .error (.crcMismatch (.ofNat (wordAt frame 0)) (checksum (frame.drop 2)))
      else (Header.ofBytes frame).map fun r => ⟨r.1, r.2, channel⟩ := by
  by_cases hsize : Header.size ≤ frame.length
  · obtain ⟨c₁, c₀, s₁, s₀, l₁, l₀, frag, port, src, flags, rel, ack, rest, hframe⟩ :=
      exists_bytes_of_size_le hsize
    have hlength : (payloadLengthOf (word16 l₁ l₀)).toNat = lengthBits frame := by
      rw [toNat_payloadLengthOf, toNat_word16, Nat.mul_comm, hframe]
      rfl
    have hword : (word16 c₁ c₀).toNat = wordAt frame 0 := by
      rw [toNat_word16, Nat.mul_comm, hframe]
      rfl
    have hrest : frame.length - Header.size = rest.length := by
      rw [hframe]
      rfl
    have hcovered : frame.drop 2 =
        s₁ :: s₀ :: l₁ :: l₀ :: frag :: port :: src :: flags :: rel :: ack :: rest := by
      rw [hframe]
      rfl
    rw [if_neg (Nat.not_lt.2 hsize), hrest, ← hlength, ← hword, UInt16.ofNat_toNat, hcovered, hframe]
    simp only [Packet.decode, ← UInt16.toNat_inj, ne_eq]
    split
    · rfl
    split
    · rfl
    · split <;> rename_i hread <;> rw [hread] <;> rfl
  · rw [if_pos (Nat.not_le.1 hsize)]
    unfold Packet.decode
    split
    · simp only [Header.size, List.length_cons] at hsize
      omega
    · rfl

/-! ## Headers -/

namespace Header

/-- The fields of a header fit their bits. -/
structure Fits (h : Header) : Prop where
  dst : h.dst ≤ maxPort
  src : h.src ≤ maxPort
  payloadLength : h.payloadLength.toNat ≤ maxPayload

end Header

theorem Kind.code_le (k : Kind) : k.code.toNat ≤ 1 := by
  cases k <;> decide

theorem Kind.ofCode?_code (k : Kind) : Kind.ofCode? k.code = some k := by
  cases k <;> rfl

theorem Kind.code_of_ofCode? {code : UInt16} {k : Kind} (h : Kind.ofCode? code = some k) :
    k.code = code := by
  unfold Kind.ofCode? at h
  split at h
  · cases h
    symm
    assumption
  split at h
  · cases h
    symm
    assumption
  · cases h

theorem Kind.ofCode?_isSome_iff (code : UInt16) :
    (Kind.ofCode? code).isSome ↔ code.toNat = 0 ∨ code.toNat = 1 := by
  unfold Kind.ofCode?
  have hzero : code = 0 ↔ code.toNat = 0 := UInt16.toNat_inj.symm
  have hone : code = 1 ↔ code.toNat = 1 := UInt16.toNat_inj.symm
  rw [← hzero, ← hone]
  split
  · simp_all
  · split <;> simp_all

namespace Header

/-- The kind stands above the length. -/
theorem toNat_lengthAndKind (h : Header) : h.lengthAndKind.toNat =
    2 ^ 14 * h.kind.code.toNat + h.payloadLength.toNat % 2 ^ 14 := by
  have hcode := h.kind.code_le
  have hshift : (h.kind.code <<< 14).toNat = 2 ^ 14 * h.kind.code.toNat := by
    rw [UInt16.toNat_shiftLeft]
    show h.kind.code.toNat <<< 14 % 2 ^ 16 = _
    rw [Nat.shiftLeft_eq]
    omega
  have hmask : (h.payloadLength &&& 0x3fff).toNat = h.payloadLength.toNat % 2 ^ 14 :=
    toNat_payloadLengthOf h.payloadLength
  rw [lengthAndKind, UInt16.toNat_or, hshift, hmask]
  exact (Nat.two_pow_add_eq_or_of_lt (Nat.mod_lt _ (by decide)) _).symm

/-- A port byte is taken apart and put together again. -/
theorem port_parts (b : UInt8) :
    (b &&& 0x7f) &&& 0x7f ||| (if b &&& 0x80 != 0 then 0x80 else 0) = b := by
  have all : ∀ n : Fin 256, (UInt8.ofNat n.val &&& 0x7f) &&& 0x7f |||
      (if UInt8.ofNat n.val &&& 0x80 != 0 then 0x80 else 0) = UInt8.ofNat n.val := by
    decide +kernel
  simpa using all ⟨b.toNat, b.toNat_lt⟩

/-- A port and a mark are read back from their byte. -/
theorem parts_port {dst : UInt8} (h : dst ≤ maxPort) (more : Bool) :
    ((dst &&& 0x7f ||| if more then 0x80 else 0) &&& 0x7f = dst) ∧
      ((dst &&& 0x7f ||| if more then 0x80 else 0) &&& 0x80 != 0) = more := by
  have all : ∀ n : Fin 128, ∀ more : Bool,
      ((UInt8.ofNat n.val &&& 0x7f ||| if more then 0x80 else 0) &&& 0x7f = UInt8.ofNat n.val) ∧
        ((UInt8.ofNat n.val &&& 0x7f ||| if more then 0x80 else 0) &&& 0x80 != 0) = more := by
    decide +kernel
  have hlt : dst.toNat < 128 := Nat.lt_succ_of_le (UInt8.le_iff_toNat_le.1 h)
  simpa using all ⟨dst.toNat, hlt⟩ more

theorem and_maxPort {b : UInt8} (h : b ≤ maxPort) : b &&& 0x7f = b := by
  refine UInt8.toNat_inj.1 ?_
  have hlt : b.toNat < 2 ^ 7 := Nat.lt_succ_of_le (UInt8.le_iff_toNat_le.1 h)
  rw [UInt8.toNat_and]
  exact (Nat.and_two_pow_sub_one_eq_mod _ 7).trans (Nat.mod_eq_of_lt hlt)

/-- What is written is read back, if it fits. -/
theorem ofBytes_toBytes {h : Header} (hf : h.Fits) (rest : List UInt8) :
    ofBytes (h.toBytes ++ rest) = .ok (h, rest) := by
  have hfield := h.toNat_lengthAndKind
  have hlt : h.payloadLength.toNat < 2 ^ 14 := Nat.lt_succ_of_le hf.payloadLength
  have hkind : h.lengthAndKind >>> 14 = h.kind.code := by
    refine UInt16.toNat_inj.1 ?_
    rw [toNat_shiftRight_kind, hfield]
    omega
  have hlength : payloadLengthOf h.lengthAndKind = h.payloadLength := by
    refine UInt16.toNat_inj.1 ?_
    rw [toNat_payloadLengthOf, hfield]
    omega
  obtain ⟨hport, hmore⟩ := parts_port hf.dst h.more
  show ofBytes (_ :: _ :: _ :: _ :: _ :: _ :: _ :: _ :: _ :: _ :: _ :: _ :: rest) = _
  unfold ofBytes
  simp only [word16_bytes16]
  rw [hkind, Kind.ofCode?_code, Flags.ofByte?_toByte, and_maxPort hf.src, hlength, portAndMore, hport,
    hmore]
  exact if_neg (UInt8.not_lt.2 hf.src)

/-- What is read is written back, and fits. -/
theorem toBytes_of_ofBytes {frame rest : List UInt8} {h : Header}
    (hread : ofBytes frame = .ok (h, rest)) : h.toBytes ++ rest = frame ∧ h.Fits := by
  unfold ofBytes at hread
  split at hread
  · rename_i c₁ c₀ s₁ s₀ l₁ l₀ frag port src flags rel ack rest'
    simp only at hread
    split at hread
    · cases hread
    rename_i kind hkind
    split at hread
    · cases hread
    rename_i hsrc
    split at hread
    · cases hread
    rename_i set hflags
    cases hread
    let h : Header :=
      { crc := word16 c₁ c₀, seq := word16 s₁ s₀, payloadLength := payloadLengthOf (word16 l₁ l₀),
        kind := kind, fragSeq := frag, dst := port &&& 0x7f, more := port &&& 0x80 != 0,
        src := src, flags := set, relSeq := rel, ack := ack }
    have hsrc : src ≤ maxPort := UInt8.not_lt.1 hsrc
    have hfield : h.lengthAndKind = word16 l₁ l₀ := by
      refine UInt16.toNat_inj.1 ?_
      have hlength : h.payloadLength.toNat = (word16 l₁ l₀).toNat % 2 ^ 14 := toNat_payloadLengthOf _
      have hcode : h.kind.code.toNat = (word16 l₁ l₀).toNat / 2 ^ 14 := by
        rw [← toNat_shiftRight_kind]
        exact congrArg UInt16.toNat (Kind.code_of_ofCode? hkind)
      rw [toNat_lengthAndKind, hlength, hcode]
      omega
    have hport : h.portAndMore = port := port_parts port
    refine ⟨?_, ?_, hsrc, ?_⟩
    · show bytes16 (word16 c₁ c₀) ++ (bytes16 (word16 s₁ s₀) ++ bytes16 h.lengthAndKind ++
        [frag, h.portAndMore, src &&& 0x7f, set.toByte, rel, ack]) ++ rest = _
      rw [hfield, hport, and_maxPort hsrc, (Flags.ofByte?_eq_some_iff flags set).1 hflags,
        bytes16_word16, bytes16_word16, bytes16_word16]
      rfl
    · refine UInt8.le_iff_toNat_le.2 ?_
      show (port &&& 0x7f).toNat ≤ 127
      rw [UInt8.toNat_and]
      exact Nat.and_le_right
    · show (payloadLengthOf (word16 l₁ l₀)).toNat ≤ maxPayload
      rw [toNat_payloadLengthOf]
      exact Nat.le_of_lt_succ (Nat.mod_lt _ (by decide))
  · cases hread

theorem wordAt_toBytes_zero (h : Header) (rest : List UInt8) :
    wordAt (h.toBytes ++ rest) 0 = h.crc.toNat := by
  have hword := congrArg UInt16.toNat (word16_bytes16 h.crc)
  rw [toNat_word16, Nat.mul_comm] at hword
  exact hword

theorem lengthBits_toBytes (h : Header) (rest : List UInt8) :
    lengthBits (h.toBytes ++ rest) = h.payloadLength.toNat % 2 ^ 14 := by
  have hword := congrArg UInt16.toNat (word16_bytes16 h.lengthAndKind)
  rw [toNat_word16, Nat.mul_comm] at hword
  have hfour : wordAt (h.toBytes ++ rest) 4 = h.lengthAndKind.toNat := hword
  rw [lengthBits, hfour, toNat_lengthAndKind]
  omega

/-- Of a byte string that is long enough, only the kind, the reserved bit and the flags matter. -/
theorem ofBytes_eq_ok_iff {frame : List UInt8} (hsize : size ≤ frame.length) :
    (∃ r, ofBytes frame = .ok r) ↔
      (kindBits frame = 0 ∨ kindBits frame = 1) ∧ byteAt frame 8 < 0x80 ∧ byteAt frame 9 ≤ 0x3f := by
  obtain ⟨c₁, c₀, s₁, s₀, l₁, l₀, frag, port, src, flags, rel, ack, rest, hframe⟩ :=
    exists_bytes_of_size_le hsize
  have hkind : (Kind.ofCode? (word16 l₁ l₀ >>> 14)).isSome ↔ kindBits frame = 0 ∨ kindBits frame = 1 := by
    rw [Kind.ofCode?_isSome_iff, toNat_shiftRight_kind, toNat_word16, Nat.mul_comm, hframe]
    rfl
  have hsrc : ¬ maxPort < src ↔ byteAt frame 8 < 0x80 := by
    rw [UInt8.not_lt, UInt8.le_iff_toNat_le, hframe]
    exact Nat.lt_succ_iff.symm
  have hflags : flags ≤ 0x3f ↔ byteAt frame 9 ≤ 0x3f := by
    rw [UInt8.le_iff_toNat_le, hframe]
    rfl
  rw [← hkind, ← hsrc, ← hflags, hframe]
  unfold ofBytes
  simp only
  cases hcode : Kind.ofCode? (word16 l₁ l₀ >>> 14) with
  | none => simp
  | some kind =>
    by_cases hs : maxPort < src
    · simp [hs]
    · by_cases hf : flags ≤ 0x3f <;> simp [hs, hf, Flags.ofByte?]

end Header

/-! ## Packets -/

namespace Packet

/-- A packet that can be written: its ports have seven bits, and the length of its payload fourteen. -/
structure Encodable (p : Packet) : Prop where
  dst : p.header.dst ≤ Header.maxPort
  src : p.header.src ≤ Header.maxPort
  payload : p.payload.length ≤ Header.maxPayload

/-- The packet as it arrives on a channel, with the length and the checksum that were filled in. -/
def received (p : Packet) (channel : UInt8) : Packet where
  header := { p.header with
    payloadLength := .ofNat p.payload.length
    crc := checksum (p.encode.drop 2) }
  payload := p.payload
  channel := channel

variable {p : Packet} {channel : UInt8} {frame : List UInt8}

theorem encode_eq (p : Packet) (channel : UInt8) :
    p.encode = (p.received channel).header.toBytes ++ p.payload := by
  -- the checksum is kept apart, because it is never to be evaluated
  have hbytes : ∀ crc : UInt16, bytes16 crc ++ p.covered =
      ({ p.header with payloadLength := .ofNat p.payload.length, crc := crc } : Header).toBytes ++
        p.payload := fun _ => rfl
  exact hbytes _

theorem wordAt_encode_zero (p : Packet) :
    wordAt p.encode 0 = (checksum (p.encode.drop 2)).toNat := by
  have hcrc : (p.received p.channel).header.crc = checksum (p.encode.drop 2) := by
    simp only [received]
  rw [← hcrc, encode_eq p p.channel, Header.wordAt_toBytes_zero]

theorem lengthBits_encode (h : p.payload.length ≤ Header.maxPayload) :
    lengthBits p.encode = p.payload.length := by
  have hlt : p.payload.length < 2 ^ 14 := Nat.lt_succ_of_le h
  have hlength : (p.received p.channel).header.payloadLength.toNat = p.payload.length := by
    show (UInt16.ofNat p.payload.length).toNat = _
    rw [UInt16.toNat_ofNat']
    exact Nat.mod_eq_of_lt (Nat.lt_trans hlt (by decide))
  rw [encode_eq p p.channel, Header.lengthBits_toBytes, hlength]
  exact Nat.mod_eq_of_lt hlt

/-- A packet that is written is read back. -/
theorem decode_encode (h : p.Encodable) (channel : UInt8) :
    decode channel p.encode = .ok (p.received channel) := by
  have hlength := lengthBits_encode h.payload
  have hsize : p.encode.length - Header.size = p.payload.length := by
    rw [length_encode, wireLength]
    omega
  have hfits : (p.received channel).header.Fits := by
    refine ⟨h.dst, h.src, ?_⟩
    show (UInt16.ofNat p.payload.length).toNat ≤ _
    rw [UInt16.toNat_ofNat']
    exact Nat.le_trans (Nat.mod_le _ _) h.payload
  rw [decode_eq, if_neg (by rw [length_encode, wireLength]; omega), hlength, hsize,
    if_neg (fun hne => hne rfl), wordAt_encode_zero, if_neg (fun hne => hne rfl), encode_eq p channel,
    Header.ofBytes_toBytes hfits]
  rfl

theorem exists_decode_iff : (∃ p, decode channel frame = .ok p) ↔ Acceptable frame := by
  rw [decode_eq]
  constructor
  · rintro ⟨p, hp⟩
    split at hp
    · cases hp
    rename_i hsize
    split at hp
    · cases hp
    rename_i hlength
    split at hp
    · cases hp
    rename_i hcrc
    have hsize := Nat.not_lt.1 hsize
    cases hread : Header.ofBytes frame with
    | error e =>
      rw [hread] at hp
      cases hp
    | ok r =>
      obtain ⟨hkind, hsrc, hflags⟩ := (Header.ofBytes_eq_ok_iff hsize).1 ⟨r, hread⟩
      exact ⟨hsize, Decidable.not_not.1 hlength, Decidable.not_not.1 hcrc, hkind, hsrc, hflags⟩
  · intro h
    obtain ⟨r, hread⟩ := (Header.ofBytes_eq_ok_iff h.size).2 ⟨h.kind, h.src, h.flags⟩
    rw [if_neg (Nat.not_lt.2 h.size), if_neg (fun hne => hne h.length), if_neg (fun hne => hne h.crc),
      hread]
    exact ⟨_, rfl⟩

/-- A packet that is read is written back, and is as it arrived. -/
theorem encode_of_decode (hp : decode channel frame = .ok p) :
    p.encode = frame ∧ p.Encodable ∧ p.received channel = p := by
  obtain ⟨hsize, hlength, hcrc, -⟩ := exists_decode_iff.1 ⟨p, hp⟩
  rw [decode_eq, if_neg (Nat.not_lt.2 hsize), if_neg (fun hne => hne hlength),
    if_neg (fun hne => hne hcrc)] at hp
  cases hread : Header.ofBytes frame with
  | error e =>
    rw [hread] at hp
    cases hp
  | ok r =>
    obtain ⟨h, payload⟩ := r
    rw [hread] at hp
    cases hp
    obtain ⟨hbytes, hfits⟩ := Header.toBytes_of_ofBytes hread
    have hlt : h.payloadLength.toNat < 2 ^ 14 := Nat.lt_succ_of_le hfits.payloadLength
    have hpayload : h.payloadLength.toNat = payload.length := by
      have hbits := Header.lengthBits_toBytes h payload
      rw [hbytes, hlength, ← hbytes, List.length_append, Header.length_toBytes, Nat.add_sub_cancel_left,
        Nat.mod_eq_of_lt hlt] at hbits
      exact hbits.symm
    have hheader : ({ h with payloadLength := .ofNat payload.length } : Header) = h := by
      rw [← hpayload, UInt16.ofNat_toNat]
    have hcovered : (⟨h, payload, channel⟩ : Packet).covered = frame.drop 2 := by
      unfold covered
      rw [hheader, ← hbytes]
      rfl
    have hchecksum : checksum (frame.drop 2) = h.crc := by
      have hword := Header.wordAt_toBytes_zero h payload
      rw [hbytes, hcrc] at hword
      exact UInt16.toNat_inj.1 hword
    have hencode : (⟨h, payload, channel⟩ : Packet).encode = frame := by
      unfold encode
      rw [hcovered, hchecksum, ← hbytes]
      rfl
    refine ⟨hencode, ⟨hfits.dst, hfits.src, ?_⟩, ?_⟩
    · exact hpayload ▸ hfits.payloadLength
    · unfold received
      rw [hencode, hchecksum, ← hpayload, UInt16.ofNat_toNat]

/-- Writing and reading undo each other: the packets that can be written correspond to the acceptable
frames. -/
theorem decode_inverts_encode :
    (∀ (p : Packet) (channel : UInt8), p.Encodable →
      decode channel p.encode = .ok (p.received channel)) ∧
    (∀ (channel : UInt8) (frame : List UInt8) (p : Packet), decode channel frame = .ok p →
      p.encode = frame ∧ p.Encodable ∧ p.received channel = p) ∧
    ∀ (channel : UInt8) (frame : List UInt8),
      (∃ p, decode channel frame = .ok p) ↔ Acceptable frame :=
  ⟨fun _ channel h => decode_encode h channel, fun _ _ _ h => encode_of_decode h,
    fun _ _ => exists_decode_iff⟩

/-- A packet between the two greatest ports, with all flags set and more to follow. -/
def busiest : Packet where
  header :=
    { seq := 0xffff, kind := .connection, fragSeq := 0xff, dst := 0x7f, more := true, src := 0x7f,
      flags := ⟨true, true, true, true, true, true⟩, relSeq := 0xff, ack := 0xff }
  payload := [0, 0xff, 0]
  channel := 0

theorem decode_inverts_encode_of_busiest : busiest.Encodable ∧
    decode 3 busiest.encode = .ok (busiest.received 3) ∧
      (busiest.received 3).encode = busiest.encode := by
  have hfits : busiest.Encodable := ⟨by decide, by decide, by decide⟩
  have hread := decode_inverts_encode.1 busiest 3 hfits
  exact ⟨hfits, hread, (decode_inverts_encode.2.1 3 busiest.encode _ hread).1⟩

end Packet

end NarrowLink.Wire

import NarrowLink.Engine.Fragment

/-!
# How a message is cut

The fragments of a message keep all the limits that a configuration sets (`Cut`).  There is at least
one, none has more bytes than a payload may have, and only the last one is final.  Every fragment but
the last is full, so a message that is not too long needs no more fragments than a message may have
(`cut_fragments`).
-/

namespace NarrowLink.Engine

open Wire

/-- Packets that carry a message to a port within the limits of a configuration. -/
structure Cut (config : Config) (port : UInt8) (message : List UInt8) (fs : List Packet) : Prop where
  length_pos : 0 < fs.length
  length_le : fs.length ≤ config.maxFragments
  payload_le : ∀ f ∈ fs, f.payload.length ≤ config.maxPayload
  isFinal_iff : ∀ i (h : i < fs.length), fs[i].isFinal = true ↔ i + 1 = fs.length
  content : fs.flatMap Packet.payload = message
  port_eq : ∀ f ∈ fs, f.port = port

variable {size n k : Nat} {bytes : List UInt8}

/-! ## Pieces -/

theorem piecesUpTo_ne_nil (size n : Nat) (bytes : List UInt8) : piecesUpTo size n bytes ≠ [] := by
  cases n with
  | zero => exact List.cons_ne_nil _ _
  | succ n =>
    unfold piecesUpTo
    split <;> exact List.cons_ne_nil _ _

theorem length_le_of_mem_piecesUpTo (hsize : 0 < size) (hn : bytes.length ≤ n) :
    ∀ piece ∈ piecesUpTo size n bytes, piece.length ≤ size := by
  induction n generalizing bytes with
  | zero =>
    intro piece hp
    rw [List.mem_singleton.1 hp]
    omega
  | succ n ih =>
    intro piece hp
    unfold piecesUpTo at hp
    split at hp
    · rename_i hle
      rw [List.mem_singleton.1 hp]
      exact hle
    · rcases List.mem_cons.1 hp with rfl | hp
      · exact List.length_take_le size bytes
      · refine ih ?_ piece hp
        rw [List.length_drop]
        omega

/-- So many pieces of a size are enough. -/
theorem length_piecesUpTo_le (hk : 0 < k) (hbytes : bytes.length ≤ size * k) (n : Nat) :
    (piecesUpTo size n bytes).length ≤ k := by
  induction n generalizing bytes k with
  | zero => exact hk
  | succ n ih =>
    unfold piecesUpTo
    split
    · exact hk
    · rename_i hlong
      -- one piece does not do, so there is a place for another one
      obtain ⟨k, rfl⟩ : ∃ j, k = j + 2 := by
        refine ⟨k - 2, ?_⟩
        have hne : k ≠ 1 := by
          rintro rfl
          omega
        omega
      refine Nat.succ_le_succ (ih (Nat.succ_pos k) ?_)
      rw [List.length_drop, Nat.sub_le_iff_le_add]
      exact hbytes

/-! ## Fragments -/

theorem length_fragmentsOf (header : Header) (channel : UInt8) (payloads : List (List UInt8)) :
    (fragmentsOf header channel payloads).length = payloads.length := by
  rw [← List.length_map Packet.payload, map_payload_fragmentsOf]

theorem isFinal_fragmentsOf (header : Header) (channel : UInt8) (payloads : List (List UInt8))
    (i : Nat) (h : i < (fragmentsOf header channel payloads).length) :
    (fragmentsOf header channel payloads)[i].isFinal = true ↔ i + 1 = payloads.length := by
  induction payloads generalizing i with
  | nil => exact absurd h (Nat.not_lt_zero i)
  | cons p ps ih =>
    cases ps with
    | nil =>
      have hi : i = 0 := Nat.lt_one_iff.1 h
      subst hi
      simp [fragmentsOf, Packet.ofPayload, Packet.isFinal]
    | cons q qs =>
      cases i with
      | zero => simp [fragmentsOf, Packet.ofPayload, Packet.isFinal]
      | succ i =>
        have hi : i < (fragmentsOf header channel (q :: qs)).length := Nat.lt_of_succ_lt_succ h
        rw [List.length_cons, Nat.add_right_cancel_iff]
        exact ih i hi

/-- A fragment has the header of its message, with a flag of its own for what follows. -/
theorem ofPayload_of_mem_fragmentsOf {header : Header} {channel : UInt8}
    {payloads : List (List UInt8)} {f : Packet} (hf : f ∈ fragmentsOf header channel payloads) :
    ∃ more payload, f = .ofPayload { header with more := more } payload channel := by
  induction payloads with
  | nil => exact absurd hf List.not_mem_nil
  | cons p ps ih =>
    cases ps with
    | nil => exact ⟨false, p, List.mem_singleton.1 hf⟩
    | cons q qs =>
      rcases List.mem_cons.1 hf with hf | hf
      · exact ⟨true, p, hf⟩
      · exact ih hf

theorem port_of_mem_fragmentsOf {header : Header} {channel : UInt8} {payloads : List (List UInt8)}
    (f : Packet) (hf : f ∈ fragmentsOf header channel payloads) : f.port = header.dst := by
  obtain ⟨more, payload, rfl⟩ := ofPayload_of_mem_fragmentsOf hf
  rfl

/-- A message that is not too long is cut as the configuration says. -/
theorem cut_fragments {config : Config} (hconfig : config.Valid) {message : List UInt8}
    (hmessage : message.length ≤ config.maxMessage) (src dst : UInt8) (kind : Kind)
    (channel : UInt8) : Cut config dst message (fragments config src dst kind channel message) where
  length_pos := by
    rw [fragments, length_fragmentsOf]
    exact List.length_pos_iff.2 (piecesUpTo_ne_nil _ _ _)
  length_le := by
    rw [fragments, length_fragmentsOf]
    exact length_piecesUpTo_le hconfig.maxFragments_pos hmessage _
  payload_le f hf := by
    have hpos : 0 < config.maxPayload := Nat.sub_pos_of_lt hconfig.mtu_gt
    refine length_le_of_mem_piecesUpTo hpos (Nat.le_refl message.length) f.payload ?_
    have hmem := List.mem_map_of_mem (f := Packet.payload) hf
    rwa [fragments, map_payload_fragmentsOf] at hmem
  isFinal_iff i h := by
    unfold fragments at h ⊢
    rw [isFinal_fragmentsOf, length_fragmentsOf]
  content := flatMap_payload_fragments config src dst kind channel message
  port_eq := port_of_mem_fragmentsOf

end NarrowLink.Engine

import Mathlib.Data.List.Perm.Subperm
import NarrowLink.Proofs.Engine.Fragments
import NarrowLink.Proofs.Reassembly.Tracking

/-!
# Fragments that gather in a queue

The fragments of one message come in with consecutive numbers, in any order and any number of times.
The queue of the port keeps one of each in ascending order, so it has all of them as soon as it has as
many (`whole_of_length`).  Then, and only then, a message is complete, and it is the one that was cut
(`Whole.isRun`, `length_le_of_isRun`).
-/

namespace NarrowLink.Reassembly

open Wire

/-- The packet carries a fragment under a number.  What else its header says is free. -/
structure Carries (p f : Packet) (number : UInt8) : Prop where
  fragSeq : p.header.fragSeq = number
  isFinal : p.isFinal = f.isFinal
  payload : p.payload = f.payload

/-- The packet carries one of the fragments, which are numbered from `first` on. -/
def CarriesOne (first : UInt8) (fs : List Packet) (p : Packet) : Prop :=
  ∃ i, ∃ h : i < fs.length, Carries p fs[i] (Serial.forward first i)

/-- The packets carry all fragments, each of them once and in order. -/
structure Whole (first : UInt8) (fs ps : List Packet) : Prop where
  length_eq : ps.length = fs.length
  carries : ∀ i (hp : i < ps.length) (hf : i < fs.length), Carries ps[i] fs[i] (Serial.forward first i)

variable {first : UInt8} {fs ps : List Packet} {p : Packet}

theorem CarriesOne.distance_lt (h : CarriesOne first fs p) (hlen : fs.length ≤ 128) :
    Serial.distance first p.header.fragSeq < fs.length := by
  obtain ⟨i, hi, hp⟩ := h
  rw [hp.fragSeq, Serial.distance_forward_self _ (by simp only [Serial.half]; omega)]
  exact hi

/-- The number of a packet says which fragment it carries. -/
theorem CarriesOne.carries (h : CarriesOne first fs p) (hlen : fs.length ≤ 128) {i : Nat}
    (hi : i < fs.length) (hp : Serial.distance first p.header.fragSeq = i) :
    Carries p fs[i] (Serial.forward first i) := by
  obtain ⟨j, hj, hc⟩ := h
  rw [hc.fragSeq, Serial.distance_forward_self _ (by simp only [Serial.half]; omega)] at hp
  subst hp
  exact hc

/-! ## All fragments are there -/

/-- The distances of packets in a queue of `n` are all numbers below `n`, if none is greater. -/
theorem distances_eq_range {n : Nat} (h : Ascending first ps) (hn : n ≤ ps.length)
    (hlt : ∀ x ∈ ps, Serial.distance first x.header.fragSeq < n) :
    ps.map (fun x => Serial.distance first x.header.fragSeq) = List.range n := by
  have hsorted := List.pairwise_map.2 h.sorted
  have hsubset : ps.map (fun x => Serial.distance first x.header.fragSeq) ⊆ List.range n := by
    intro d hd
    obtain ⟨x, hx, rfl⟩ := List.mem_map.1 hd
    exact List.mem_range.2 (hlt x hx)
  have hsubperm := List.Nodup.subperm (hsorted.imp Nat.ne_of_lt) hsubset
  have hperm := hsubperm.perm_of_length_le (by rwa [List.length_range, List.length_map])
  exact hperm.eq_of_pairwise (fun a b _ _ hab hba => absurd hab (Nat.lt_asymm hba)) hsorted
    List.pairwise_lt_range

/-- A queue with as many packets as there are fragments has all of them. -/
theorem whole_of_length (h : Ascending first ps) (hcarried : ∀ x ∈ ps, CarriesOne first fs x)
    (hfs : fs.length ≤ 128) (hlen : fs.length ≤ ps.length) : Whole first fs ps := by
  have hrange := distances_eq_range h hlen fun x hx => (hcarried x hx).distance_lt hfs
  have hlength := congrArg List.length hrange
  rw [List.length_map, List.length_range] at hlength
  refine ⟨hlength, fun i hp hf => (hcarried _ (List.getElem_mem hp)).carries hfs hf ?_⟩
  have hi := List.getElem_of_eq hrange (by rwa [List.length_map])
  rwa [List.getElem_map, List.getElem_range] at hi

/-- A queue that has a packet of each number has as many packets as there are numbers. -/
theorem length_le_of_numbers (hfs : fs.length ≤ 128)
    (h : ∀ i < fs.length, ∃ x ∈ ps, x.header.fragSeq = Serial.forward first i) :
    fs.length ≤ ps.length := by
  have hsubset : List.range fs.length ⊆
      ps.map (fun x => Serial.distance first x.header.fragSeq) := by
    intro i hi
    have hi := List.mem_range.1 hi
    obtain ⟨x, hx, he⟩ := h i hi
    refine List.mem_map.2 ⟨x, hx, ?_⟩
    rw [he, Serial.distance_forward_self _ (by simp only [Serial.half]; omega)]
  have hsubperm := List.Nodup.subperm List.nodup_range hsubset
  simpa using hsubperm.length_le

/-! ## The message is complete -/

theorem throughFinal_sublist (ps : List Packet) : (throughFinal ps).Sublist ps := by
  have h := List.sublist_append_left (throughFinal ps) (behindFinal ps)
  rwa [throughFinal_append_behindFinal] at h

theorem IsRun.throughFinal_eq (h : IsRun first ps) : throughFinal ps = ps := by
  have hall := h.throughFinal_append []
  rwa [List.append_nil] at hall

/-- Behind all fragments the port awaits the number that follows them. -/
theorem Whole.awaitedAfter (h : Whole first fs ps) (hpos : 0 < fs.length) :
    awaitedAfter first ps = Serial.forward first fs.length := by
  have hlen := h.length_eq
  have hlast : ps.getLast? = ps[fs.length - 1]? := by rw [List.getLast?_eq_getElem?, hlen]
  have hcarries := h.carries (fs.length - 1) (by omega) (by omega)
  rw [Reassembly.awaitedAfter, hlast, List.getElem?_eq_getElem (by omega)]
  show Serial.next ps[fs.length - 1].header.fragSeq = _
  rw [hcarries.fragSeq, ← Serial.forward_succ, Nat.sub_add_cancel hpos]

/-- Packets with consecutive numbers are a run if only the last one is final. -/
theorem isRun_of_fragSeq (hpos : 0 < ps.length)
    (hseq : ∀ i (h : i < ps.length), ps[i].header.fragSeq = Serial.forward first i)
    (hfinal : ∀ i (h : i < ps.length), ps[i].isFinal = true ↔ i + 1 = ps.length) :
    IsRun first ps := by
  induction ps generalizing first with
  | nil => exact absurd hpos (Nat.lt_irrefl 0)
  | cons p ps ih =>
    have hhead : p.isFinal = true ↔ 1 = ps.length + 1 := hfinal 0 hpos
    refine ⟨hseq 0 hpos, ?_⟩
    split
    · rename_i hp
      exact List.length_eq_zero_iff.1 (Nat.succ.inj (hhead.1 hp)).symm
    · rename_i hp
      refine ih (Nat.pos_of_ne_zero fun hnil => hp (hhead.2 (by rw [hnil]))) (fun i hi => ?_)
        fun i hi => ?_
      · rw [Serial.forward_next]
        exact hseq (i + 1) (Nat.succ_lt_succ hi)
      · exact (hfinal (i + 1) (Nat.succ_lt_succ hi)).trans Nat.add_right_cancel_iff

section Cut

variable {config : Config} {port : UInt8} {message : List UInt8}

theorem Whole.isRun (h : Whole first fs ps) (hcut : Engine.Cut config port message fs) :
    IsRun first ps := by
  have hlen := h.length_eq
  refine isRun_of_fragSeq (hlen ▸ hcut.length_pos) (fun i hi => (h.carries i hi (hlen ▸ hi)).fragSeq)
    fun i hi => ?_
  rw [(h.carries i hi (hlen ▸ hi)).isFinal, hcut.isFinal_iff i (hlen ▸ hi), hlen]

theorem Whole.content (h : Whole first fs ps) (hcut : Engine.Cut config port message fs) :
    ps.flatMap Packet.payload = message := by
  have hpayloads : ps.map Packet.payload = fs.map Packet.payload := by
    refine List.ext_getElem (by rw [List.length_map, List.length_map, h.length_eq]) fun i hp hf => ?_
    rw [List.length_map] at hp hf
    rw [List.getElem_map, List.getElem_map, (h.carries i hp hf).payload]
  rw [← hcut.content, List.flatMap_def, List.flatMap_def, hpayloads]

/-- A message is complete only when all fragments are there. -/
theorem length_le_of_isRun (hcut : Engine.Cut config port message fs) (hfs : fs.length ≤ 128)
    (hcarried : ∀ x ∈ ps, CarriesOne first fs x) (hrun : IsRun first (throughFinal ps)) :
    fs.length ≤ ps.length := by
  by_contra hshort
  obtain ⟨x, hx, hfinal⟩ := hrun.exists_isFinal
  obtain ⟨j, hj, rfl⟩ := List.getElem_of_mem hx
  have hsub := throughFinal_sublist ps
  have hle := hsub.length_le
  have hnumber : Serial.distance first (throughFinal ps)[j].header.fragSeq = j := by
    rw [hrun.fragSeq j hj, Serial.distance_forward_self _ (by simp only [Serial.half]; omega)]
  -- the final packet carries the last fragment, and a run has all packets before it
  have hlast := (hcarried _ (hsub.subset hx)).carries hfs (by omega) hnumber
  rw [hlast.isFinal, hcut.isFinal_iff] at hfinal
  omega

end Cut

end NarrowLink.Reassembly

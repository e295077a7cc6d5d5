import NarrowLink.Proofs.Reassembly.Handout
import NarrowLink.Proofs.Reassembly.Integrity

/-!
# How much waits for a port

A push that brings the queue of a port to as many fragments as a message may have either completes a
message, and then the port is announced, or it discards at least one fragment.  So no port ever has
more fragments queued than that, and a port that is not announced has fewer (`Within`,
`within_after`).  As the queues are in order as well, the fragments of a port stand as they should in
every state that a run of calls reaches (`InShape`, `inShape_after`).
-/

namespace NarrowLink.Reassembly

open Wire

/-- The port has no more fragments queued than a message may have, and fewer if it is not announced. -/
structure Within (limit : Nat) (port : UInt8) (r : Reassembly) : Prop where
  length_le : (r.queue.packets port).length ≤ limit
  length_lt : port ∉ r.announced → (r.queue.packets port).length < limit

/-- How the fragments that are queued for a port should stand. -/
structure InShape (config : Config) (port : UInt8) (r : Reassembly) : Prop where
  /-- No number is queued twice. -/
  nodup : ((r.queue.packets port).map fun p => p.header.fragSeq).Nodup
  /-- They ascend from the number that the port awaits, less than half the number space ahead. -/
  ascending : Ascending (r.awaited.get port) (r.queue.packets port)
  /-- There are no more of them than a message may have. -/
  length_le : (r.queue.packets port).length ≤ config.maxFragments

variable {config : Config} {limit : Nat} {r r' : Reassembly} {port : UInt8}

theorem Within.sameAt (h : Within limit port r) (hs : SameAt port r r') : Within limit port r' where
  length_le := hs.packets ▸ h.length_le
  length_lt hn := hs.packets ▸ h.length_lt fun hm => hn (hs.announced.2 hm)

theorem Within.of_lt (h : (r.queue.packets port).length < limit) : Within limit port r :=
  ⟨Nat.le_of_lt h, fun _ => h⟩

theorem mem_announce (h : port ∈ r.announced) (other : UInt8) :
    port ∈ (r.announce other).2.announced := by
  unfold announce
  split
  · exact List.mem_append_left _ h
  · exact h

theorem length_skipGap_le (r : Reassembly) (port : UInt8) :
    ((r.skipGap port).queue.packets port).length ≤ (r.queue.packets port).length - 1 := by
  have ht := takes_takeThroughFinal r port
  by_cases hnil : r.queue.packets port = []
  · have hempty : (r.skipGap port).queue.packets port = [] := by
      refine ht.packets.trans ?_
      rw [hnil]
      rfl
    rw [hempty]
    exact Nat.zero_le _
  · exact Nat.le_sub_one_of_lt (ht.length_lt hnil)

theorem Within.push (hlimit : r.config.maxFragments = limit) (p : Packet)
    (h : Within limit port r) : Within limit port (r.push p).2 := by
  by_cases hport : port = p.port
  · subst hport
    have hlen := length_queued r p
    have hp := pushed r p
    generalize (r.push p).2 = r' at hp ⊢
    cases hp with
    | ignored => exact h
    | completed _ hn =>
      refine ⟨hlen.trans_le (h.length_lt hn), fun hquiet => absurd ?_ hquiet⟩
      exact List.mem_append_right _ (List.mem_singleton_self _)
    | waiting _ _ hlt => exact .of_lt (hlimit ▸ hlt)
    | skipped =>
      have hle := length_skipGap_le (r.queued p) p.port
      rw [hlen, Nat.add_sub_cancel, ← queue_announce _ p.port] at hle
      refine ⟨Nat.le_trans hle h.length_le, fun hquiet => ?_⟩
      -- announcing only adds, so the port was not announced before
      refine Nat.lt_of_le_of_lt hle (h.length_lt fun hm => hquiet (mem_announce ?_ p.port))
      rw [announced_skipGap]
      exact hm
  · exact h.sameAt (.push hport)

theorem Within.take (hpos : 0 < limit) (h : Within limit port r) : Within limit port r.take.2 := by
  by_cases hother : ∀ m ∈ r.handed .take, m.1 ≠ port
  · exact h.sameAt (.take hother)
  · obtain ⟨-, -, -, hf, ports, ha⟩ := exists_of_handed hother
    have hle := length_skipGap_le { r with announced := ports } port
    rw [← queue_announce _ port] at hle
    refine .of_lt ?_
    rw [take_eq hf ha]
    exact Nat.lt_of_le_of_lt (Nat.le_trans hle (Nat.sub_le_sub_right h.length_le 1))
      (Nat.sub_one_lt (Nat.pos_iff_ne_zero.1 hpos))

theorem Within.apply (hlimit : r.config.maxFragments = limit) (hpos : 0 < limit)
    (h : Within limit port r) (c : Call) : Within limit port (r.apply c) := by
  cases c with
  | push p => exact h.push hlimit p
  | append p => exact h.sameAt (.append r p)
  | take => exact h.take hpos

/-- Whatever is asked of a reassembly, no port has more queued than a message may have. -/
theorem within_after (hpos : 0 < config.maxFragments) (calls : List Call) (port : UInt8) :
    Within config.maxFragments port ((new config).after calls) := by
  induction calls using List.reverseRecOn with
  | nil =>
    refine .of_lt ?_
    rw [after_nil, new, Queue.packets_empty]
    exact hpos
  | append_singleton calls c ih =>
    have hs := (standing_new config).after calls
    rw [after_concat]
    exact ih.apply (by rw [hs.sized.config_eq]) hpos c

/-- In every state that a run of calls reaches, the fragments of each port stand as they should. -/
theorem inShape_after (config : Config) (hconfig : config.validate = .ok ()) (calls : List Call)
    (port : UInt8) : InShape config port ((new config).after calls) := by
  have hvalid := config.validate_eq_ok_iff.1 hconfig
  have hasc := (ordered_after config calls).ascending port
  refine ⟨?_, hasc, (within_after hvalid.maxFragments_pos calls port).length_le⟩
  refine List.pairwise_map.2 (hasc.sorted.imp fun hlt he => ?_)
  rw [he] at hlt
  exact Nat.lt_irrefl _ hlt

/-- Fragment 0 is lost, so that fragments 1 and 2 are discarded when fragment 100 comes in; after that
fragment 130 is the last one that counts as new. -/
theorem inShape_of_skipped :
    ({ maxFragments := 3 } : Config).validate = .ok () ∧
      InShape { maxFragments := 3 } 7 ((new { maxFragments := 3 }).after
        [.push (fragment 1 true []), .push (fragment 2 false []), .push (fragment 100 true []),
          .push (fragment 130 true []), .push (fragment 131 true []), .take]) ∧
      (((new { maxFragments := 3 }).after
        [.push (fragment 1 true []), .push (fragment 2 false []), .push (fragment 100 true []),
          .push (fragment 130 true []), .push (fragment 131 true []), .take]).queue.packets 7) =
        [fragment 100 true [], fragment 130 true []] :=
  ⟨by decide, inShape_after _ (by decide) _ 7, by decide +kernel⟩

end NarrowLink.Reassembly

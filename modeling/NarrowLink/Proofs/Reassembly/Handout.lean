import NarrowLink.Proofs.Reassembly.Tracking

/-!
# What a run of calls hands out

`Reassembly.handedOut` lists the datagram messages that are taken in a run of calls.  Whatever the
calls, each port is announced at most once, the queues stay in order, and the bytes of the queue are
accounted for (`Standing`).  A port does not notice the calls that are about other ports: its queue,
the number it awaits and whether it is announced stay as they are (`SameAt`).  Taking as many times as
there is something to take leaves nothing to take (`take_after_takes`).
-/

namespace NarrowLink.Reassembly

open Wire

/-- The datagram message that a call hands out.  Finished messages of connections come first. -/
def handed (r : Reassembly) : Call → List (UInt8 × List UInt8)
  | .take => if r.finished = [] then r.take.1.toList else []
  | _ => []

/-- The datagram messages that a run of calls hands out. -/
def handedOut : Reassembly → List Call → List (UInt8 × List UInt8)
  | _, [] => []
  | r, c :: calls => r.handed c ++ (r.apply c).handedOut calls

variable {config : Config} {r r' r'' : Reassembly} {port : UInt8} {p : Packet}

theorem after_append (r : Reassembly) (calls calls' : List Call) :
    r.after (calls ++ calls') = (r.after calls).after calls' := List.foldl_append

theorem handedOut_append (r : Reassembly) (calls calls' : List Call) :
    r.handedOut (calls ++ calls') = r.handedOut calls ++ (r.after calls).handedOut calls' := by
  induction calls generalizing r with
  | nil => rfl
  | cons c calls ih =>
    rw [List.cons_append, handedOut, handedOut, ih, List.append_assoc]
    rfl

theorem take_of_none (h : r.take.1 = none) : r.take = (none, r) := by
  obtain ⟨hf, ha⟩ := take_eq_none_iff.1 h
  unfold take
  rw [hf, ha]

/-! ## What every run keeps -/

theorem Sized.append (h : r.Sized config) (p : Packet) : (r.append p).Sized config := by
  obtain ⟨_, _, he⟩ := append_fields r p
  rw [he]
  exact ⟨h.config_eq, h.capacity, h.counted⟩

theorem nodup_announce (h : r.announced.Nodup) (port : UInt8) : (r.announce port).2.announced.Nodup := by
  unfold announce
  split
  · rename_i hc
    refine List.nodup_append.2 ⟨h, by simp, fun a ha b hb e => hc.1 ?_⟩
    rw [← List.mem_singleton.1 hb, ← e]
    exact ha
  · exact h

theorem queue_announce (r : Reassembly) (port : UInt8) : (r.announce port).2.queue = r.queue := by
  obtain ⟨announced, he⟩ := announce_fields r port
  rw [he]

theorem announced_skipGap (r : Reassembly) (port : UInt8) :
    (r.skipGap port).announced = r.announced := by
  have h := (takes_takeThroughFinal r port).eq
  rw [skipGap, h]

theorem nodup_push (h : r.announced.Nodup) (p : Packet) : (r.push p).2.announced.Nodup := by
  have hp := pushed r p
  generalize (r.push p).2 = r' at hp ⊢
  cases hp with
  | ignored => exact h
  | completed _ hn hc =>
    have hnodup := nodup_announce (r := r.queued p) h p.port
    rwa [announce, if_pos ⟨hn, hc⟩] at hnodup
  | waiting => exact h
  | skipped => exact nodup_announce ((announced_skipGap (r.queued p) p.port).symm ▸ h) p.port

theorem nodup_take (h : r.announced.Nodup) : r.take.2.announced.Nodup := by
  unfold take
  split
  · exact h
  split
  · exact h
  rename_i port ports hports
  rw [hports, List.nodup_cons] at h
  exact nodup_announce ((announced_skipGap { r with announced := ports } port).symm ▸ h.2) port

/-- What holds of every state that a run of calls reaches. -/
structure Standing (config : Config) (r : Reassembly) : Prop where
  ordered : r.Ordered
  sized : r.Sized config
  nodup : r.announced.Nodup

theorem standing_new (config : Config) : (new config).Standing config :=
  ⟨ordered_new config, sized_new config, List.nodup_nil⟩

theorem Standing.apply (h : r.Standing config) (c : Call) : (r.apply c).Standing config := by
  refine ⟨h.ordered.apply c, ?_, ?_⟩
  · cases c with
    | push p => exact h.sized.push p
    | append p => exact h.sized.append p
    | take => exact h.sized.take
  · cases c with
    | push p => exact nodup_push h.nodup p
    | append p =>
      obtain ⟨_, _, he⟩ := append_fields r p
      show (r.append p).announced.Nodup
      rw [he]
      exact h.nodup
    | take => exact nodup_take h.nodup

theorem Standing.after (h : r.Standing config) (calls : List Call) :
    (r.after calls).Standing config := by
  induction calls generalizing r with
  | nil => exact h
  | cons c calls ih => exact ih (h.apply c)

/-! ## What a port does not notice -/

/-- Two states are the same as far as a port can tell. -/
structure SameAt (port : UInt8) (r r' : Reassembly) : Prop where
  packets : r'.queue.packets port = r.queue.packets port
  awaited : r'.awaited.get port = r.awaited.get port
  announced : port ∈ r'.announced ↔ port ∈ r.announced

theorem SameAt.refl (port : UInt8) (r : Reassembly) : SameAt port r r := ⟨rfl, rfl, .rfl⟩

theorem SameAt.trans (h : SameAt port r r') (h' : SameAt port r' r'') : SameAt port r r'' where
  packets := h'.packets.trans h.packets
  awaited := h'.awaited.trans h.awaited
  announced := h'.announced.trans h.announced

theorem SameAt.announce {other : UInt8} (h : port ≠ other) : SameAt port r (r.announce other).2 := by
  unfold Reassembly.announce
  split
  · exact ⟨rfl, rfl, by simp [h]⟩
  · exact .refl port r

theorem SameAt.skipGap {other : UInt8} (h : port ≠ other) : SameAt port r (r.skipGap other) where
  packets := (takes_takeThroughFinal r other).packets_other port h
  awaited := (takes_takeThroughFinal r other).awaited_other port h
  announced := by rw [announced_skipGap]

theorem SameAt.queued (h : port ≠ p.port) : SameAt port r (r.queued p) where
  packets := packets_queued_of_ne h
  awaited := rfl
  announced := .rfl

theorem SameAt.push (h : port ≠ p.port) : SameAt port r (r.push p).2 := by
  have hp := pushed r p
  generalize (r.push p).2 = r' at hp ⊢
  cases hp with
  | ignored => exact .refl port r
  | completed => exact ⟨packets_queued_of_ne h, rfl, by simp [h]⟩
  | waiting => exact .queued h
  | skipped => exact ((SameAt.queued h).trans (.skipGap h)).trans (.announce h)

theorem SameAt.append (r : Reassembly) (p : Packet) : SameAt port r (r.append p) := by
  obtain ⟨_, _, he⟩ := append_fields r p
  rw [he]
  exact ⟨rfl, rfl, .rfl⟩

/-- A port notices that a message is taken exactly if the message is its own. -/
theorem SameAt.take (h : ∀ m ∈ r.handed .take, m.1 ≠ port) : SameAt port r r.take.2 := by
  cases hf : r.finished with
  | cons m ms =>
    unfold Reassembly.take
    rw [hf]
    exact ⟨rfl, rfl, .rfl⟩
  | nil =>
    cases ha : r.announced with
    | nil =>
      rw [take_of_none (take_eq_none_iff.2 ⟨hf, ha⟩)]
      exact .refl port r
    | cons other ports =>
      have htake := take_eq hf ha
      have hne : port ≠ other := by
        rw [handed, if_pos hf, htake] at h
        exact Ne.symm (h _ (List.mem_singleton_self _))
      have hfront : SameAt port r { r with announced := ports } := ⟨rfl, rfl, by simp [ha, hne]⟩
      rw [htake]
      exact (hfront.trans (.skipGap hne)).trans (.announce hne)

/-- What is handed out for a port stood first in line. -/
theorem exists_of_handed (h : ¬ ∀ m ∈ r.handed .take, m.1 ≠ port) :
    ∃ m ∈ r.handed .take, m.1 = port ∧ r.finished = [] ∧ ∃ ports, r.announced = port :: ports := by
  simp only [not_forall, not_not] at h
  obtain ⟨m, hm, hport⟩ := h
  refine ⟨m, hm, hport, ?_⟩
  by_cases hf : r.finished = []
  · refine ⟨hf, ?_⟩
    rw [handed, if_pos hf] at hm
    cases ha : r.announced with
    | nil =>
      rw [take_of_none (take_eq_none_iff.2 ⟨hf, ha⟩)] at hm
      exact absurd hm List.not_mem_nil
    | cons other ports =>
      rw [take_eq hf ha] at hm
      cases List.mem_singleton.1 hm
      exact ⟨ports, by rw [← hport]⟩
  · rw [handed, if_neg hf] at hm
    exact absurd hm List.not_mem_nil

/-! ## Taking all there is -/

theorem after_takes_of_none (h : r.take.1 = none) (n : Nat) :
    r.after (List.replicate n .take) = r := by
  induction n with
  | zero => rfl
  | succ n ih =>
    rw [List.replicate_succ]
    show r.take.2.after _ = r
    rw [take_of_none h]
    exact ih

theorem take_after_takes {n : Nat} (h : r.pending ≤ n) :
    (r.after (List.replicate n .take)).take.1 = none := by
  induction n generalizing r with
  | zero => exact take_drainUpTo 0 r h
  | succ n ih =>
    cases ht : r.take.1 with
    | none => rw [after_takes_of_none ht, ht]
    | some m =>
      have hless := pending_take ht
      rw [List.replicate_succ]
      exact ih (r := r.take.2) (by omega)

/-- The run of calls goes on until there is nothing left to take. -/
def thenTaken (r : Reassembly) (calls : List Call) : List Call :=
  calls ++ List.replicate (r.after calls).pending .take

theorem take_after_thenTaken (r : Reassembly) (calls : List Call) :
    (r.after (r.thenTaken calls)).take.1 = none := by
  rw [thenTaken, after_append]
  exact take_after_takes (Nat.le_refl _)

theorem thenTaken_append (r : Reassembly) (calls calls' : List Call) :
    r.thenTaken (calls ++ calls') = calls ++ (r.after calls).thenTaken calls' := by
  rw [thenTaken, thenTaken, after_append, List.append_assoc]

/-! ## Taking from a port with nothing queued -/

/-- Taking makes room. -/
theorem used_takeUpTo_le (n : Nat) (r : Reassembly) (port : UInt8) :
    (r.takeUpTo n port).2.queue.used ≤ r.queue.used := by
  induction n generalizing r with
  | zero => exact Nat.le_refl _
  | succ n ih =>
    rw [takeUpTo]
    cases hpop : r.queue.pop port with
    | none => exact Nat.le_refl _
    | some popped =>
      obtain ⟨p, q⟩ := popped
      have hused := Queue.used_pop_le hpop
      simp only
      split
      · exact hused
      · exact Nat.le_trans (ih _) hused

/-- What takes leave of a state in which the port has nothing queued, next to what they hand out for the
port. -/
structure Drained (port : UInt8) (r r' : Reassembly) (out : List (List UInt8)) : Prop where
  empty : r'.queue.packets port = []
  awaited : r'.awaited.get port = r.awaited.get port
  used_le : r'.queue.used ≤ r.queue.used
  announced : port ∈ r.announced → port ∈ r'.announced ∨ out ≠ []

theorem used_take_le (r : Reassembly) : r.take.2.queue.used ≤ r.queue.used := by
  unfold Reassembly.take
  split
  · exact Nat.le_refl _
  split
  · exact Nat.le_refl _
  rename_i port ports _
  obtain ⟨announced, he⟩ := announce_fields
    (({ r with announced := ports } : Reassembly).takeThroughFinal port).2 port
  simp only [he]
  exact used_takeUpTo_le _ _ port

theorem drained_take (hempty : r.queue.packets port = []) :
    Drained port r r.take.2 (forPort port (r.handed .take)) := by
  by_cases hother : ∀ m ∈ r.handed .take, m.1 ≠ port
  · have hs := SameAt.take hother
    exact ⟨hs.packets.trans hempty, hs.awaited, used_take_le r, fun h => .inl (hs.announced.2 h)⟩
  · obtain ⟨m, hm, hport, hf, ports, ha⟩ := exists_of_handed hother
    have ht := takes_takeThroughFinal { r with announced := ports } port
    obtain ⟨announced, he⟩ := announce_fields
      (({ r with announced := ports } : Reassembly).skipGap port) port
    have htake : r.take.2 = { ({ r with announced := ports } : Reassembly).skipGap port with
        announced := announced } := by rw [take_eq hf ha, he]
    refine ⟨?_, ?_, used_take_le r, fun _ => .inr ?_⟩
    · rw [htake]
      refine ht.packets.trans ?_
      show behindFinal (r.queue.packets port) = []
      rw [hempty]
      rfl
    · rw [htake]
      refine ht.awaited.trans ?_
      show awaitedAfter _ (throughFinal (r.queue.packets port)) = _
      rw [hempty]
      rfl
    · refine List.ne_nil_of_mem (List.mem_map_of_mem (a := m) (List.mem_filter.2 ⟨hm, ?_⟩))
      simpa using hport

theorem drained_after_takes (hempty : r.queue.packets port = []) (n : Nat) :
    Drained port r (r.after (List.replicate n .take))
      (forPort port (r.handedOut (List.replicate n .take))) := by
  induction n generalizing r with
  | zero => exact ⟨hempty, rfl, Nat.le_refl _, .inl⟩
  | succ n ih =>
    have hone := drained_take hempty
    have hlater := ih hone.empty
    rw [List.replicate_succ, handedOut, forPort_append]
    refine ⟨hlater.empty, hlater.awaited.trans hone.awaited,
      Nat.le_trans hlater.used_le hone.used_le, fun h => ?_⟩
    rcases hone.announced h with h | h
    · exact (hlater.announced h).imp_right fun hne he => hne (List.append_eq_nil_iff.1 he).2
    · exact .inr fun he => h (List.append_eq_nil_iff.1 he).1

end NarrowLink.Reassembly

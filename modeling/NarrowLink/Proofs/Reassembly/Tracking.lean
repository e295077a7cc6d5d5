import NarrowLink.Proofs.Reassembly.Draining
import NarrowLink.Proofs.Reassembly.Messages

/-!
# Following what comes out of a lossy link

On a link that loses fragments, reassembly skips what it can not complete.  It resumes at the start of
a message as long as a final fragment is among those that it skips, and it tells old from new
fragments as long as they are less than half the number space ahead.  A packet with which one of these
fails misleads it (`Misleads`).  Until that happens a port is a subsequence of what was sent
(`Tracks`), and the messages that are taken are among those sent, in their order
(`Rests.sublist_of_steady`).
-/

namespace NarrowLink.Reassembly

open Wire

/-- Reassembly goes astray with the packet, although it is new. -/
inductive Misleads (r : Reassembly) (p : Packet) : Prop where
  /-- It is taken for an old one. -/
  | stale (hroom : ¬ r.Full)
      (h : Serial.precedes p.header.fragSeq (r.awaited.get p.port) = true)
  /-- As many fragments wait as a message may have, and none of them ends a message. -/
  | blind (h : r.Accepts p) (hlen : r.config.maxFragments ≤ (r.queue.packets p.port).length + 1)
      (hp : p.isFinal = false) (hq : ∀ o ∈ r.queue.packets p.port, o.isFinal = false)

/-- No datagram for the port misleads the reassembly. -/
def Steady (port : UInt8) : Reassembly → List Packet → Prop
  | _, [] => True
  | r, p :: ps => (p.port = port → ¬ r.Misleads p) ∧ Steady port (r.receive p).2 ps

/-- No datagram is refused. -/
def Admitted : Reassembly → List Packet → Prop
  | _, [] => True
  | r, p :: ps => (r.push p).1 = .ok () ∧ Admitted (r.receive p).2 ps

/-- The messages of a port. -/
def forPort (port : UInt8) (ms : List (UInt8 × List UInt8)) : List (List UInt8) :=
  (ms.filter fun m => m.1 == port).map Prod.snd

/-- The fragments `seen` of the messages `rest` were sent so far, and those in the queue of the port
are among them. -/
structure Tracks (r : Reassembly) (port : UInt8) (rest : List (List Packet))
    (seen future : List Packet) : Prop where
  numbered : Numbered (r.awaited.get port) rest
  sent : rest.flatten = seen ++ future
  queue : (r.queue.packets port).Sublist seen
  last : (r.queue.packets port).getLast? = seen.getLast?
  near : seen.length ≤ 128

variable {config : Config} {r r' : Reassembly} {port : UInt8} {p : Packet}
  {rest : List (List Packet)} {seen future : List Packet}

theorem forPort_append (ms ms' : List (UInt8 × List UInt8)) :
    forPort port (ms ++ ms') = forPort port ms ++ forPort port ms' := by
  simp [forPort]

theorem Tracks.congr (h : Tracks r port rest seen future)
    (hq : r'.queue.packets port = r.queue.packets port)
    (ha : r'.awaited.get port = r.awaited.get port) : Tracks r' port rest seen future where
  numbered := ha ▸ h.numbered
  sent := h.sent
  queue := hq ▸ h.queue
  last := hq ▸ h.last
  near := h.near

/-! ## Taking what is queued -/

theorem exists_throughFinal {ps : List Packet} (h : ∃ x ∈ ps, x.isFinal = true) :
    ∃ front x, x.isFinal = true ∧ throughFinal ps = front ++ [x] ∧
      ps = front ++ x :: behindFinal ps := by
  induction ps with
  | nil => simp at h
  | cons p ps ih =>
    unfold throughFinal behindFinal
    by_cases hp : p.isFinal = true
    · exact ⟨[], p, hp, if_pos hp, by rw [if_pos hp]; rfl⟩
    · obtain ⟨x, hx, hf⟩ := h
      have hx : x ∈ ps := by
        rcases List.mem_cons.1 hx with rfl | hx
        · exact absurd hf hp
        · exact hx
      obtain ⟨front, y, hy, ht, he⟩ := ih ⟨x, hx, hf⟩
      rw [if_neg hp, if_neg hp]
      exact ⟨p :: front, y, hy, congrArg (p :: ·) ht, congrArg (p :: ·) he⟩

/-- Taking up to a final fragment leaves the port at the start of a message.  What is taken is a
message if it is a run. -/
theorem Tracks.takes (h : Tracks r port rest seen future)
    (hx : ∃ x ∈ r.queue.packets port, x.isFinal = true) (ht : Takes r port r') :
    ∃ gone rest' seen', rest = gone ++ rest' ∧ Tracks r' port rest' seen' future ∧
      (IsRun (r.awaited.get port) (throughFinal (r.queue.packets port)) →
        gone = [throughFinal (r.queue.packets port)]) := by
  obtain ⟨front, x, hf, htaken, hsplit⟩ := exists_throughFinal hx
  have hsub := h.queue
  have hlast := h.last
  rw [hsplit] at hsub hlast
  obtain ⟨before, behind, rfl, hfront, hback, hlast'⟩ := sublist_cut hsub hlast
  have hsent : rest.flatten = before ++ x :: (behind ++ future) := by rw [h.sent]; simp
  obtain ⟨gone, rest', rfl, hgone, hrest, hn, hn'⟩ := h.numbered.split hsent hf
  have hawaited : r'.awaited.get port = Serial.next x.header.fragSeq := by
    rw [ht.awaited, htaken]
    simp [awaitedAfter]
  have hnear := h.near
  rw [List.length_append, List.length_cons] at hnear
  refine ⟨gone, rest', behind, rfl, ⟨hawaited ▸ hn', hrest, ?_, ?_, by omega⟩, fun hrun => ?_⟩
  · rw [ht.packets]
    exact hback
  · rw [ht.packets]
    exact hlast'
  · -- the run has as many fragments as were sent, so it misses none of them
    have hnum : x.header.fragSeq = Serial.forward (r.awaited.get port) front.length := by
      have := hrun.fragSeq front.length (by simp [htaken])
      simpa [htaken] using this
    have hlen : front.length = before.length := by
      refine Serial.forward_inj (r.awaited.get port) ?_ ?_
        (hnum.symm.trans (h.numbered.fragSeq_of_split hsent))
      · have := hfront.length_le
        simp only [Serial.half]
        omega
      · simp only [Serial.half]
        omega
    have hbefore := hfront.eq_of_length hlen
    subst hbefore
    rw [htaken] at hrun ⊢
    exact hn.eq_singleton hgone hrun

/-! ## A fragment comes in -/

/-- The number of a fragment that arrives says how many fragments were sent before it. -/
theorem Tracks.distance (h : Tracks r port rest seen future) {lost later : List Packet}
    (he : future = lost ++ p :: later) (hlost : lost.length < 128) :
    Serial.distance (r.awaited.get port) p.header.fragSeq = seen.length + lost.length := by
  have hnear := h.near
  have hsent : rest.flatten = (seen ++ lost) ++ p :: later := by rw [h.sent, he]; simp
  rw [h.numbered.fragSeq_of_split hsent,
    Serial.distance_forward_self _ (by simp only [List.length_append, Serial.half]; omega),
    List.length_append]

/-- A new fragment that is less than half the number space ahead goes to the end of the queue. -/
theorem Tracks.queued (h : Tracks r port rest seen future) (ho : r.Ordered) (ha : r.Accepts p)
    (hp : p.port = port) {lost later : List Packet} (he : future = lost ++ p :: later)
    (hlost : lost.length < 128) :
    (r.queued p).queue.packets port = r.queue.packets port ++ [p] ∧
      Tracks (r.queued p) port rest (seen ++ lost ++ [p]) later := by
  subst hp
  have hd := h.distance he hlost
  have hcur := distance_lt_of_not_precedes ha.current
  have hqueue : (r.queued p).queue.packets p.port = r.queue.packets p.port ++ [p] := by
    show (r.queue.add p).packets p.port = _
    rw [Queue.packets_add_self, ho.order]
    refine Order.insert_eq_append _ _ fun y hy => ?_
    have hy := List.mem_of_getLast? hy
    have hdy := (ho.ascending p.port).near y hy
    obtain ⟨front, back, hback⟩ := List.append_of_mem (h.queue.subset hy)
    have hsent : rest.flatten = front ++ y :: (back ++ future) := by rw [h.sent, hback]; simp
    have hlen : front.length < seen.length := by simp [hback]
    have hnear := h.near
    rw [← Bool.not_eq_true, precedes_fragment_iff hcur hdy, hd, h.numbered.fragSeq_of_split hsent,
      Serial.distance_forward_self _ (by simp only [Serial.half]; omega)]
    omega
  refine ⟨hqueue, h.numbered, by rw [h.sent, he]; simp, ?_, ?_, ?_⟩
  · rw [hqueue]
    exact (h.queue.trans (List.sublist_append_left _ _)).append_right [p]
  · rw [hqueue, List.getLast?_concat, List.getLast?_concat]
  · rw [hd] at hcur
    simp only [List.length_append, List.length_singleton]
    omega

theorem Tracks.fresh (h : Tracks r port rest seen future) {lost later : List Packet}
    (he : future = lost ++ p :: later) (hlost : lost.length < 128) :
    ∀ o ∈ r.queue.packets port, o.header.fragSeq ≠ p.header.fragSeq := by
  intro o ho e
  obtain ⟨front, back, hback⟩ := List.append_of_mem (h.queue.subset ho)
  have hsent : rest.flatten = front ++ o :: (back ++ future) := by rw [h.sent, hback]; simp
  have hlen : front.length < seen.length := by simp [hback]
  have hnear := h.near
  have hd := h.distance he hlost
  rw [← e, h.numbered.fragSeq_of_split hsent,
    Serial.distance_forward_self _ (by simp only [Serial.half]; omega)] at hd
  omega

/-! ## The consumer takes what is complete -/

theorem IsRun.exists_isFinal {first : UInt8} {run : List Packet} (h : IsRun first run) :
    ∃ x ∈ run, x.isFinal = true := by
  induction run generalizing first with
  | nil => exact h.elim
  | cons p ps ih =>
    obtain ⟨-, h⟩ := h
    split at h
    · rename_i hp
      exact ⟨p, List.mem_cons_self, hp⟩
    · obtain ⟨x, hx, hf⟩ := ih h
      exact ⟨x, List.mem_cons_of_mem _ hx, hf⟩

/-- Less waits for the port than before, unless nothing has changed there. -/
def Shrinks (r r' : Reassembly) (port : UInt8) : Prop :=
  (r'.queue.packets port = r.queue.packets port ∧ r'.awaited.get port = r.awaited.get port) ∨
    (r'.queue.packets port).length < (r.queue.packets port).length

theorem Shrinks.trans {r'' : Reassembly} (h : Shrinks r r' port) (h' : Shrinks r' r'' port) :
    Shrinks r r'' port := by
  rcases h with ⟨hq, ha⟩ | hlt
  · rcases h' with ⟨hq', ha'⟩ | hlt'
    · exact .inl ⟨hq'.trans hq, ha'.trans ha⟩
    · exact .inr (hq ▸ hlt')
  · rcases h' with ⟨hq', -⟩ | hlt'
    · exact .inr (hq'.symm ▸ hlt)
    · exact .inr (Nat.lt_trans hlt' hlt)

theorem Takes.length_lt (ht : Takes r port r') (hne : r.queue.packets port ≠ []) :
    (r'.queue.packets port).length < (r.queue.packets port).length := by
  have hlen := congrArg List.length (throughFinal_append_behindFinal (r.queue.packets port))
  have hpos := List.length_pos_of_ne_nil (throughFinal_ne_nil hne)
  rw [List.length_append] at hlen
  rw [ht.packets]
  omega

theorem Tracks.take (hs : r.Settled config) (h : Tracks r port rest seen future) :
    ∃ gone rest' seen', rest = gone ++ rest' ∧ Tracks r.take.2 port rest' seen' future ∧
      forPort port r.take.1.toList = gone.map content ∧ Shrinks r r.take.2 port := by
  have hf := hs.finished
  cases ha : r.announced with
  | nil =>
    have ht : r.take = (none, r) := by
      unfold Reassembly.take
      rw [hf, ha]
    rw [ht]
    exact ⟨[], rest, seen, rfl, h, rfl, .inl ⟨rfl, rfl⟩⟩
  | cons first ports =>
    obtain ⟨r', announced, ht, he⟩ := take_of_announced hf ha
    rw [he]
    by_cases hport : first = port
    · subst hport
      have hc : r.isComplete first = true := (hs.exact.mem_iff first).1 (by simp [ha])
      have hrun := (completeFrom_iff _ _).1 hc
      obtain ⟨x, hx, hfinal⟩ := hrun.exists_isFinal
      have hxq : x ∈ r.queue.packets first := by
        rw [← throughFinal_append_behindFinal (r.queue.packets first)]
        exact List.mem_append_left _ hx
      have h' : Tracks { r with announced := ports } first rest seen future := h.congr rfl rfl
      obtain ⟨gone, rest', seen', hrest, htracks, hgone⟩ := h'.takes ⟨x, hxq, hfinal⟩ ht
      refine ⟨gone, rest', seen', hrest, htracks.congr rfl rfl, ?_, ?_⟩
      · rw [hgone hrun]
        simp [forPort, content]
      · exact .inr (ht.length_lt (List.ne_nil_of_mem hxq))
    · have hq := ht.packets_other port (Ne.symm hport)
      have hw := ht.awaited_other port (Ne.symm hport)
      refine ⟨[], rest, seen, rfl, h.congr hq hw, ?_, .inl ⟨hq, hw⟩⟩
      simp [forPort, hport]

theorem Tracks.drainUpTo (n : Nat) {r : Reassembly} {rest : List (List Packet)}
    {seen : List Packet} (hs : r.Settled config) (h : Tracks r port rest seen future) :
    ∃ gone rest' seen', rest = gone ++ rest' ∧
      Tracks (r.drainUpTo n).2 port rest' seen' future ∧
      forPort port (r.drainUpTo n).1 = gone.map content ∧ Shrinks r (r.drainUpTo n).2 port := by
  induction n generalizing r rest seen with
  | zero => exact ⟨[], rest, seen, rfl, h, rfl, .inl ⟨rfl, rfl⟩⟩
  | succ n ih =>
    obtain ⟨gone, rest', seen', rfl, h', hgone, hshrinks⟩ := h.take hs
    have hs' := hs.take
    unfold Reassembly.drainUpTo
    rcases ht : r.take with ⟨m, r'⟩
    rw [ht] at h' hgone hshrinks hs'
    cases m with
    | none => exact ⟨gone, rest', seen', rfl, h', hgone, hshrinks⟩
    | some m =>
      obtain ⟨gone', rest'', seen'', rfl, h'', hgone', hshrinks'⟩ := ih hs' h'
      refine ⟨gone ++ gone', rest'', seen'', by simp, h'', ?_, hshrinks.trans hshrinks'⟩
      simp only at hgone hgone' ⊢
      rw [← List.singleton_append, forPort_append, hgone', List.map_append, ← hgone]
      rfl

/-! ## One datagram -/

/-- Between two datagrams fewer fragments wait than a message may have. -/
structure Rests (r : Reassembly) (port : UInt8) (rest : List (List Packet))
    (seen future : List Packet) : Prop extends Tracks r port rest seen future where
  short : r.queue.packets port = [] ∨ (r.queue.packets port).length < r.config.maxFragments

/-- A new fragment that does not mislead leaves the port at the start of a message, and a message is
complete if as many fragments wait as one may have. -/
theorem Rests.push (ho : r.Ordered) (h : Rests r p.port rest seen future) (ha : r.Accepts p)
    (hm : ¬ r.Misleads p) {lost later : List Packet} (he : future = lost ++ p :: later)
    (hlost : lost.length < 128) :
    ∃ gone rest' seen', rest = gone ++ rest' ∧ Tracks (r.push p).2 p.port rest' seen' later ∧
      ((r.push p).2.queue.packets p.port).length ≤ (r.queue.packets p.port).length + 1 ∧
      ((r.push p).2.isComplete p.port = true ∨ (r.push p).2.queue.packets p.port = [] ∨
        ((r.push p).2.queue.packets p.port).length < r.config.maxFragments) := by
  obtain ⟨hqueue, hq⟩ := h.queued ho ha rfl he hlost
  have hlen := length_queued r p
  have hp := pushed r p
  generalize (r.push p).2 = r' at hp ⊢
  cases hp with
  | ignored hn => exact absurd ha hn
  | completed _ _ hc => exact ⟨[], rest, _, rfl, hq.congr rfl rfl, Nat.le_of_eq hlen, .inl hc⟩
  | waiting _ _ hlt => exact ⟨[], rest, _, rfl, hq, Nat.le_of_eq hlen, .inr (.inr hlt)⟩
  | skipped _ _ hmax =>
    have hx : ∃ x ∈ (r.queued p).queue.packets p.port, x.isFinal = true := by
      by_contra hnone
      simp only [not_exists, not_and, Bool.not_eq_true, hqueue] at hnone
      refine hm (.blind ha (hlen ▸ hmax) (hnone p (by simp)) fun o ho => hnone o ?_)
      exact List.mem_append_left _ ho
    have ht := takes_takeThroughFinal (r.queued p) p.port
    obtain ⟨gone, rest', seen', hrest, htracks, -⟩ := hq.takes hx ht
    obtain ⟨announced, hann⟩ := announce_fields ((r.queued p).skipGap p.port) p.port
    have hless : ((((r.queued p).skipGap p.port).announce p.port).2.queue.packets p.port).length ≤
        (r.queue.packets p.port).length := by
      have := ht.length_lt (by rw [hqueue]; simp)
      rw [hlen] at this
      rw [hann]
      exact Nat.lt_succ_iff.1 this
    refine ⟨gone, rest', seen', hrest, hann ▸ htracks.congr rfl rfl, Nat.le_succ_of_le hless,
      .inr ?_⟩
    rcases h.short with hnil | hlt
    · rw [hnil, List.length_nil, Nat.le_zero, List.length_eq_zero_iff] at hless
      exact .inl hless
    · exact .inr (Nat.lt_of_le_of_lt hless hlt)

/-- A datagram for the port leaves it at the start of a message, and the messages that are taken are
the next ones. -/
theorem Rests.receive_self (hi : r.Idle config) (h : Rests r p.port rest seen future)
    (hok : (r.push p).1 = .ok ()) (hm : ¬ r.Misleads p) (hfull : ¬ r.Full)
    {lost later : List Packet} (he : future = lost ++ p :: later) (hlost : lost.length < 128) :
    ∃ gone taken rest' seen', rest = gone ++ (taken ++ rest') ∧
      Rests (r.receive p).2 p.port rest' seen' later ∧
      forPort p.port (r.receive p).1 = taken.map content := by
  have hcur : Serial.precedes p.header.fragSeq (r.awaited.get p.port) = false := by
    rw [← Bool.not_eq_true]
    exact fun e => hm (.stale hfull e)
  have ha := accepts_of_push_ok hok hcur (h.fresh he hlost)
  obtain ⟨gone, rest₁, seen₁, rfl, h₁, hlen, hshort⟩ := h.push hi.ordered ha hm he hlost
  obtain ⟨taken, rest₂, seen₂, rfl, h₂, htaken, hshrinks⟩ := h₁.drainUpTo _ (hi.push p)
  have hidle := hi.receive p
  refine ⟨gone, taken, rest₂, seen₂, rfl, ⟨h₂, ?_⟩, htaken⟩
  rw [hidle.sized.config_eq, ← hi.sized.config_eq]
  rcases hshrinks with ⟨hq, hw⟩ | hlt
  · rcases hshort with hc | hshort
    · -- the consumer would have taken what is complete
      have := (isComplete_congr hq hw).symm.trans (hidle.isComplete p.port)
      rw [hc] at this
      cases this
    · rw [show (r.receive p).2.queue.packets p.port = _ from hq]
      exact hshort
  · have hle := Nat.lt_succ_iff.1 (Nat.lt_of_lt_of_le hlt hlen)
    rcases h.short with hnil | hshort
    · rw [hnil, List.length_nil, Nat.le_zero, List.length_eq_zero_iff] at hle
      exact .inl hle
    · exact .inr (Nat.lt_of_le_of_lt hle hshort)

/-- A datagram for another port leaves the port as it is. -/
theorem Rests.receive_other (hi : r.Idle config) (h : Rests r port rest seen future)
    (hp : p.port ≠ port) : ∃ taken rest' seen', rest = taken ++ rest' ∧
      Rests (r.receive p).2 port rest' seen' future ∧
      forPort port (r.receive p).1 = taken.map content := by
  obtain ⟨hq, hw⟩ := push_of_ne (r := r) hp.symm
  obtain ⟨taken, rest', seen', rfl, h', htaken, hshrinks⟩ :=
    (h.congr hq hw).drainUpTo (r.push p).2.pending (hi.push p)
  refine ⟨taken, rest', seen', rfl, ⟨h', ?_⟩, htaken⟩
  rw [(hi.receive p).sized.config_eq, ← hi.sized.config_eq]
  rcases hshrinks with ⟨hq', -⟩ | hlt
  · rw [show (r.receive p).2.queue.packets port = _ from hq'.trans hq]
    exact h.short
  · rw [hq] at hlt
    rcases h.short with hnil | hshort
    · simp [hnil] at hlt
    · exact .inr (Nat.lt_trans hlt hshort)

/-- One datagram of a run that no datagram misleads. -/
theorem Rests.receive {ps : List Packet} (hi : r.Idle config) (h : Rests r port rest seen future)
    (hl : Loses 0 future ((p :: ps).filter fun p => p.port == port))
    (hok : (r.push p).1 = .ok ()) (hm : p.port = port → ¬ r.Misleads p) (hfull : ¬ r.Full) :
    ∃ gone taken rest' seen' future', rest = gone ++ (taken ++ rest') ∧
      Rests (r.receive p).2 port rest' seen' future' ∧
      Loses 0 future' (ps.filter fun p => p.port == port) ∧
      forPort port (r.receive p).1 = taken.map content := by
  by_cases hp : p.port = port
  · subst hp
    rw [List.filter_cons_of_pos (by simp)] at hl
    obtain ⟨lost, later, he, hlost, hl'⟩ := hl.arrive (by omega)
    obtain ⟨gone, taken, rest', seen', hrest, h', htaken⟩ :=
      h.receive_self hi hok (hm rfl) hfull he (by omega)
    exact ⟨gone, taken, rest', seen', later, hrest, h', hl', htaken⟩
  · rw [List.filter_cons_of_neg (by simpa using hp)] at hl
    obtain ⟨taken, rest', seen', hrest, h', htaken⟩ := h.receive_other hi hp
    exact ⟨[], taken, rest', seen', future, hrest, h', hl, htaken⟩

/-! ## Runs of datagrams -/

theorem rests_new {messages : List (List Packet)} (h : Numbered 0 messages) :
    Rests (new config) port messages [] messages.flatten where
  numbered := by
    rw [new, ByteMap.get_const]
    exact h
  sent := rfl
  queue := by
    rw [new, Queue.packets_empty]
  last := by
    rw [new, Queue.packets_empty]
  near := Nat.zero_le _
  short := by
    rw [new, Queue.packets_empty]
    exact .inl rfl

/-- As long as nothing misleads, what is taken was sent, in the same order. -/
theorem Rests.sublist_of_steady {arrivals : List Packet} {rest : List (List Packet)}
    {seen future : List Packet} (hi : r.Idle config) (h : Rests r port rest seen future)
    (hl : Loses 0 future (arrivals.filter fun p => p.port == port)) (hadm : Admitted r arrivals)
    (hsteady : Steady port r arrivals) :
    (forPort port (r.receiveAll arrivals)).Sublist (rest.map content) := by
  induction arrivals generalizing r rest seen future with
  | nil => exact List.nil_sublist _
  | cons p ps ih =>
    by_cases hfull : r.Full
    · rw [hi.receiveAll_of_full hfull]
      exact List.nil_sublist _
    · obtain ⟨gone, taken, rest', seen', future', rfl, h', hl', htaken⟩ :=
        h.receive hi hl hadm.1 hsteady.1 hfull
      rw [receiveAll, forPort_append, htaken, List.map_append, List.map_append]
      refine List.Sublist.trans ?_ (List.sublist_append_right _ _)
      exact (ih (hi.receive p) h' hl' hadm.2 hsteady.2).append_left _

end NarrowLink.Reassembly

import NarrowLink.Proofs.Reassembly.Calls

/-!
# Which ports are announced

A reassembly is exact when it announces precisely the ports with a complete message, each once
(`Exact`).  A port that already has a complete message is not announced again, and a push takes that
for the sign of a lost fragment once as many fragments wait as a message may have: it then discards
the complete message (`Displaces`).  A run of calls stays exact, hands out whole messages only and
keeps what is complete precisely as long as this does not happen (`staysExact_iff`).
-/

namespace NarrowLink.Reassembly

open Wire

/-- Precisely the ports with a complete message are announced, each of them once. -/
structure Exact (r : Reassembly) : Prop where
  nodup : r.announced.Nodup
  mem_iff : ∀ port, port ∈ r.announced ↔ r.isComplete port = true

/-- A datagram that is handed out now is an unbroken run of fragments, from the one that its port
awaits to a final one. -/
def HandsOutRuns (r : Reassembly) : Prop :=
  ∀ port content, r.finished = [] → r.take.1 = some (port, content) →
    ∃ run rest, r.queue.packets port = run ++ rest ∧ IsRun (r.awaited.get port) run ∧
      content = run.flatMap Packet.payload

/-- Pushing the packet discards nothing of a message that is complete. -/
def KeepsComplete (r : Reassembly) (p : Packet) : Prop :=
  ∀ port run rest, r.queue.packets port = run ++ rest → IsRun (r.awaited.get port) run →
    (r.push p).2.awaited.get port = r.awaited.get port ∧
      ∃ rest', (r.push p).2.queue.packets port = run ++ rest'

/-- The packet reaches a port that has a complete message already, and with it as many fragments wait
as a message may have. -/
def Displaces (r : Reassembly) (p : Packet) : Prop :=
  r.Accepts p ∧ r.isComplete p.port = true ∧
    r.config.maxFragments ≤ (r.queue.packets p.port).length + 1

variable {r : Reassembly} {p : Packet}

theorem isComplete_iff {port : UInt8} : r.isComplete port = true ↔
    ∃ run rest, r.queue.packets port = run ++ rest ∧ IsRun (r.awaited.get port) run := by
  unfold isComplete
  constructor
  · intro h
    exact ⟨_, _, (throughFinal_append_behindFinal _).symm, (completeFrom_iff _ _).1 h⟩
  · rintro ⟨run, rest, he, hrun⟩
    rw [he]
    exact hrun.completeFrom_append rest

theorem isComplete_congr {r' : Reassembly} {port : UInt8}
    (hp : r'.queue.packets port = r.queue.packets port)
    (ha : r'.awaited.get port = r.awaited.get port) : r'.isComplete port = r.isComplete port := by
  unfold isComplete
  rw [hp, ha]

/-! ## Where a new fragment goes -/

/-- A new fragment is put behind a message that is complete. -/
theorem insert_behind_run (ho : r.Ordered) (ha : r.Accepts p) {run rest : List Packet}
    (he : r.queue.packets p.port = run ++ rest) (hrun : IsRun (r.awaited.get p.port) run) :
    (r.queued p).queue.packets p.port = run ++ Order.fragment.insert p rest := by
  have hasc := ho.ascending p.port
  rw [he] at hasc
  have hlen : ∀ i, i < run.length → i < 128 := by
    intro i
    induction i with
    | zero => omega
    | succ i ih =>
      intro hi
      have hd := hasc.near run[i + 1] (by simp)
      rw [hrun.fragSeq, Serial.distance_forward_self] at hd
      · exact hd
      · have := ih (by omega)
        simp only [Serial.half]
        omega
  show (r.queue.add p).packets p.port = _
  rw [Queue.packets_add_self, ho.order, he]
  refine Order.insert_append _ p rest fun x hx => ?_
  obtain ⟨i, hi, rfl⟩ := List.getElem_of_mem hx
  have hdp := distance_lt_of_not_precedes ha.current
  have hdx : Serial.distance (r.awaited.get p.port) run[i].header.fragSeq = i := by
    rw [hrun.fragSeq i hi, Serial.distance_forward_self]
    have := hlen i hi
    simp only [Serial.half]
    omega
  have hle : i ≤ Serial.distance (r.awaited.get p.port) p.header.fragSeq := by
    by_contra hlt
    -- otherwise the run has a fragment with this number already
    refine ha.fresh run[Serial.distance (r.awaited.get p.port) p.header.fragSeq] ?_ ?_
    · rw [he]
      simp
    · rw [hrun.fragSeq, Serial.forward_distance]
  rw [← Bool.not_eq_true, precedes_fragment_iff hdp (by rw [hdx]; exact hlen i hi), hdx]
  omega

theorem isComplete_queued (ho : r.Ordered) (ha : r.Accepts p)
    (hc : r.isComplete p.port = true) : (r.queued p).isComplete p.port = true := by
  obtain ⟨run, rest, he, hrun⟩ := isComplete_iff.1 hc
  exact isComplete_iff.2 ⟨run, _, insert_behind_run ho ha he hrun, hrun⟩

theorem packets_queued_of_ne {port : UInt8} (h : port ≠ p.port) :
    (r.queued p).queue.packets port = r.queue.packets port :=
  Queue.packets_add_of_ne _ h.symm

theorem length_queued (r : Reassembly) (p : Packet) :
    ((r.queued p).queue.packets p.port).length = (r.queue.packets p.port).length + 1 := by
  show ((r.queue.add p).packets p.port).length = _
  rw [Queue.packets_add_self, Order.length_insert]

/-! ## Steps that stay exact -/

theorem exact_announce {port : UInt8} (hnd : r.announced.Nodup) (hn : port ∉ r.announced)
    (ho : ∀ other, other ≠ port → (other ∈ r.announced ↔ r.isComplete other = true)) :
    (r.announce port).2.Exact := by
  unfold announce
  by_cases hc : r.isComplete port = true
  · rw [if_pos ⟨hn, hc⟩]
    refine ⟨List.nodup_append.2 ⟨hnd, by simp, ?_⟩, ?_⟩
    · intro a ha b hb e
      rw [List.mem_singleton.1 hb] at e
      exact hn (e ▸ ha)
    · intro other
      show other ∈ r.announced ++ [port] ↔ r.isComplete other = true
      by_cases he : other = port
      · simp [he, hc]
      · simp [he, ho other he]
  · rw [if_neg fun e => hc e.2]
    refine ⟨hnd, fun other => ?_⟩
    by_cases he : other = port
    · subst he
      exact ⟨fun e => absurd e hn, fun e => absurd e hc⟩
    · exact ho other he

/-- Taking from a port that is not announced any more, and announcing it again where another message
is complete, ends in an exact state. -/
theorem exact_takes_announce {r' : Reassembly} {port : UInt8} (ht : Takes r port r')
    (hnd : r.announced.Nodup) (hn : port ∉ r.announced)
    (ho : ∀ other, other ≠ port → (other ∈ r.announced ↔ r.isComplete other = true)) :
    (r'.announce port).2.Exact := by
  have ha : r'.announced = r.announced := by rw [ht.eq]
  refine exact_announce (ha ▸ hnd) (ha ▸ hn) fun other hne => ?_
  rw [ha, isComplete_congr (ht.packets_other other hne) (ht.awaited_other other hne)]
  exact ho other hne

theorem Exact.push (h : r.Exact) (ho : r.Ordered) (hd : ¬ r.Displaces p) :
    (r.push p).2.Exact := by
  have hother : ∀ other, other ≠ p.port →
      (other ∈ (r.queued p).announced ↔ (r.queued p).isComplete other = true) := by
    intro other hne
    rw [isComplete_congr (r := r) (packets_queued_of_ne hne) rfl]
    exact h.mem_iff other
  have hp := pushed r p
  generalize (r.push p).2 = r' at hp ⊢
  cases hp with
  | ignored => exact h
  | completed ha hn hc =>
    have := exact_announce (r := r.queued p) h.nodup hn hother
    rwa [announce, if_pos ⟨hn, hc⟩] at this
  | waiting ha hn =>
    refine ⟨h.nodup, fun port => ?_⟩
    by_cases he : port = p.port
    · subst he
      constructor
      · exact fun hm => isComplete_queued ho ha ((h.mem_iff _).1 hm)
      · intro hc
        by_contra hm
        exact hn ⟨hm, hc⟩
    · exact hother port he
  | skipped ha hn hlen =>
    rw [length_queued] at hlen
    have hnm : p.port ∉ r.announced := fun hm => hd ⟨ha, (h.mem_iff _).1 hm, hlen⟩
    exact exact_takes_announce (takes_takeThroughFinal _ _) h.nodup hnm hother

theorem Exact.append (h : r.Exact) (p : Packet) : (r.append p).Exact := by
  obtain ⟨_, _, he⟩ := append_fields r p
  rw [he]
  exact ⟨h.nodup, h.mem_iff⟩

theorem Exact.take (h : r.Exact) : r.take.2.Exact := by
  unfold Reassembly.take
  split
  · exact ⟨h.nodup, h.mem_iff⟩
  split
  · exact h
  rename_i port ports hports
  have hnd := h.nodup
  rw [hports, List.nodup_cons] at hnd
  refine exact_takes_announce (r := { r with announced := ports }) (takes_takeThroughFinal _ port)
    hnd.2 hnd.1 fun other hne => ?_
  have := h.mem_iff other
  rw [hports, List.mem_cons, or_iff_right hne] at this
  exact this

/-! ## What an exact state does -/

theorem Exact.handsOutRuns (h : r.Exact) : r.HandsOutRuns := by
  intro port content hf ht
  unfold Reassembly.take at ht
  rw [hf] at ht
  cases hann : r.announced with
  | nil =>
    rw [hann] at ht
    cases ht
  | cons first ports =>
    rw [hann] at ht
    simp only [Option.some.injEq, Prod.mk.injEq] at ht
    obtain ⟨rfl, rfl⟩ := ht
    have hc := (h.mem_iff first).1 (by rw [hann]; exact List.mem_cons_self)
    rw [takeThroughFinal_fst]
    exact ⟨_, _, (throughFinal_append_behindFinal _).symm, (completeFrom_iff _ _).1 hc, rfl⟩

theorem Exact.keepsComplete (h : r.Exact) (ho : r.Ordered) (hd : ¬ r.Displaces p) :
    r.KeepsComplete p := by
  intro port run rest he hrun
  have hc : r.isComplete port = true := isComplete_iff.2 ⟨run, rest, he, hrun⟩
  by_cases hport : port = p.port
  · subst hport
    have hm := (h.mem_iff p.port).2 hc
    have hp := pushed r p
    generalize (r.push p).2 = r' at hp ⊢
    cases hp with
    | ignored => exact ⟨rfl, rest, he⟩
    | completed ha hn => exact absurd hm hn
    | waiting ha => exact ⟨rfl, _, insert_behind_run ho ha he hrun⟩
    | skipped ha hn hlen => exact absurd ⟨ha, hc, by rwa [length_queued] at hlen⟩ hd
  · obtain ⟨hq, ha⟩ := push_of_ne (r := r) hport
    exact ⟨ha, rest, hq.trans he⟩

/-- A displacing push discards the message that was complete. -/
theorem not_keepsComplete_of_displaces (h : r.Exact) (ho : r.Ordered) (hd : r.Displaces p) :
    ¬ r.KeepsComplete p := by
  intro hkeep
  obtain ⟨ha, hc, hlen⟩ := hd
  obtain ⟨run, rest, he, hrun⟩ := isComplete_iff.1 hc
  obtain ⟨-, rest', hrest'⟩ := hkeep p.port run rest he hrun
  have hm := (h.mem_iff p.port).2 hc
  have hins := insert_behind_run ho ha he hrun
  have hnew : (r.push p).2.queue.packets p.port = Order.fragment.insert p rest := by
    have hp := pushed r p
    generalize (r.push p).2 = r' at hp ⊢
    cases hp with
    | ignored hn => exact absurd ha hn
    | completed _ hn => exact absurd hm hn
    | waiting _ _ hlt =>
      rw [length_queued] at hlt
      omega
    | skipped =>
      obtain ⟨_, hannounce⟩ := announce_fields ((r.queued p).skipGap p.port) p.port
      rw [hannounce]
      refine (takes_takeThroughFinal (r.queued p) p.port).packets.trans ?_
      have := throughFinal_append_behindFinal ((r.queued p).queue.packets p.port)
      rw [hins, hrun.throughFinal_append] at this
      rw [hins]
      exact List.append_cancel_left this
  -- so the first fragment of the message would stand behind itself
  obtain ⟨x, xs, rfl⟩ := List.exists_cons_of_ne_nil hrun.ne_nil
  have hx : x ∈ Order.fragment.insert p rest := by
    rw [← hnew, hrest']
    simp
  rcases (Order.mem_insert _ _).1 hx with rfl | hx
  · exact ha.fresh x (by rw [he]; simp) rfl
  · have := (ho.ascending p.port).sorted
    rw [he, List.cons_append, List.pairwise_cons] at this
    exact Nat.lt_irrefl _ (this.1 x (List.mem_append_right _ hx))

/-! ## Runs of calls -/

theorem exact_new (config : Config) : (new config).Exact := by
  refine ⟨List.nodup_nil, fun port => ?_⟩
  rw [isComplete, new, Queue.packets_empty]
  simp [completeFrom]

theorem exact_after {config : Config} {calls : List Call}
    (h : ∀ before p later, calls = before ++ .push p :: later →
      ¬ ((new config).after before).Displaces p) : ((new config).after calls).Exact := by
  induction calls using List.reverseRecOn with
  | nil => exact exact_new config
  | append_singleton calls c ih =>
    have he := ih fun before p later e => h before p (later ++ [c]) (by simp [e])
    rw [after_concat]
    cases c with
    | push p => exact he.push (ordered_after config calls) (h calls p [] rfl)
    | append p => exact he.append p
    | take => exact he.take

/-- In a run of calls, every state announces precisely the ports with a complete message and hands out
whole messages only, and no push discards anything of a complete message. -/
def StaysExact (config : Config) (calls : List Call) : Prop :=
  (∀ before later, calls = before ++ later →
    ((new config).after before).Exact ∧ ((new config).after before).HandsOutRuns) ∧
  ∀ before p later, calls = before ++ .push p :: later → ((new config).after before).KeepsComplete p

/-- A run of calls stays exact precisely if none of its pushes displaces a complete message. -/
theorem staysExact_iff (config : Config) (calls : List Call) :
    StaysExact config calls ↔ ∀ before p later, calls = before ++ .push p :: later →
      ¬ ((new config).after before).Displaces p := by
  constructor
  · rintro ⟨hexact, hkeep⟩ before p later he hd
    exact not_keepsComplete_of_displaces (hexact before _ he).1 (ordered_after config before) hd
      (hkeep before p later he)
  · intro h
    have hex : ∀ before later, calls = before ++ later → ((new config).after before).Exact := by
      intro before later he
      refine exact_after fun before' p later' e => h before' p (later' ++ later) ?_
      rw [he, e]
      simp
    refine ⟨fun before later he => ⟨hex before later he, (hex before later he).handsOutRuns⟩, ?_⟩
    intro before p later he
    exact (hex before _ he).keepsComplete (ordered_after config before) (h before p later he)

/-- With two fragments to a message, the first fragment of a second message displaces a first message
that was complete, and the port stays announced without a message. -/
theorem not_staysExact_of_slow_consumer :
    ({ maxFragments := 2 } : Config).validate = .ok () ∧
      ¬ StaysExact { maxFragments := 2 }
        [.push ⟨{ kind := .datagram, dst := 7, src := 1, fragSeq := 0, more := true }, [97], 0⟩,
          .push ⟨{ kind := .datagram, dst := 7, src := 1, fragSeq := 1 }, [98], 0⟩,
          .push ⟨{ kind := .datagram, dst := 7, src := 1, fragSeq := 2, more := true }, [99], 0⟩] := by
  refine ⟨by decide, fun h => ?_⟩
  have := ((h.1 _ [] (List.append_nil _).symm).1.mem_iff 7).1 (by decide +kernel)
  revert this
  decide +kernel

end NarrowLink.Reassembly

import NarrowLink.Proofs.Reassembly.Gathering
import NarrowLink.Proofs.Reassembly.Handout
import NarrowLink.Proofs.Reassembly.Integrity

/-!
# Reassembly undoes fragmentation

A message is cut into fragments, the fragments are numbered from the one that the port awaits, and they
are pushed in any order, any number of times, among any other calls (`Brings`).  For the port the run
goes through three stages (`Stage`): fragments gather, the message is complete, the message has been
taken.  Fragments that are pushed again are dropped, first as duplicates and then as old ones, because
there are no more than 128 of them.  So the message comes out once and as it was (`Standing.restores`).

All this takes for granted that the port was not announced to begin with.  A port can be left announced
without a message, when a push takes a complete message for one with a lost fragment; a message that
is sent to it then may not come out as it was (`restores_iff`).
-/

namespace NarrowLink.Reassembly

open Wire

/-- A run of calls brings fragments to a port, numbered from the one that it awaits, each at least once.
Other ports may get whatever they like, and no push is refused. -/
structure Brings (r : Reassembly) (port : UInt8) (fs : List Packet) (calls : List Call) : Prop where
  carried : ∀ p, .push p ∈ calls → p.port = port → CarriesOne (r.awaited.get port) fs p
  each : ∀ i (h : i < fs.length), ∃ p, .push p ∈ calls ∧ p.port = port ∧
    Carries p fs[i] (Serial.forward (r.awaited.get port) i)
  admitted : ∀ before p later, calls = before ++ .push p :: later →
    ((r.after before).push p).1 = .ok ()

/-- Every message whose fragments are brought to the port comes out exactly once and as it was, and
nothing is left behind. -/
def Restores (config : Config) (r : Reassembly) (port : UInt8) : Prop :=
  ∀ src kind channel message calls, message.length ≤ config.maxMessage →
    Brings r port (Engine.fragments config src port kind channel message) calls →
    forPort port (r.handedOut (r.thenTaken calls)) = [message] ∧
      (r.after (r.thenTaken calls)).queue.packets port = [] ∧
      (r.after (r.thenTaken calls)).awaited.get port = Serial.forward (r.awaited.get port)
        (Engine.fragments config src port kind channel message).length

/-- How far a message has come, from the calls so far to what was taken. -/
inductive Stage (port first : UInt8) (fs : List Packet) (message : List UInt8) (calls : List Call)
    (r : Reassembly) : List (List UInt8) → Prop
  | gathering (awaited : r.awaited.get port = first) (quiet : port ∉ r.announced)
      (carried : ∀ x ∈ r.queue.packets port, CarriesOne first fs x)
      (short : (r.queue.packets port).length < fs.length)
      (kept : ∀ p, .push p ∈ calls → p.port = port →
        ∃ x ∈ r.queue.packets port, x.header.fragSeq = p.header.fragSeq) :
      Stage port first fs message calls r []
  | complete (awaited : r.awaited.get port = first) (announced : port ∈ r.announced)
      (whole : Whole first fs (r.queue.packets port)) : Stage port first fs message calls r []
  | delivered (awaited : r.awaited.get port = Serial.forward first fs.length)
      (quiet : port ∉ r.announced) (empty : r.queue.packets port = []) :
      Stage port first fs message calls r [message]

variable {config : Config} {r r' : Reassembly} {port first : UInt8} {fs : List Packet}
  {message : List UInt8} {calls : List Call} {out : List (List UInt8)} {p : Packet}

/-- A port that notices nothing stays where it is. -/
theorem Stage.sameAt (h : Stage port first fs message calls r out) (hs : SameAt port r r') {c : Call}
    (hc : ∀ p, c = .push p → p.port ≠ port) : Stage port first fs message (calls ++ [c]) r' out := by
  cases h with
  | gathering awaited quiet carried short kept =>
    refine .gathering (hs.awaited.trans awaited) (fun h => quiet (hs.announced.1 h)) ?_ ?_ ?_
    · rwa [hs.packets]
    · rwa [hs.packets]
    · intro p hp hport
      rw [hs.packets]
      rcases List.mem_append.1 hp with hp | hp
      · exact kept p hp hport
      · exact absurd hport (hc p (List.mem_singleton.1 hp).symm)
  | complete awaited announced whole =>
    exact .complete (hs.awaited.trans awaited) (hs.announced.2 announced) (hs.packets ▸ whole)
  | delivered awaited quiet empty =>
    exact .delivered (hs.awaited.trans awaited) (fun h => quiet (hs.announced.1 h))
      (hs.packets.trans empty)

/-! ## A fragment comes in -/

theorem CarriesOne.current (h : CarriesOne first fs p) (hfs : fs.length ≤ 128) :
    Serial.precedes p.header.fragSeq first = false := by
  have hd := h.distance_lt hfs
  rw [Serial.precedes, decide_eq_false_iff_not]
  simp only [Serial.half]
  omega

/-- Behind the last fragment every fragment is old. -/
theorem CarriesOne.stale (h : CarriesOne first fs p) (hfs : fs.length ≤ 128) :
    Serial.precedes p.header.fragSeq (Serial.forward first fs.length) = true := by
  obtain ⟨i, hi, hp⟩ := h
  rw [hp.fragSeq, Serial.precedes_forward_iff first (by simp only [Serial.half]; omega)
    (by simp only [Serial.half]; omega)]
  exact hi

/-- A fragment that is queued completes the message if it is the last one that was missing, and waits
otherwise. -/
theorem push_gathering (hs : r.Standing config) (hcut : Engine.Cut config port message fs)
    (hfs : fs.length ≤ 128) (hquiet : port ∉ r.announced)
    (hcarried : ∀ x ∈ r.queue.packets port, CarriesOne (r.awaited.get port) fs x)
    (hp : CarriesOne (r.awaited.get port) fs p) (hport : p.port = port) (ha : r.Accepts p) :
    (Whole (r.awaited.get port) fs ((r.queued p).queue.packets port) ∧
        (r.push p).2 = { r.queued p with announced := r.announced ++ [port] }) ∨
      (((r.queued p).queue.packets port).length < fs.length ∧ (r.push p).2 = r.queued p) := by
  subst hport
  have hinsert : (r.queued p).queue.packets p.port =
      Order.fragment.insert p (r.queue.packets p.port) := by
    show (r.queue.add p).packets p.port = _
    rw [Queue.packets_add_self, hs.ordered.order]
  have hall : ∀ x ∈ (r.queued p).queue.packets p.port, CarriesOne (r.awaited.get p.port) fs x := by
    intro x hx
    rw [hinsert] at hx
    rcases (Order.mem_insert _ _).1 hx with rfl | hx
    · exact hp
    · exact hcarried x hx
  rw [push_of_accepts ha]
  by_cases hlen : fs.length ≤ ((r.queued p).queue.packets p.port).length
  · have hwhole := whole_of_length ((hs.ordered.queued ha).ascending p.port) hall hfs hlen
    have hcomplete : (r.queued p).isComplete p.port = true :=
      isComplete_iff.2 ⟨_, [], (List.append_nil _).symm, hwhole.isRun hcut⟩
    exact .inl ⟨hwhole, by rw [if_pos ⟨hquiet, hcomplete⟩]⟩
  · have hincomplete : ¬ (r.queued p).isComplete p.port = true := fun hc =>
      hlen (length_le_of_isRun hcut hfs hall ((completeFrom_iff _ _).1 hc))
    have hmax : ¬ r.config.maxFragments ≤ ((r.queued p).queue.packets p.port).length := by
      have := hcut.length_le
      rw [hs.sized.config_eq]
      omega
    exact .inr ⟨Nat.lt_of_not_le hlen, by rw [if_neg fun hc => hincomplete hc.2, if_neg hmax]⟩

theorem Stage.push (h : Stage port first fs message calls r out) (hs : r.Standing config)
    (hcut : Engine.Cut config port message fs) (hfs : fs.length ≤ 128)
    (hp : CarriesOne first fs p) (hport : p.port = port) (hok : (r.push p).1 = .ok ()) :
    Stage port first fs message (calls ++ [.push p]) (r.push p).2 out := by
  cases h with
  | gathering awaited quiet carried short kept =>
    subst awaited
    by_cases ha : r.Accepts p
    · have hmem : ∀ x, x ∈ (r.queued p).queue.packets port ↔ x = p ∨ x ∈ r.queue.packets port := by
        intro x
        rw [← hport]
        show x ∈ (r.queue.add p).packets p.port ↔ _
        rw [Queue.packets_add_self, Order.mem_insert]
      rcases push_gathering hs hcut hfs quiet carried hp hport ha with ⟨hwhole, he⟩ | ⟨hshort, he⟩
      · rw [he]
        exact .complete rfl (List.mem_append_right _ (List.mem_singleton_self port)) hwhole
      · rw [he]
        refine .gathering rfl quiet (fun x hx => ?_) hshort fun q hq hqport => ?_
        · rcases (hmem x).1 hx with rfl | hx
          · exact hp
          · exact carried x hx
        · rcases List.mem_append.1 hq with hq | hq
          · obtain ⟨x, hx, he⟩ := kept q hq hqport
            exact ⟨x, (hmem x).2 (.inr hx), he⟩
          · cases List.mem_singleton.1 hq
            exact ⟨p, (hmem p).2 (.inl rfl), rfl⟩
    · -- it is not old and was not refused, so it is in the queue already
      rw [push_of_not_accepts ha]
      refine .gathering rfl quiet carried short fun q hq hqport => ?_
      rcases List.mem_append.1 hq with hq | hq
      · exact kept q hq hqport
      · cases List.mem_singleton.1 hq
        by_contra hnone
        refine ha (accepts_of_push_ok hok ?_ fun o ho he => hnone ⟨o, hport ▸ ho, he⟩)
        rw [hport]
        exact hp.current hfs
  | complete awaited announced whole =>
    have ha : ¬ r.Accepts p := by
      intro ha
      obtain ⟨i, hi, hc⟩ := hp
      subst hport
      have hi' : i < (r.queue.packets p.port).length := whole.length_eq ▸ hi
      refine ha.fresh _ (List.getElem_mem hi') ?_
      rw [(whole.carries i hi' hi).fragSeq, hc.fragSeq]
    rw [push_of_not_accepts ha]
    exact .complete awaited announced whole
  | delivered awaited quiet empty =>
    rw [push_of_stale (by rw [hport, awaited]; exact hp.stale hfs)]
    exact .delivered awaited quiet empty

/-! ## A message is taken -/

/-- Taking a complete message takes all of its fragments. -/
theorem take_of_whole {ports : List UInt8} (hcut : Engine.Cut config port message fs)
    (hf : r.finished = []) (ha : r.announced = port :: ports)
    (hwhole : Whole (r.awaited.get port) fs (r.queue.packets port)) :
    r.take.1 = some (port, message) ∧ r.take.2.announced = ports ∧
      r.take.2.queue.packets port = [] ∧
      r.take.2.awaited.get port = Serial.forward (r.awaited.get port) fs.length := by
  have htaken := (hwhole.isRun hcut).throughFinal_eq
  have hleft : behindFinal (r.queue.packets port) = [] := by
    have hsplit := throughFinal_append_behindFinal (r.queue.packets port)
    rwa [htaken, List.append_right_eq_self] at hsplit
  have ht := takes_takeThroughFinal { r with announced := ports } port
  have hempty : (({ r with announced := ports } : Reassembly).skipGap port).queue.packets port = [] :=
    ht.packets.trans hleft
  rw [take_eq hf ha, announce, if_neg fun hc =>
    Bool.false_ne_true ((isComplete_eq_false hempty).symm.trans hc.2)]
  refine ⟨?_, announced_skipGap _ _, hempty, ht.awaited.trans ?_⟩
  · rw [htaken, hwhole.content hcut]
  · show awaitedAfter (r.awaited.get port) (throughFinal (r.queue.packets port)) = _
    rw [htaken, hwhole.awaitedAfter hcut.length_pos]

theorem Stage.take (h : Stage port first fs message calls r out) (hs : r.Standing config)
    (hcut : Engine.Cut config port message fs) :
    Stage port first fs message (calls ++ [.take]) r.take.2 (out ++ forPort port (r.handed .take)) := by
  by_cases hother : ∀ m ∈ r.handed .take, m.1 ≠ port
  · have hnone : forPort port (r.handed .take) = [] := by
      rw [forPort, List.filter_eq_nil_iff.2 (by simpa using hother)]
      rfl
    rw [hnone, List.append_nil]
    exact h.sameAt (.take hother) fun _ hc => by cases hc
  · obtain ⟨-, -, -, hf, ports, ha⟩ := exists_of_handed hother
    have hmem : port ∈ r.announced := ha ▸ List.mem_cons_self
    have hnodup := hs.nodup
    rw [ha, List.nodup_cons] at hnodup
    cases h with
    | gathering _ quiet => exact absurd hmem quiet
    | delivered _ quiet => exact absurd hmem quiet
    | complete awaited announced whole =>
      subst awaited
      obtain ⟨htaken, hports, hempty, hawaited⟩ := take_of_whole hcut hf ha whole
      have hout : forPort port (r.handed .take) = [message] := by
        rw [handed, if_pos hf, htaken]
        simp [forPort]
      rw [hout]
      exact .delivered hawaited (hports ▸ hnodup.1) hempty

/-! ## Runs -/

/-- One call takes the message further, or leaves it where it is. -/
theorem Stage.apply (h : Stage port first fs message calls r out) (hs : r.Standing config)
    (hcut : Engine.Cut config port message fs) (hfs : fs.length ≤ 128) {c : Call}
    (hcarried : ∀ p, c = .push p → p.port = port → CarriesOne first fs p)
    (hok : ∀ p, c = .push p → (r.push p).1 = .ok ()) :
    Stage port first fs message (calls ++ [c]) (r.apply c) (out ++ forPort port (r.handed c)) := by
  cases c with
  | push p =>
    rw [show forPort port (r.handed (.push p)) = [] from rfl, List.append_nil]
    by_cases hport : p.port = port
    · exact h.push hs hcut hfs (hcarried p rfl hport) hport (hok p rfl)
    · refine h.sameAt (.push (Ne.symm hport)) fun q hq => ?_
      cases hq
      exact hport
  | append p =>
    rw [show forPort port (r.handed (.append p)) = [] from rfl, List.append_nil]
    exact h.sameAt (.append r p) fun _ hc => by cases hc
  | take => exact h.take hs hcut

/-- Whatever the run, the message is in one of the stages at its end. -/
theorem stage_after (hs : r.Standing config) (hcut : Engine.Cut config port message fs)
    (hfs : fs.length ≤ 128) (hempty : r.queue.packets port = []) (hquiet : port ∉ r.announced)
    (hcarried : ∀ p, .push p ∈ calls → p.port = port → CarriesOne (r.awaited.get port) fs p)
    (hok : ∀ before p later, calls = before ++ .push p :: later →
      ((r.after before).push p).1 = .ok ()) :
    Stage port (r.awaited.get port) fs message calls (r.after calls)
      (forPort port (r.handedOut calls)) := by
  induction calls using List.reverseRecOn with
  | nil =>
    refine .gathering rfl hquiet (fun x hx => ?_) (by rw [after_nil, hempty]; exact hcut.length_pos)
      fun p hp => absurd hp List.not_mem_nil
    rw [after_nil, hempty] at hx
    exact absurd hx List.not_mem_nil
  | append_singleton calls c ih =>
    have hstage := ih (fun p hp => hcarried p (List.mem_append_left _ hp)) fun before p later he =>
      hok before p (later ++ [c]) (by rw [he, List.append_assoc, List.cons_append])
    have hone : (r.after calls).handedOut [c] = (r.after calls).handed c := List.append_nil _
    rw [after_concat, handedOut_append, forPort_append, hone]
    refine hstage.apply (hs.after calls) hcut hfs (fun p hc => hcarried p ?_) fun p hc => ?_
    · rw [hc]
      exact List.mem_append_right _ (List.mem_singleton_self _)
    · exact hok calls p [] (by rw [hc])

/-- A message of which all fragments were pushed does not gather any more, and nothing that is complete
is left when nothing is left to take. -/
theorem Stage.delivered_of_each (h : Stage port first fs message calls r out) (hfs : fs.length ≤ 128)
    (heach : ∀ i (h : i < fs.length), ∃ p, .push p ∈ calls ∧ p.port = port ∧
      Carries p fs[i] (Serial.forward first i)) (hnone : r.take.1 = none) :
    out = [message] ∧ r.queue.packets port = [] ∧
      r.awaited.get port = Serial.forward first fs.length := by
  cases h with
  | gathering _ _ _ short kept =>
    have hall : ∀ i < fs.length,
        ∃ x ∈ r.queue.packets port, x.header.fragSeq = Serial.forward first i := by
      intro i hi
      obtain ⟨p, hp, hport, hc⟩ := heach i hi
      obtain ⟨x, hx, he⟩ := kept p hp hport
      exact ⟨x, hx, he.trans hc.fragSeq⟩
    exact absurd (length_le_of_numbers hfs hall) (Nat.not_le.2 short)
  | complete _ announced =>
    rw [(take_eq_none_iff.1 hnone).2] at announced
    exact absurd announced List.not_mem_nil
  | delivered awaited _ empty => exact ⟨rfl, empty, awaited⟩

/-- A push in one run after another is in the first or in the second. -/
theorem append_eq_push {calls' before later : List Call}
    (h : calls ++ calls' = before ++ .push p :: later) :
    (∃ later', calls = before ++ .push p :: later') ∨
      ∃ before', before = calls ++ before' ∧ calls' = before' ++ .push p :: later := by
  rcases List.append_eq_append_iff.1 h with ⟨before', hbefore, he⟩ | ⟨back, rfl, he⟩
  · exact .inr ⟨before', hbefore, he⟩
  · cases back with
    | nil => exact .inr ⟨[], by rw [List.append_nil, List.append_nil], he.symm⟩
    | cons c back =>
      cases he
      exact .inl ⟨back, rfl⟩

theorem takes_ne_push {n : Nat} {before later : List Call} :
    List.replicate n Call.take ≠ before ++ .push p :: later := by
  intro h
  have hmem : Call.push p ∈ List.replicate n Call.take := h ▸ by simp
  cases List.eq_of_mem_replicate hmem

/-- A port that is not announced and has nothing queued gets every message as it was. -/
theorem Standing.restores (hs : r.Standing config) (hconfig : config.Valid)
    (hempty : r.queue.packets port = []) (hquiet : port ∉ r.announced) : Restores config r port := by
  intro src kind channel message calls hmessage hbrings
  have hcut := Engine.cut_fragments hconfig hmessage src port kind channel
  generalize Engine.fragments config src port kind channel message = fs at hcut hbrings ⊢
  have hfs : fs.length ≤ 128 := Nat.le_trans hcut.length_le hconfig.maxFragments_le
  have hmem : ∀ p, .push p ∈ r.thenTaken calls ↔ .push p ∈ calls := by
    intro p
    simp [thenTaken, List.mem_replicate]
  have hstage : Stage port (r.awaited.get port) fs message (r.thenTaken calls)
      (r.after (r.thenTaken calls)) (forPort port (r.handedOut (r.thenTaken calls))) := by
    refine stage_after hs hcut hfs hempty hquiet
      (fun p hp => hbrings.carried p ((hmem p).1 hp)) fun before p later he => ?_
    rcases append_eq_push he with ⟨later', hcalls⟩ | ⟨_, _, htakes⟩
    · exact hbrings.admitted before p later' hcalls
    · exact absurd htakes takes_ne_push
  refine hstage.delivered_of_each hfs (fun i hi => ?_) (take_after_thenTaken r calls)
  obtain ⟨p, hp, hc⟩ := hbrings.each i hi
  exact ⟨p, (hmem p).2 hp, hc⟩

/-! ## A port that is announced without a message -/

/-- Takes in front of a run that brings fragments change nothing about that. -/
theorem Brings.after_takes {n : Nat} (h : Brings (r.after (List.replicate n .take)) port fs calls)
    (hawaited : (r.after (List.replicate n .take)).awaited.get port = r.awaited.get port) :
    Brings r port fs (List.replicate n .take ++ calls) := by
  have hmem : ∀ p, .push p ∈ List.replicate n Call.take ++ calls ↔ .push p ∈ calls := by
    intro p
    simp [List.mem_replicate]
  refine ⟨fun p hp hport => hawaited ▸ h.carried p ((hmem p).1 hp) hport, fun i hi => ?_,
    fun before p later he => ?_⟩
  · obtain ⟨p, hp, hc⟩ := h.each i hi
    exact ⟨p, (hmem p).2 hp, hawaited ▸ hc⟩
  · rcases append_eq_push he with ⟨_, htakes⟩ | ⟨before', rfl, hcalls⟩
    · exact absurd htakes takes_ne_push
    · rw [after_append]
      exact h.admitted before' p later hcalls

/-- A port that is announced although nothing is queued for it gives a message that nobody sent before
it gives one that is brought to it later. -/
theorem Standing.not_restores (hs : r.Standing config) (hconfig : config.Valid)
    (hempty : r.queue.packets port = [])
    (hroom : r.queue.used + Header.size ≤ r.queue.capacity) (hann : port ∈ r.announced) :
    ¬ Restores config r port := by
  intro hrestores
  let takes : List Call := List.replicate r.pending .take
  have hdrained : Drained port r (r.after takes) (forPort port (r.handedOut takes)) :=
    drained_after_takes hempty r.pending
  have hs' : (r.after takes).Standing config := hs.after takes
  have hquiet : port ∉ (r.after takes).announced := by
    rw [(take_eq_none_iff.1 (take_after_takes (Nat.le_refl r.pending))).2]
    exact List.not_mem_nil
  -- a message without bytes, all of it in one packet
  let f : Packet := .ofPayload { kind := .datagram, dst := port, src := 0 } [] 0
  let p : Packet := { f with header := { f.header with fragSeq := r.awaited.get port } }
  have hfragments : Engine.fragments config 0 port .datagram 0 [] = [f] := rfl
  have haccepts : (r.after takes).Accepts p := by
    refine ⟨?_, fun o ho => ?_, ?_⟩
    · show Serial.precedes (r.awaited.get port) ((r.after takes).awaited.get port) = false
      rw [hdrained.awaited]
      exact Serial.not_precedes_self _
    · rw [show (r.after takes).queue.packets p.port = [] from hdrained.empty] at ho
      exact absurd ho List.not_mem_nil
    · rw [hs'.sized.capacity, ← hs.sized.capacity]
      exact Nat.le_trans (Nat.add_le_add_right hdrained.used_le _) hroom
  have hcarries : Carries p f ((r.after takes).awaited.get port) := ⟨hdrained.awaited.symm, rfl, rfl⟩
  have hbrings : Brings (r.after takes) port [f] [.push p] := by
    refine ⟨fun q hq _ => ?_, fun i hi => ?_, fun before q later he => ?_⟩
    · cases List.mem_singleton.1 hq
      exact ⟨0, Nat.one_pos, hcarries⟩
    · cases Nat.lt_one_iff.1 hi
      exact ⟨p, List.mem_singleton_self _, rfl, hcarries⟩
    · obtain ⟨rfl, hq⟩ : before = [] ∧ p = q := by
        cases before with
        | nil =>
          cases he
          exact ⟨rfl, rfl⟩
        | cons c before => simp at he
      rw [← hq, after_nil, push_of_accepts haccepts]
  have hlater := (hs'.restores hconfig hdrained.empty hquiet 0 .datagram 0 [] [.push p]
    (Nat.zero_le _) hbrings).1
  have hbefore : Brings r port (Engine.fragments config 0 port .datagram 0 [])
      (takes ++ [.push p]) := hbrings.after_takes hdrained.awaited
  have hall := (hrestores 0 .datagram 0 [] (takes ++ [.push p]) (Nat.zero_le _) hbefore).1
  rw [thenTaken_append, handedOut_append, forPort_append, hlater] at hall
  exact (hdrained.announced hann).elim hquiet fun hne => hne (by simpa using hall)

/-- A message is always cut as the configuration says, and a port that has nothing queued puts its
fragments together again, in whatever order and however often they come.  A port that is announced
although nothing is queued for it does not, unless there is no room for a packet. -/
theorem restores_iff (hconfig : config.validate = .ok ()) (before : List Call) (port : UInt8)
    (hempty : ((new config).after before).queue.packets port = []) :
    (∀ src kind channel message, message.length ≤ config.maxMessage →
      Engine.Cut config port message (Engine.fragments config src port kind channel message)) ∧
    (port ∉ ((new config).after before).announced →
      Restores config ((new config).after before) port) ∧
    (((new config).after before).queue.used + Header.size ≤
        ((new config).after before).queue.capacity →
      (Restores config ((new config).after before) port ↔
        port ∉ ((new config).after before).announced)) := by
  have hvalid := config.validate_eq_ok_iff.1 hconfig
  have hs := (standing_new config).after before
  refine ⟨fun src kind channel message hmessage =>
    Engine.cut_fragments hvalid hmessage src port kind channel, hs.restores hvalid hempty, ?_⟩
  intro hroom
  exact ⟨fun h hann => hs.not_restores hvalid hempty hroom hann h, hs.restores hvalid hempty⟩

theorem restores_iff_new : ({} : Config).validate = .ok () ∧
    ((new {}).after []).queue.packets 7 = [] ∧ Restores {} ((new {}).after []) 7 := by
  have hempty : ((new {}).after []).queue.packets 7 = [] := Queue.packets_empty _ _ _
  exact ⟨by decide, hempty, (restores_iff (by decide) [] 7 hempty).2.1 List.not_mem_nil⟩

/-- Messages of at most two bytes, one in a fragment. -/
def twoBytes : Config := { mtu := 13, maxFragments := 2 }

/-- Two messages come in before any is taken.  The second one displaces the first one, and then itself,
so that port 7 has nothing queued but is still announced. -/
def displaced : List Call :=
  [.push (fragment 0 true [97]), .push (fragment 1 false [98]), .push (fragment 2 true [99]),
    .push (fragment 3 false [100])]

/-- A third message fares no better: instead of its two bytes an empty message is taken. -/
theorem not_restores_of_displaced :
    twoBytes.validate = .ok () ∧ ((new twoBytes).after displaced).queue.packets 7 = [] ∧
      Brings ((new twoBytes).after displaced) 7 (Engine.fragments twoBytes 1 7 .datagram 0 [101, 102])
        [.push (fragment 4 true [101]), .push (fragment 5 false [102])] ∧
      forPort 7 (((new twoBytes).after displaced).handedOut (((new twoBytes).after displaced).thenTaken
        [.push (fragment 4 true [101]), .push (fragment 5 false [102])])) = [[]] ∧
      ¬ Restores twoBytes ((new twoBytes).after displaced) 7 := by
  have hfirst : ((new twoBytes).after displaced).awaited.get 7 = 4 := by decide +kernel
  have hbrings : Brings ((new twoBytes).after displaced) 7
      (Engine.fragments twoBytes 1 7 .datagram 0 [101, 102])
      [.push (fragment 4 true [101]), .push (fragment 5 false [102])] := by
    refine ⟨fun p hp _ => ?_, fun i hi => ?_, fun before p later he => ?_⟩
    · rw [hfirst]
      simp only [List.mem_cons, Call.push.injEq, List.not_mem_nil, or_false] at hp
      rcases hp with rfl | rfl
      · exact ⟨0, by decide, rfl, rfl, rfl⟩
      · exact ⟨1, by decide, rfl, rfl, rfl⟩
    · rw [hfirst]
      have hi : i < 2 := hi
      obtain rfl | rfl : i = 0 ∨ i = 1 := by omega
      · exact ⟨fragment 4 true [101], by simp, rfl, rfl, rfl, rfl⟩
      · exact ⟨fragment 5 false [102], by simp, rfl, rfl, rfl, rfl⟩
    · match before with
      | [] =>
        cases he
        decide +kernel
      | [_] =>
        cases he
        decide +kernel
      | _ :: _ :: before => simp at he
  have hout : forPort 7 (((new twoBytes).after displaced).handedOut
      (((new twoBytes).after displaced).thenTaken
        [.push (fragment 4 true [101]), .push (fragment 5 false [102])])) = [[]] := by decide +kernel
  refine ⟨by decide, by decide +kernel, hbrings, hout, fun h => ?_⟩
  have hmessage := (h 1 .datagram 0 [101, 102] _ (by decide) hbrings).1
  rw [hout] at hmessage
  exact absurd hmessage (by decide)

end NarrowLink.Reassembly

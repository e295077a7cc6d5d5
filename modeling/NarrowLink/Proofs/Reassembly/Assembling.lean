import NarrowLink.Proofs.Reassembly.Gathering
import NarrowLink.Proofs.Reassembly.Handout
import NarrowLink.Proofs.Reassembly.Integrity

/-!
# Messages of connections

What a packet of a connection does depends only on the message that is begun for its port (`assemble`,
`append_eq`).  A connection hands over complete messages and messages that are given up, and what
follows one that is given up does not go on where it ended (`Sends`).  Then the complete messages are
assembled, and nothing of the others (`assembled_of_sends`).

Each message waits until it is taken (`relayedOut_append_finished`), so in the end every message of every
port has been handed out once, in the order of the final fragments (`Relays`, `relays_thenTaken`).
Datagrams that are handed out in between consist of what was pushed (`pushed_of_handedOut`).
-/

namespace NarrowLink.Reassembly

open Wire

/-- The message that a packet ends, if it does, and the message that is begun behind it. -/
def assemble (limit : Nat) (begun : Option Assembly) (p : Packet) :
    Option (List UInt8) × Option Assembly :=
  let current := begun.filter fun a => a.nextFrag == p.header.fragSeq
  if p.isFinal then (some ((current.map Assembly.content).getD [] ++ p.payload), none)
  else
    let a := current.getD ⟨p.header.fragSeq, 0, []⟩
    if limit ≤ a.count + 1 then (none, none)
    else (none, some ⟨Serial.next p.header.fragSeq, a.count + 1, a.content ++ p.payload⟩)

/-- The messages that packets of one port end. -/
def assembled (limit : Nat) : Option Assembly → List Packet → List (List UInt8)
  | _, [] => []
  | begun, p :: ps =>
    (assemble limit begun p).1.toList ++ assembled limit (assemble limit begun p).2 ps

/-! ## What a connection hands over -/

/-- The packets are the fragments from number `first` on without a gap, and none of them is final. -/
def IsOpen : UInt8 → List Packet → Prop
  | _, [] => True
  | first, p :: ps => p.header.fragSeq = first ∧ p.isFinal = false ∧ IsOpen (Serial.next first) ps

/-- The packets are complete messages that say `messages`, and messages that are given up before they
are complete.  Behind one that is given up, the number that would continue it is not the next. -/
inductive Sends (limit : Nat) : Option UInt8 → List Packet → List (List UInt8) → Prop
  | done {given : Option UInt8} : Sends limit given [] []
  | whole {given : Option UInt8} {first : UInt8} {run rest : List Packet}
      {messages : List (List UInt8)} (hnew : given ≠ some first) (hrun : IsRun first run)
      (hlen : run.length ≤ limit) (hrest : Sends limit none rest messages) :
      Sends limit given (run ++ rest) (content run :: messages)
  | abandoned {given : Option UInt8} {first : UInt8} {run rest : List Packet}
      {messages : List (List UInt8)} (hnew : given ≠ some first) (hne : run ≠ [])
      (hrun : IsOpen first run) (hlen : run.length < limit)
      (hrest : Sends limit (some (Serial.forward first run.length)) rest messages) :
      Sends limit given (run ++ rest) messages

/-- The packets that connections hand over in a run of calls. -/
def appended (calls : List Call) : List Packet :=
  calls.filterMap fun
    | .append p => some p
    | _ => none

/-! ## What a run of calls hands out -/

/-- What is seen of a run of calls, call by call. -/
def along (see : Reassembly → Call → List (UInt8 × List UInt8)) :
    Reassembly → List Call → List (UInt8 × List UInt8)
  | _, [] => []
  | r, c :: calls => see r c ++ along see (r.apply c) calls

/-- The message of a connection that a call hands out. -/
def relayed (r : Reassembly) : Call → List (UInt8 × List UInt8)
  | .take => if r.finished = [] then [] else r.take.1.toList
  | _ => []

/-- The messages of connections that a run of calls hands out. -/
def relayedOut (r : Reassembly) (calls : List Call) : List (UInt8 × List UInt8) :=
  r.along relayed calls

/-- The message of a connection that a call completes. -/
def ended (r : Reassembly) : Call → List (UInt8 × List UInt8)
  | .append p =>
    ((assemble r.config.maxFragments (r.begun.get p.port) p).1.map fun m => (p.port, m)).toList
  | _ => []

/-- One message is handed out for each final fragment among the packets, in their order, and for each
port these are its messages. -/
structure Relays (out : List (UInt8 × List UInt8)) (packets : List Packet)
    (messages : UInt8 → List (List UInt8)) : Prop where
  ports : out.map Prod.fst = (packets.filter Packet.isFinal).map Packet.port
  contents : ∀ port, forPort port out = messages port

variable {config : Config} {limit : Nat} {r : Reassembly} {port first : UInt8} {p : Packet}
  {begun : Option Assembly} {given : Option UInt8} {run rest : List Packet}
  {messages : List (List UInt8)}

/-! ## One message -/

theorem append_eq (r : Reassembly) (p : Packet) :
    r.append p = { r with
      begun := r.begun.set p.port (assemble r.config.maxFragments (r.begun.get p.port) p).2
      finished := r.finished ++ r.ended (.append p) } := by
  unfold append ended assemble
  simp only
  split
  · rfl
  split
  · simp
  · simp

/-- A packet that does not go on where the message begun ends starts a new one. -/
theorem assemble_of_new (h : begun.map Assembly.nextFrag ≠ some p.header.fragSeq) :
    assemble limit begun p = assemble limit (some ⟨p.header.fragSeq, 0, []⟩) p := by
  have hnone : (begun.filter fun a => a.nextFrag == p.header.fragSeq) = none := by
    cases begun with
    | none => rfl
    | some a =>
      rw [Option.map_some, ne_eq, Option.some.injEq] at h
      simpa [Option.filter] using h
  unfold assemble
  rw [hnone]
  simp [Option.filter]

theorem assemble_of_isFinal {a : Assembly} (h : p.header.fragSeq = a.nextFrag)
    (hfinal : p.isFinal = true) :
    assemble limit (some a) p = (some (a.content ++ p.payload), none) := by
  simp [assemble, Option.filter, h, hfinal]

theorem assemble_of_not_isFinal {a : Assembly} (h : p.header.fragSeq = a.nextFrag)
    (hfinal : p.isFinal = false) (hlt : a.count + 1 < limit) :
    assemble limit (some a) p =
      (none, some ⟨Serial.next a.nextFrag, a.count + 1, a.content ++ p.payload⟩) := by
  simp [assemble, Option.filter, h, hfinal, Nat.not_le.2 hlt]

theorem isSome_assemble (limit : Nat) (begun : Option Assembly) (p : Packet) :
    (assemble limit begun p).1.isSome = p.isFinal := by
  unfold assemble
  simp only
  split
  · rename_i h
    rw [h]
    rfl
  · rename_i h
    rw [Bool.not_eq_true] at h
    split <;> rw [h] <;> rfl

/-- The rest of a message completes it. -/
theorem assembled_of_isRun {a : Assembly} (hrun : IsRun a.nextFrag run)
    (hlen : a.count + run.length ≤ limit) (rest : List Packet) :
    assembled limit (some a) (run ++ rest) =
      (a.content ++ content run) :: assembled limit none rest := by
  induction run generalizing a with
  | nil => exact hrun.elim
  | cons p ps ih =>
    obtain ⟨hp, hrun⟩ := hrun
    rw [List.cons_append, assembled]
    by_cases hfinal : p.isFinal = true
    · rw [if_pos hfinal] at hrun
      rw [assemble_of_isFinal hp hfinal, hrun]
      simp [content]
    · rw [if_neg hfinal] at hrun
      have hpos := List.length_pos_of_ne_nil hrun.ne_nil
      rw [List.length_cons] at hlen
      rw [assemble_of_not_isFinal hp (Bool.not_eq_true _ ▸ hfinal) (by omega)]
      simp only [Option.toList_none, List.nil_append]
      rw [ih (a := ⟨Serial.next a.nextFrag, a.count + 1, a.content ++ p.payload⟩) hrun
        (by simp only; omega)]
      simp [content]

/-- A message that is not complete waits for the number behind its last fragment. -/
theorem assembled_of_isOpen {a : Assembly} (hrun : IsOpen a.nextFrag run)
    (hlen : a.count + run.length < limit) (rest : List Packet) :
    assembled limit (some a) (run ++ rest) =
      assembled limit (some ⟨Serial.forward a.nextFrag run.length, a.count + run.length,
        a.content ++ content run⟩) rest := by
  induction run generalizing a with
  | nil => simp [content]
  | cons p ps ih =>
    obtain ⟨hp, hfinal, hrun⟩ := hrun
    rw [List.length_cons] at hlen
    rw [List.cons_append, assembled, assemble_of_not_isFinal hp hfinal (by omega)]
    simp only [Option.toList_none, List.nil_append]
    rw [ih (a := ⟨Serial.next a.nextFrag, a.count + 1, a.content ++ p.payload⟩) hrun
      (by simp only; omega)]
    simp only [Serial.forward_next, List.length_cons, content, List.flatMap_cons, List.append_assoc]
    rw [Nat.add_assoc, Nat.add_comm 1]

theorem assembled_of_new {ps : List Packet} (h : begun.map Assembly.nextFrag ≠ some p.header.fragSeq) :
    assembled limit begun (p :: ps) =
      assembled limit (some ⟨p.header.fragSeq, 0, []⟩) (p :: ps) := by
  rw [assembled, assemble_of_new h, assembled]

/-- Complete messages are assembled as they were, and nothing of those that were given up. -/
theorem assembled_of_sends {packets : List Packet} (h : Sends limit given packets messages)
    (hbegun : begun.map Assembly.nextFrag = given) : assembled limit begun packets = messages := by
  induction h generalizing begun with
  | done => rfl
  | @whole given first run rest messages hnew hrun hlen _ ih =>
    subst hbegun
    obtain ⟨p, ps, rfl⟩ := List.exists_cons_of_ne_nil hrun.ne_nil
    obtain rfl := hrun.1
    rw [List.cons_append, assembled_of_new hnew, ← List.cons_append,
      assembled_of_isRun hrun (by simpa using hlen), ih rfl]
    rfl
  | @abandoned given first run rest messages hnew hne hrun hlen _ ih =>
    subst hbegun
    obtain ⟨p, ps, rfl⟩ := List.exists_cons_of_ne_nil hne
    obtain rfl := hrun.1
    rw [List.cons_append, assembled_of_new hnew, ← List.cons_append,
      assembled_of_isOpen hrun (by simpa using hlen)]
    exact ih rfl

/-! ## Runs of calls -/

theorem along_append (see : Reassembly → Call → List (UInt8 × List UInt8)) (r : Reassembly)
    (calls calls' : List Call) :
    r.along see (calls ++ calls') = r.along see calls ++ (r.after calls).along see calls' := by
  induction calls generalizing r with
  | nil => rfl
  | cons c calls ih =>
    rw [List.cons_append, along, along, ih, List.append_assoc]
    rfl

/-- A message of a connection waits from when it is complete until it is handed out. -/
theorem relayed_append_finished (r : Reassembly) (c : Call) :
    r.relayed c ++ (r.apply c).finished = r.finished ++ r.ended c := by
  cases c with
  | push p =>
    obtain ⟨_, _, _, he⟩ := push_fields r p
    show [] ++ (r.push p).2.finished = r.finished ++ []
    rw [he, List.nil_append, List.append_nil]
  | append p =>
    show [] ++ (r.append p).finished = _
    rw [append_eq]
    rfl
  | take =>
    show r.relayed .take ++ r.take.2.finished = r.finished ++ []
    rw [List.append_nil, relayed]
    cases hf : r.finished with
    | cons m ms =>
      rw [if_neg (List.cons_ne_nil m ms), take, hf]
      rfl
    | nil =>
      rw [if_pos rfl, List.nil_append]
      cases ha : r.announced with
      | nil => rw [take_of_none (take_eq_none_iff.2 ⟨hf, ha⟩), hf]
      | cons port ports =>
        obtain ⟨r', announced, ht, he⟩ := take_of_announced hf ha
        rw [he]
        show r'.finished = []
        rw [ht.eq]
        exact hf

theorem relayedOut_append_finished (r : Reassembly) (calls : List Call) :
    r.relayedOut calls ++ (r.after calls).finished = r.finished ++ r.along ended calls := by
  induction calls generalizing r with
  | nil => simp [relayedOut, along]
  | cons c calls ih =>
    rw [relayedOut, along, List.append_assoc]
    show r.relayed c ++ ((r.apply c).relayedOut calls ++ ((r.apply c).after calls).finished) = _
    rw [ih, ← List.append_assoc, relayed_append_finished, along, List.append_assoc]

/-- Only packets of connections complete their messages, and only takes hand them out. -/
theorem relayedOut_thenTaken (r : Reassembly) (calls : List Call) :
    r.relayedOut (r.thenTaken calls) = r.relayedOut calls ++ (r.after calls).finished := by
  have hnone := (take_eq_none_iff.1 (take_after_thenTaken r calls)).1
  have htakes : ∀ (n : Nat) (r : Reassembly), r.along ended (List.replicate n .take) = [] := by
    intro n
    induction n with
    | zero => exact fun _ => rfl
    | succ n ih => exact fun r => ih r.take.2
  have hall := relayedOut_append_finished (r.after calls)
    (List.replicate (r.after calls).pending .take)
  rw [htakes, List.append_nil] at hall
  rw [thenTaken, after_append] at hnone
  rw [hnone, List.append_nil] at hall
  rw [thenTaken, relayedOut, along_append, ← hall]
  rfl

/-- Taking changes nothing about the messages that connections have begun. -/
theorem take_fields (r : Reassembly) :
    ∃ queue awaited announced finished, r.take.2 =
      { r with queue := queue, awaited := awaited, announced := announced, finished := finished } := by
  cases hf : r.finished with
  | cons m ms =>
    rw [take, hf]
    exact ⟨_, _, _, ms, rfl⟩
  | nil =>
    cases ha : r.announced with
    | nil =>
      rw [take_of_none (take_eq_none_iff.2 ⟨hf, ha⟩)]
      exact ⟨_, _, _, _, rfl⟩
    | cons port ports =>
      obtain ⟨r', announced, ht, he⟩ := take_of_announced hf ha
      rw [he, ht.eq]
      exact ⟨_, _, announced, _, rfl⟩

theorem begun_apply (r : Reassembly) {c : Call} (h : ∀ p, c ≠ .append p) :
    (r.apply c).begun = r.begun := by
  cases c with
  | push p =>
    obtain ⟨_, _, _, he⟩ := push_fields r p
    show (r.push p).2.begun = r.begun
    rw [he]
  | append p => exact absurd rfl (h p)
  | take =>
    obtain ⟨_, _, _, _, he⟩ := take_fields r
    show r.take.2.begun = r.begun
    rw [he]

theorem appended_cons (c : Call) (calls : List Call) :
    appended (c :: calls) = appended [c] ++ appended calls :=
  List.filterMap_append (l := [c])

theorem forPort_ended_append (r : Reassembly) (p : Packet) :
    forPort port (r.ended (.append p)) = if p.port = port then
      (assemble r.config.maxFragments (r.begun.get p.port) p).1.toList else [] := by
  rw [ended]
  by_cases hport : p.port = port
  · rw [if_pos hport]
    cases (assemble r.config.maxFragments (r.begun.get p.port) p).1 <;> simp [forPort, hport]
  · rw [if_neg hport]
    cases (assemble r.config.maxFragments (r.begun.get p.port) p).1 <;> simp [forPort, hport]

/-- A call completes a message of a port if it brings the port a packet that ends one. -/
theorem forPort_ended (r : Reassembly) (c : Call) (ps : List Packet) :
    forPort port (r.ended c) ++
        assembled r.config.maxFragments ((r.apply c).begun.get port) ps =
      assembled r.config.maxFragments (r.begun.get port) (ofPort port (appended [c]) ++ ps) := by
  cases c with
  | append p =>
    have hbegun : (r.apply (.append p)).begun = r.begun.set p.port
        (assemble r.config.maxFragments (r.begun.get p.port) p).2 := by
      show (r.append p).begun = _
      rw [append_eq]
    rw [hbegun, show appended [.append p] = [p] from rfl, ofPort_singleton, forPort_ended_append]
    by_cases hport : p.port = port
    · subst hport
      rw [if_pos rfl, if_pos rfl, ByteMap.get_set_self]
      rfl
    · rw [if_neg hport, if_neg hport, ByteMap.get_set_of_ne _ _ hport]
      rfl
  | push p =>
    have hbegun : (r.apply (.push p)).begun = r.begun := begun_apply r fun _ hc => by cases hc
    rw [hbegun]
    rfl
  | take =>
    have hbegun : (r.apply .take).begun = r.begun := begun_apply r fun _ hc => by cases hc
    rw [hbegun]
    rfl

theorem map_fst_ended (r : Reassembly) (c : Call) :
    (r.ended c).map Prod.fst = ((appended [c]).filter Packet.isFinal).map Packet.port := by
  cases c with
  | append p =>
    have hsome := isSome_assemble r.config.maxFragments (r.begun.get p.port) p
    rw [show appended [.append p] = [p] from rfl, ended]
    cases hm : (assemble r.config.maxFragments (r.begun.get p.port) p).1 with
    | none =>
      rw [hm] at hsome
      rw [List.filter_cons_of_neg (by rw [← hsome]; decide)]
      rfl
    | some m =>
      rw [hm] at hsome
      rw [List.filter_cons_of_pos hsome.symm]
      rfl
  | push p => rfl
  | take => rfl

/-- The messages that a run completes are those that its packets end, port by port. -/
theorem relays_ended (hs : r.Standing config) (calls : List Call) :
    Relays (r.along ended calls) (appended calls) fun port =>
      assembled config.maxFragments (r.begun.get port) (ofPort port (appended calls)) := by
  induction calls generalizing r with
  | nil => exact ⟨rfl, fun _ => rfl⟩
  | cons c calls ih =>
    obtain ⟨hports, hcontents⟩ := ih (hs.apply c)
    rw [along, appended_cons]
    refine ⟨?_, fun port => ?_⟩
    · rw [List.map_append, hports, map_fst_ended, List.filter_append, List.map_append]
    · rw [forPort_append, hcontents, ofPort_append, ← hs.sized.config_eq]
      exact forPort_ended r c _

/-! ## Datagrams in between -/

theorem mem_skipGap {other : UInt8} (h : p ∈ (r.skipGap other).queue.packets port) :
    p ∈ r.queue.packets port := by
  have ht := takes_takeThroughFinal r other
  by_cases hport : port = other
  · subst hport
    rw [skipGap, ht.packets] at h
    rw [← throughFinal_append_behindFinal (r.queue.packets port)]
    exact List.mem_append_right _ h
  · rwa [skipGap, ht.packets_other port hport] at h

theorem mem_queued {q : Packet} (h : p ∈ (r.queued q).queue.packets port) :
    p ∈ r.queue.packets port ∨ Call.push q = .push p ∧ p.port = port := by
  by_cases hport : port = q.port
  · subst hport
    have hins : p ∈ (r.queue.add q).packets q.port := h
    rw [Queue.packets_add_self, Order.mem_insert] at hins
    rcases hins with rfl | hold
    · exact .inr ⟨rfl, rfl⟩
    · exact .inl hold
  · rw [packets_queued_of_ne hport] at h
    exact .inl h

/-- What is queued after a call was queued before, or was pushed by the call. -/
theorem mem_queue_apply {c : Call} (h : p ∈ (r.apply c).queue.packets port) :
    p ∈ r.queue.packets port ∨ c = .push p ∧ p.port = port := by
  cases c with
  | push q =>
    have hp := pushed r q
    change p ∈ (r.push q).2.queue.packets port at h
    generalize (r.push q).2 = r' at hp h
    cases hp with
    | ignored => exact .inl h
    | completed => exact mem_queued h
    | waiting => exact mem_queued h
    | skipped =>
      rw [queue_announce] at h
      exact mem_queued (mem_skipGap h)
  | append q =>
    obtain ⟨_, _, he⟩ := append_fields r q
    change p ∈ (r.append q).queue.packets port at h
    rw [he] at h
    exact .inl h
  | take =>
    change p ∈ r.take.2.queue.packets port at h
    cases hf : r.finished with
    | cons m ms =>
      rw [take, hf] at h
      exact .inl h
    | nil =>
      cases ha : r.announced with
      | nil =>
        rw [take_of_none (take_eq_none_iff.2 ⟨hf, ha⟩)] at h
        exact .inl h
      | cons other ports =>
        rw [take_eq hf ha, queue_announce] at h
        exact .inl (mem_skipGap (r := { r with announced := ports }) h)

theorem pushed_of_mem_queue {calls : List Call}
    (h : p ∈ ((new config).after calls).queue.packets port) : .push p ∈ calls ∧ p.port = port := by
  induction calls using List.reverseRecOn with
  | nil =>
    rw [after_nil, new, Queue.packets_empty] at h
    exact absurd h List.not_mem_nil
  | append_singleton calls c ih =>
    rw [after_concat] at h
    rcases mem_queue_apply h with h | ⟨rfl, hport⟩
    · exact ⟨List.mem_append_left _ (ih h).1, (ih h).2⟩
    · exact ⟨List.mem_append_right _ (List.mem_singleton_self _), hport⟩

/-- What a take hands out for a port are the packets that are queued up to the first final one. -/
theorem content_of_handed {m : UInt8 × List UInt8} {c : Call} (h : m ∈ r.handed c) :
    m.2 = content (throughFinal (r.queue.packets m.1)) := by
  cases c with
  | push p => exact absurd h List.not_mem_nil
  | append p => exact absurd h List.not_mem_nil
  | take =>
    obtain ⟨-, -, -, hf, ports, ha⟩ := exists_of_handed fun hother => hother m h rfl
    rw [handed, if_pos hf, take_eq hf ha] at h
    exact congrArg Prod.snd (List.mem_singleton.1 h)

/-- A datagram that is handed out consists of packets that were pushed for its port. -/
theorem pushed_of_handedOut {calls : List Call} {m : UInt8 × List UInt8}
    (h : m ∈ (new config).handedOut calls) :
    ∃ ps, m.2 = content ps ∧ ∀ p ∈ ps, .push p ∈ calls ∧ p.port = m.1 := by
  induction calls using List.reverseRecOn with
  | nil => exact absurd h List.not_mem_nil
  | append_singleton calls c ih =>
    rw [handedOut_append] at h
    rcases List.mem_append.1 h with h | h
    · obtain ⟨ps, hm, hps⟩ := ih h
      exact ⟨ps, hm, fun p hp => ⟨List.mem_append_left _ (hps p hp).1, (hps p hp).2⟩⟩
    · have hone : ((new config).after calls).handedOut [c] = ((new config).after calls).handed c :=
        List.append_nil _
      rw [hone] at h
      refine ⟨_, content_of_handed h, fun p hp => ?_⟩
      have hqueue := (throughFinal_sublist _).subset hp
      exact ⟨List.mem_append_left _ (pushed_of_mem_queue hqueue).1, (pushed_of_mem_queue hqueue).2⟩

/-- Whatever else is asked in between, the messages of connections are handed out once each and whole, in
the order of their final fragments, and nothing of a message that was given up is ever handed out. -/
theorem relays_thenTaken (config : Config) (calls : List Call)
    (messages : UInt8 → List (List UInt8))
    (hsends : ∀ port, Sends config.maxFragments none (ofPort port (appended calls)) (messages port)) :
    Relays ((new config).relayedOut ((new config).thenTaken calls)) (appended calls) messages ∧
      (new config).relayedOut ((new config).thenTaken calls) =
        (new config).relayedOut calls ++ ((new config).after calls).finished ∧
      ∀ m ∈ (new config).handedOut ((new config).thenTaken calls),
        ∃ ps, m.2 = content ps ∧ ∀ p ∈ ps, .push p ∈ calls ∧ p.port = m.1 := by
  have hall := relayedOut_thenTaken (new config) calls
  have hended := relayedOut_append_finished (new config) calls
  obtain ⟨hports, hcontents⟩ := relays_ended (standing_new config) calls
  refine ⟨?_, hall, fun m hm => ?_⟩
  · rw [hall, hended]
    refine ⟨hports, fun port => (hcontents port).trans ?_⟩
    refine assembled_of_sends (hsends port) ?_
    rw [new, ByteMap.get_const]
    rfl
  · obtain ⟨ps, hm, hps⟩ := pushed_of_handedOut hm
    refine ⟨ps, hm, fun p hp => ⟨?_, (hps p hp).2⟩⟩
    have hpush := (hps p hp).1
    simpa [thenTaken, List.mem_replicate] using hpush

/-- A packet of a connection. -/
def carried (port number : UInt8) (more : Bool) (payload : List UInt8) : Packet :=
  ⟨{ kind := .connection, dst := port, src := 1, fragSeq := number, more := more }, payload, 0⟩

/-- The connection on port 7 breaks off after two fragments, and the next one begins with a message of
three, while a message comes in on port 8. -/
def reconnected : List Call :=
  [.append (carried 7 254 true [1]), .append (carried 8 9 true [20]), .append (carried 7 255 true [2]),
    .push (fragment 0 false [97]), .take, .append (carried 7 1 true [3]),
    .append (carried 7 2 true [4]), .append (carried 8 10 false [21]), .append (carried 7 3 false [5])]

/-- What is said on each port. -/
def said (port : UInt8) : List (List UInt8) :=
  if port = 7 then [[3, 4, 5]] else if port = 8 then [[20, 21]] else []

theorem relays_of_reconnected :
    (∀ port, Sends 3 none (ofPort port (appended reconnected)) (said port)) ∧
      Relays ((new { maxFragments := 3 }).relayedOut
        ((new { maxFragments := 3 }).thenTaken reconnected)) (appended reconnected) said ∧
      (new { maxFragments := 3 }).relayedOut ((new { maxFragments := 3 }).thenTaken reconnected) =
        [(8, [20, 21]), (7, [3, 4, 5])] := by
  have hsends : ∀ port, Sends 3 none (ofPort port (appended reconnected)) (said port) := by
    intro port
    by_cases h7 : port = 7
    · subst h7
      have hlater : Sends 3 (some 0)
          ([carried 7 1 true [3], carried 7 2 true [4], carried 7 3 false [5]] ++ []) (said 7) :=
        @Sends.whole 3 (some 0) 1 _ _ _ (by decide) ⟨rfl, rfl, rfl, rfl⟩ (by decide) .done
      exact @Sends.abandoned 3 none 254 [carried 7 254 true [1], carried 7 255 true [2]] _ _ nofun
        (by simp) ⟨rfl, rfl, rfl, rfl, trivial⟩ (by decide) hlater
    by_cases h8 : port = 8
    · subst h8
      exact @Sends.whole 3 none 9 [carried 8 9 true [20], carried 8 10 false [21]] _ _ nofun
        ⟨rfl, rfl, rfl⟩ (by decide) .done
    · have hnone : ofPort port (appended reconnected) = [] := by
        simp [appended, reconnected, ofPort, carried, Packet.port, Ne.symm h7, Ne.symm h8]
      rw [hnone, said, if_neg h7, if_neg h8]
      exact .done
  exact ⟨hsends, (relays_thenTaken _ reconnected said hsends).1, by decide +kernel⟩

end NarrowLink.Reassembly

import NarrowLink.Proofs.Reassembly.Tracking

/-!
# Which messages come out of a lossy link

What is taken for a port was sent to it, in the order in which it was sent, as long as nothing misleads
the reassembly.  The limits of a configuration make sure of that only where a message is one fragment,
or where the queue has no room for two (`delivers_sent`).
-/

namespace NarrowLink.Reassembly

open Wire

/-- Messages are sent to a port of a new reassembly over a lossy link, and of the datagrams that come
in for any port none is refused. -/
structure Transfer (config : Config) (port : UInt8) (messages : List (List Packet))
    (arrivals : List Packet) : Prop where
  port_eq : ∀ m ∈ messages, ∀ p ∈ m, p.port = port
  short : ∀ m ∈ messages, m.length ≤ config.maxFragments
  numbered : Numbered 0 messages
  lossy : Loses 0 messages.flatten (arrivals.filter fun p => p.port == port)
  admitted : Admitted (new config) arrivals

variable {config : Config} {r r' : Reassembly} {port : UInt8} {p : Packet}
  {rest : List (List Packet)} {seen future : List Packet}

/-! ## Limits that nothing misleads -/

theorem Numbered.isRun {first : UInt8} {ms : List (List Packet)} (h : Numbered first ms)
    {m : List Packet} (hm : m ∈ ms) : ∃ n, IsRun n m := by
  induction ms generalizing first with
  | nil => cases hm
  | cons x ms ih =>
    rcases List.mem_cons.1 hm with rfl | hm
    · exact ⟨first, h.1⟩
    · exact ih h.2 hm

theorem Full.steady {ps : List Packet} (hi : r.Idle config) (h : r.Full) : Steady port r ps := by
  induction ps with
  | nil => trivial
  | cons p ps ih =>
    refine ⟨fun _ hm => ?_, ?_⟩
    · cases hm with
      | stale hroom => exact hroom h
      | blind ha => exact h.not_accepts p ha
    · rw [hi.receive_of_not_accepts (h.not_accepts p)]
      exact ih

/-- With one fragment to a message, or with room for one fragment, nothing waits for the port while
there is room. -/
theorem Rests.queue_eq_nil (hi : r.Idle config) (h : Rests r port rest seen future)
    (hlimits : config.maxFragments ≤ 1 ∨ config.queueCapacity < 2 * Header.size)
    (hfull : ¬ r.Full) : r.queue.packets port = [] := by
  rcases hlimits with hmax | hcap
  · rcases h.short with hnil | hlt
    · exact hnil
    · rw [hi.sized.config_eq] at hlt
      exact List.length_eq_zero_iff.1 (by omega)
  · by_contra hne
    exact hfull (hi.sized.full hcap hne)

theorem Rests.not_misleads (hi : r.Idle config) (h : Rests r p.port rest seen future)
    (hlimits : config.maxFragments ≤ 1 ∨ config.queueCapacity < 2 * Header.size)
    (hshort : ∀ m ∈ rest, m.length ≤ config.maxFragments) {lost later : List Packet}
    (he : future = lost ++ p :: later) (hlost : lost.length < 128) : ¬ r.Misleads p := by
  have hseen : r.queue.packets p.port = [] → seen = [] := by
    intro hnil
    have := h.last
    rw [hnil] at this
    exact List.getLast?_eq_none_iff.1 this.symm
  intro hm
  cases hm with
  | stale hroom hstale =>
    have hd := h.distance he hlost
    rw [hseen (h.queue_eq_nil hi hlimits hroom), List.length_nil] at hd
    rw [Serial.precedes, hd, decide_eq_true_eq] at hstale
    simp only [Serial.half] at hstale
    omega
  | blind ha hlen hp =>
    have hnil := h.queue_eq_nil hi hlimits fun hfull => hfull.not_accepts p ha
    rw [hnil, hi.sized.config_eq] at hlen
    have hmem : p ∈ rest.flatten := by rw [h.sent, he]; simp
    obtain ⟨m, hm, hpm⟩ := List.mem_flatten.1 hmem
    -- a message of one fragment ends with it
    obtain ⟨n, hrun⟩ := h.numbered.isRun hm
    have hone := Nat.le_trans (hshort m hm) hlen
    obtain ⟨x, hx, hfinal⟩ := hrun.exists_isFinal
    obtain ⟨y, rfl⟩ := List.length_eq_one_iff.1
      (Nat.le_antisymm hone (List.length_pos_of_mem hpm))
    rw [List.mem_singleton.1 hpm, ← List.mem_singleton.1 hx, hfinal] at hp
    cases hp

theorem Rests.steady {arrivals : List Packet} {rest : List (List Packet)}
    {seen future : List Packet} (hi : r.Idle config) (h : Rests r port rest seen future)
    (hlimits : config.maxFragments ≤ 1 ∨ config.queueCapacity < 2 * Header.size)
    (hshort : ∀ m ∈ rest, m.length ≤ config.maxFragments)
    (hl : Loses 0 future (arrivals.filter fun p => p.port == port)) (hadm : Admitted r arrivals) :
    Steady port r arrivals := by
  induction arrivals generalizing r rest seen future with
  | nil => trivial
  | cons p ps ih =>
    by_cases hfull : r.Full
    · exact hfull.steady hi
    have hm : p.port = port → ¬ r.Misleads p := by
      rintro rfl
      rw [List.filter_cons_of_pos (by simp)] at hl
      obtain ⟨lost, later, he, hlost, -⟩ := hl.arrive (by omega)
      exact h.not_misleads hi hlimits hshort he (by omega)
    obtain ⟨gone, taken, rest', seen', future', rfl, h', hl', -⟩ :=
      h.receive hi hl hadm.1 hm hfull
    refine ⟨hm, ih (hi.receive p) h' (fun m hm => hshort m ?_) hl' hadm.2⟩
    exact List.mem_append_right _ (List.mem_append_right _ hm)

/-! ## A link that loses most of one turn -/

/-- A datagram for port 7. -/
def fragment (number : UInt8) (more : Bool) (payload : List UInt8) : Packet :=
  ⟨{ kind := .datagram, dst := 7, src := 1, fragSeq := number, more := more }, payload, 0⟩

/-- So many messages of one fragment each. -/
def singles : UInt8 → Nat → List Packet
  | _, 0 => []
  | first, n + 1 => fragment first false [122] :: singles (Serial.next first) n

/-- A message of two fragments, then messages of one until the numbers begin again, then a message of
two fragments again. -/
def oneTurn : List (List Packet) :=
  [fragment 0 true [120], fragment 1 false []] ::
    ((singles 2 126).map ([·]) ++ [fragment 128 false [122]] ::
      ((singles 129 127).map ([·]) ++ [[fragment 0 true [], fragment 1 false [121]]]))

/-- The second fragment of the first message, one from half a turn later, and the first fragment of
the last message. -/
def leftOver : List Packet := [fragment 1 false [], fragment 128 false [122], fragment 0 true []]

theorem length_singles (first : UInt8) (n : Nat) : (singles first n).length = n := by
  induction n generalizing first with
  | zero => rfl
  | succ n ih => rw [singles, List.length_cons, ih]

theorem numbered_singles {first : UInt8} {n : Nat} {ms : List (List Packet)}
    (h : Numbered (Serial.forward first n) ms) :
    Numbered first ((singles first n).map ([·]) ++ ms) := by
  induction n generalizing first with
  | zero => exact h
  | succ n ih =>
    rw [← Serial.forward_next] at h
    exact ⟨⟨rfl, rfl⟩, ih h⟩

theorem mem_singles {first : UInt8} {n : Nat} {p : Packet} (h : p ∈ singles first n) :
    ∃ number, p = fragment number false [122] := by
  induction n generalizing first with
  | zero => cases h
  | succ n ih =>
    rcases List.mem_cons.1 h with rfl | h
    · exact ⟨first, rfl⟩
    · exact ih h

theorem flatten_singletons (ps : List Packet) : (ps.map ([·])).flatten = ps := by
  induction ps with
  | nil => rfl
  | cons p ps ih => rw [List.map_cons, List.flatten_cons, ih]; rfl

theorem mem_oneTurn {m : List Packet} (h : m ∈ oneTurn) :
    m = [fragment 0 true [120], fragment 1 false []] ∨
      m = [fragment 0 true [], fragment 1 false [121]] ∨ ∃ number, m = [fragment number false [122]] := by
  simp only [oneTurn, List.mem_cons, List.mem_append, List.mem_map, List.not_mem_nil, or_false] at h
  rcases h with rfl | ⟨p, hp, rfl⟩ | rfl | ⟨p, hp, rfl⟩ | rfl
  · exact .inl rfl
  · obtain ⟨number, rfl⟩ := mem_singles hp
    exact .inr (.inr ⟨number, rfl⟩)
  · exact .inr (.inr ⟨128, rfl⟩)
  · obtain ⟨number, rfl⟩ := mem_singles hp
    exact .inr (.inr ⟨number, rfl⟩)
  · exact .inr (.inl rfl)

theorem numbered_oneTurn : Numbered 0 oneTurn := by
  have hlast : Numbered 129 ((singles 129 127).map ([·]) ++
      [[fragment 0 true [], fragment 1 false [121]]]) := by
    refine numbered_singles ?_
    rw [show Serial.forward (129 : UInt8) 127 = 0 by decide +kernel]
    exact ⟨⟨rfl, rfl, rfl⟩, trivial⟩
  have hmiddle : Numbered 2 ((singles 2 126).map ([·]) ++ [fragment 128 false [122]] ::
      ((singles 129 127).map ([·]) ++ [[fragment 0 true [], fragment 1 false [121]]])) := by
    refine numbered_singles ?_
    rw [show Serial.forward (2 : UInt8) 126 = 128 by decide +kernel]
    exact ⟨⟨rfl, rfl⟩, hlast⟩
  exact ⟨⟨rfl, rfl, rfl⟩, hmiddle⟩

theorem loses_oneTurn : Loses 0 oneTurn.flatten leftOver := by
  have hflat : oneTurn.flatten = fragment 0 true [120] :: fragment 1 false [] ::
      (singles 2 126 ++ fragment 128 false [122] ::
        (singles 129 127 ++ [fragment 0 true [], fragment 1 false [121]])) := by
    simp only [oneTurn, List.flatten_cons, List.flatten_append, flatten_singletons,
      List.flatten_nil, List.cons_append, List.nil_append, List.append_nil]
  rw [hflat]
  refine .lose (by omega) (.keep (.lost_append _ (by rw [length_singles]; omega) (.keep
    (.lost_append _ (by rw [length_singles]; omega) (.keep (.lose (by omega) .done))))))

/-- The second fragment of the first message waits. -/
def halfway (config : Config) : Reassembly := (new config).queued (fragment 1 false [])

theorem awaited_halfway (config : Config) : (halfway config).awaited.get 7 = 0 := by
  show (new config).awaited.get 7 = 0
  rw [new, ByteMap.get_const]

theorem packets_halfway (config : Config) : (halfway config).queue.packets 7 = [fragment 1 false []] := by
  have hempty : (new config).queue.packets 7 = [] := by rw [new, Queue.packets_empty]
  show ((new config).queue.add (fragment 1 false [])).packets (fragment 1 false []).port = _
  rw [Queue.packets_add_self]
  show Order.insert _ _ ((new config).queue.packets 7) = _
  rw [hempty]
  rfl

theorem receive_end (hmax : 2 ≤ config.maxFragments) (hcap : 2 * Header.size ≤ config.queueCapacity) :
    ((new config).push (fragment 1 false [])).1 = .ok () ∧
      (new config).receive (fragment 1 false []) = ([], halfway config) := by
  have haccepts : (new config).Accepts (fragment 1 false []) := by
    refine ⟨?_, ?_, Nat.le_trans (show 0 + 12 ≤ 2 * Header.size by decide) hcap⟩
    · show Serial.precedes 1 ((halfway config).awaited.get 7) = false
      rw [awaited_halfway]
      decide
    · rw [new, Queue.packets_empty]
      simp
  have hincomplete : (halfway config).isComplete 7 = false := by
    show completeFrom ((halfway config).awaited.get 7) ((halfway config).queue.packets 7) = false
    rw [packets_halfway, awaited_halfway]
    decide
  refine (idle_new config).receive_of_waits haccepts hincomplete ?_
  show ((halfway config).queue.packets 7).length < config.maxFragments
  rw [packets_halfway]
  exact hmax

/-- The first fragment of the last message has the number that the port still awaits. -/
theorem receive_start (hcap : 2 * Header.size ≤ config.queueCapacity) :
    ((halfway config).push (fragment 0 true [])).1 = .ok () ∧
      [] ∈ forPort 7 ((halfway config).receive (fragment 0 true [])).1 := by
  have haccepts : (halfway config).Accepts (fragment 0 true []) := by
    refine ⟨?_, ?_, Nat.le_trans (show 0 + 12 + 12 ≤ 2 * Header.size by decide) hcap⟩
    · show Serial.precedes 0 ((halfway config).awaited.get 7) = false
      rw [awaited_halfway]
      decide
    · rw [show (fragment 0 true []).port = 7 from rfl, packets_halfway]
      decide
  let r := (halfway config).queued (fragment 0 true [])
  have hpackets : r.queue.packets 7 = [fragment 0 true [], fragment 1 false []] := by
    show ((halfway config).queue.add (fragment 0 true [])).packets (fragment 0 true []).port = _
    rw [Queue.packets_add_self]
    show Order.insert .fragment _ ((halfway config).queue.packets 7) = _
    rw [packets_halfway]
    decide
  have hcomplete : r.isComplete 7 = true := by
    show completeFrom ((halfway config).awaited.get 7) (r.queue.packets 7) = true
    rw [hpackets, awaited_halfway]
    decide
  have hpush : (halfway config).push (fragment 0 true []) = (.ok (), { r with announced := [7] }) := by
    rw [push_of_accepts haccepts, if_pos ⟨List.not_mem_nil, hcomplete⟩]
    rfl
  have hannounced : ({ r with announced := [7] } : Reassembly).announced = 7 :: [] := rfl
  obtain ⟨r', announced, -, htake⟩ := take_of_announced rfl hannounced
  have hpending : Reassembly.pending { r with announced := [7] } = r.queue.length + 1 := by
    show 0 + 1 + r.queue.length = _
    omega
  refine ⟨by rw [hpush], ?_⟩
  unfold receive drain
  rw [hpush, hpending, drainUpTo, htake]
  simp only [hpackets]
  simp [forPort, throughFinal, fragment, Packet.isFinal]

/-- With two fragments to a message and room for both, what is left of the first message and of the
last one is taken for a message. -/
theorem receiveAll_leftOver (hmax : 2 ≤ config.maxFragments)
    (hcap : 2 * Header.size ≤ config.queueCapacity) :
    Admitted (new config) leftOver ∧ [] ∈ forPort 7 ((new config).receiveAll leftOver) := by
  obtain ⟨hend, hwaits⟩ := receive_end hmax hcap
  obtain ⟨hstart, htaken⟩ := receive_start hcap
  have hidle : (halfway config).Idle config := by
    have := (idle_new config).receive (fragment 1 false [])
    rwa [hwaits] at this
  -- the one from half a turn later is taken for an old one
  obtain ⟨hstale, hignored⟩ := hidle.receive_of_stale (p := fragment 128 false [122]) (by
    show Serial.precedes 128 ((halfway config).awaited.get 7) = true
    rw [awaited_halfway]
    decide)
  constructor
  · refine ⟨hend, ?_⟩
    rw [hwaits]
    refine ⟨hstale, ?_⟩
    rw [hignored]
    exact ⟨hstart, trivial⟩
  · rw [leftOver, receiveAll, hwaits, receiveAll, hignored, receiveAll]
    simpa [receiveAll] using htaken

/-- Over a lossy link, what is taken for a port that nothing misleads was sent to it, and in the order
in which it was sent.  That nothing misleads is certain only with limits that keep reassembly trivial:
one fragment to a message, or a queue without room for two packets. -/
theorem delivers_sent (config : Config) :
    (∀ port messages arrivals, Transfer config port messages arrivals →
      Steady port (new config) arrivals →
      (forPort port ((new config).receiveAll arrivals)).Sublist (messages.map content)) ∧
    ((∀ port messages arrivals, Transfer config port messages arrivals →
      (forPort port ((new config).receiveAll arrivals)).Sublist (messages.map content)) ↔
      config.maxFragments ≤ 1 ∨ config.queueCapacity < 2 * Header.size) := by
  have hsteady : ∀ port messages arrivals, Transfer config port messages arrivals →
      Steady port (new config) arrivals →
      (forPort port ((new config).receiveAll arrivals)).Sublist (messages.map content) := by
    intro port messages arrivals h hs
    exact (rests_new h.numbered).sublist_of_steady (idle_new config) h.lossy h.admitted hs
  refine ⟨hsteady, ?_, ?_⟩
  · intro h
    by_contra hlimits
    have hmax : 2 ≤ config.maxFragments := by omega
    have hcap : 2 * Header.size ≤ config.queueCapacity := by omega
    obtain ⟨hadm, hmem⟩ := receiveAll_leftOver hmax hcap
    have ht : Transfer config 7 oneTurn leftOver := by
      refine ⟨?_, ?_, numbered_oneTurn, loses_oneTurn, hadm⟩
      · intro m hm p hp
        rcases mem_oneTurn hm with rfl | rfl | ⟨number, rfl⟩ <;> simp at hp
        · rcases hp with rfl | rfl <;> rfl
        · rcases hp with rfl | rfl <;> rfl
        · rw [hp]
          rfl
      · intro m hm
        rcases mem_oneTurn hm with rfl | rfl | ⟨number, rfl⟩
        · exact hmax
        · exact hmax
        · exact Nat.le_trans (show 1 ≤ 2 by decide) hmax
    -- none of the messages sent is empty
    obtain ⟨m, hm, hcontent⟩ := List.mem_map.1 ((h 7 oneTurn leftOver ht).subset hmem)
    rcases mem_oneTurn hm with rfl | rfl | ⟨number, rfl⟩ <;> simp [content, fragment] at hcontent
  · intro hlimits port messages arrivals h
    exact hsteady port messages arrivals h ((rests_new h.numbered).steady (idle_new config) hlimits
      h.short h.lossy h.admitted)

/-- Two messages of four fragments, of which the last fragment of the first one is lost: the tail of
the second one is taken for a message. -/
theorem not_delivers_sent_of_lost_end :
    ({ maxFragments := 4 } : Config).validate = .ok () ∧
      Transfer { maxFragments := 4 } 7
        [[fragment 0 true [97], fragment 1 true [98], fragment 2 true [99], fragment 3 false [100]],
          [fragment 4 true [101], fragment 5 true [102], fragment 6 true [103],
            fragment 7 false [104]]]
        [fragment 0 true [97], fragment 1 true [98], fragment 2 true [99], fragment 4 true [101],
          fragment 5 true [102], fragment 6 true [103], fragment 7 false [104]] ∧
      forPort 7 ((new { maxFragments := 4 }).receiveAll
        [fragment 0 true [97], fragment 1 true [98], fragment 2 true [99], fragment 4 true [101],
          fragment 5 true [102], fragment 6 true [103], fragment 7 false [104]]) =
        [[102, 103, 104]] ∧
      ¬ [[102, 103, 104]].Sublist
        ([[fragment 0 true [97], fragment 1 true [98], fragment 2 true [99], fragment 3 false [100]],
          [fragment 4 true [101], fragment 5 true [102], fragment 6 true [103],
            fragment 7 false [104]]].map content) := by
  refine ⟨by decide, ⟨by decide, by decide, ?_, ?_, ?_⟩, by decide +kernel, by decide⟩
  · exact ⟨⟨rfl, rfl, rfl, rfl, rfl⟩, ⟨rfl, rfl, rfl, rfl, rfl⟩, trivial⟩
  · exact .keep (.keep (.keep (.lose (by decide) (.keep (.keep (.keep (.keep .done)))))))
  · refine ⟨?_, ?_, ?_, ?_, ?_, ?_, ?_, trivial⟩ <;> decide +kernel

end NarrowLink.Reassembly

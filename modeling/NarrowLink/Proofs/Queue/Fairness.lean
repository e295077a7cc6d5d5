import NarrowLink.Proofs.Queue.Consistency

/-!
# Every port gets its turn

The ports that have packets stand in line, and `Queue.popNext` serves the first one.  A port joins the
line at its end, so whatever is called, nothing gets in front of a port that stands in it
(`inFront_call`), and each turn of another port shortens the line before it (`inFront_popNext`).
Until a port is served, every other port is served at most once, and it has to wait for no more turns
than there are ports in front of it (`served_in_turn`).
-/

namespace NarrowLink

/-! ## The part of a list before an element -/

section Before

variable {α : Type} [DecidableEq α] {a b : α} {as : List α}

/-- What comes behind an element does not change what stands before it. -/
theorem takeWhile_ne_append (h : a ∈ as) (bs : List α) :
    (as ++ bs).takeWhile (· != a) = as.takeWhile (· != a) := by
  induction as with
  | nil => exact absurd h List.not_mem_nil
  | cons c as ih =>
    rw [List.cons_append, List.takeWhile_cons, List.takeWhile_cons]
    split
    · rename_i hc
      rw [ih ((List.mem_cons.1 h).resolve_left (Ne.symm (bne_iff_ne.1 hc)))]
    · rfl

/-- Without some other element, no more stands before an element than did. -/
theorem takeWhile_ne_filter_sublist (h : b ≠ a) :
    ((as.filter (· != b)).takeWhile (· != a)).Sublist (as.takeWhile (· != a)) := by
  induction as with
  | nil => exact .slnil
  | cons c as ih =>
    by_cases hc : c = a
    · simp [hc, Ne.symm h]
    · by_cases hb : c = b
      · simpa [hb, h] using ih.cons b
      · simpa [hc, hb] using ih.cons_cons c

end Before

namespace Queue

open Wire

/-- The call takes no packets from a port, unless it serves the port in its turn. -/
def Call.Spares (port : UInt8) : Call → Prop
  | .pop other | .erasePort other => other ≠ port
  | .clear => False
  | _ => True

instance (port : UInt8) : (c : Call) → Decidable (c.Spares port)
  | .pop other | .erasePort other => inferInstanceAs (Decidable (other ≠ port))
  | .clear => inferInstanceAs (Decidable False)
  | .push _ | .pushAll _ | .popNext => inferInstanceAs (Decidable True)

/-- The call serves the port whose turn it is. -/
def Call.isPopNext : Call → Bool
  | .popNext => true
  | _ => false

/-- The ports that are served in their turn during a run of calls. -/
def served : Queue → List Call → List UInt8
  | _, [] => []
  | q, c :: calls =>
    (if c.isPopNext then (q.call c).popped.toList.map Packet.port else []) ++
      served (q.call c).queue calls

/-- The ports that stand in line in front of a port. -/
def inFront (q : Queue) (port : UInt8) : List UInt8 := q.ready.takeWhile (· != port)

variable {q q' : Queue} {p : Packet} {port : UInt8} {c : Call} {calls : List Call}

/-! ## The line -/

theorem exists_ready_foldl_add (q : Queue) (ps : List Packet) :
    ∃ more, (ps.foldl Queue.add q).ready = q.ready ++ more := by
  induction ps generalizing q with
  | nil => exact ⟨[], (List.append_nil _).symm⟩
  | cons p ps ih =>
    obtain ⟨more, hmore⟩ := ih (q.add p)
    have hadd : ∃ joins, (q.add p).ready = q.ready ++ joins := by
      unfold Queue.add
      simp only
      split
      · exact ⟨_, rfl⟩
      · exact ⟨[], (List.append_nil _).symm⟩
    obtain ⟨joins, hjoins⟩ := hadd
    exact ⟨joins ++ more, by rw [List.foldl_cons, hmore, hjoins, List.append_assoc]⟩

theorem ready_pop {other : UInt8} (h : q.pop other = some (p, q')) :
    q'.ready = q.ready ∨ q'.ready = q.ready.filter (· != other) := by
  unfold Queue.pop at h
  split at h
  · cases h
  cases h
  simp only
  split
  · exact .inr rfl
  · exact .inl rfl

/-- Nothing gets in front of a port in line. -/
theorem inFront_append {more : List UInt8} (hport : port ∈ q.ready) (h : q'.ready = q.ready ++ more) :
    port ∈ q'.ready ∧ (q'.inFront port).Sublist (q.inFront port) := by
  unfold inFront
  rw [h, takeWhile_ne_append hport]
  exact ⟨List.mem_append_left _ hport, .refl _⟩

/-- If another port leaves the line, everything behind it moves up. -/
theorem inFront_filter {other : UInt8} (hport : port ∈ q.ready) (hother : other ≠ port)
    (h : q'.ready = q.ready.filter (· != other)) :
    port ∈ q'.ready ∧ (q'.inFront port).Sublist (q.inFront port) := by
  unfold inFront
  rw [h]
  exact ⟨List.mem_filter.2 ⟨hport, by simpa using hother.symm⟩, takeWhile_ne_filter_sublist hother⟩

/-- A call that serves nobody in turn leaves a port in line, and nothing gets in front of it. -/
theorem inFront_call (hport : port ∈ q.ready) (hc : c.Spares port) (hnext : c.isPopNext = false) :
    port ∈ (q.call c).queue.ready ∧ ((q.call c).queue.inFront port).Sublist (q.inFront port) := by
  have hsame : port ∈ q.ready ∧ (q.inFront port).Sublist (q.inFront port) := ⟨hport, .refl _⟩
  have hcalled := q.called c
  generalize q.call c = o at hcalled ⊢
  cases hcalled with
  | @push p =>
    obtain ⟨more, hmore⟩ := q.exists_ready_foldl_add [p]
    exact inFront_append hport hmore
  | @pushAll ps =>
    obtain ⟨more, hmore⟩ := q.exists_ready_foldl_add ps
    exact inFront_append hport hmore
  | refused => exact hsame
  | pop hpop =>
    rcases ready_pop hpop with he | he
    · exact inFront_append hport (he.trans (List.append_nil _).symm)
    · exact inFront_filter hport hc he
  | popNext => cases hnext
  | nothing => exact hsame
  | erasePort other => exact inFront_filter hport hc rfl
  | clear => exact hc.elim

/-- If a port stands in line, some port is served: this one, or the first one in front of it. -/
theorem inFront_popNext (h : q.Consistent) (hport : port ∈ q.ready) :
    ∃ p q', q.popNext = some (p, q') ∧
      (p.port = port ∨ port ∈ q'.ready ∧ q.inFront port = p.port :: q'.inFront port) := by
  unfold Queue.popNext
  split
  · rename_i hnil
    rw [hnil] at hport
    exact absurd hport List.not_mem_nil
  rename_i first others hready
  have hfirst := (h.mem_ready_iff first).1 (hready ▸ List.mem_cons_self)
  split
  · rename_i hnil
    exact absurd hnil hfirst
  rename_i p rest hp
  have hp' : p.port = first := h.filed first p (hp ▸ List.mem_cons_self)
  refine ⟨p, _, rfl, ?_⟩
  by_cases he : first = port
  · exact .inl (hp'.trans he)
  · have hmem : port ∈ others := by
      rw [hready] at hport
      exact (List.mem_cons.1 hport).resolve_left (Ne.symm he)
    have hbehind : ∃ more, (if rest.isEmpty then others else others ++ [first]) = others ++ more := by
      split
      · exact ⟨[], (List.append_nil _).symm⟩
      · exact ⟨_, rfl⟩
    obtain ⟨more, hmore⟩ := hbehind
    refine .inr ?_
    unfold inFront
    simp only [hready, hmore]
    refine ⟨List.mem_append_left _ hmem, ?_⟩
    rw [takeWhile_ne_append hmem, hp', List.takeWhile_cons_of_pos (by simpa using he)]

/-! ## Runs -/

/-- Until a port in line is served, every turn goes to a port in front of it, to each one at most
once. -/
theorem served_sublist (h : q.Consistent) (hport : port ∈ q.ready) (hcalls : ∀ c ∈ calls, c.Spares port)
    (hnot : port ∉ q.served calls) :
    (q.served calls).Sublist (q.inFront port) ∧
      (q.served calls).length = calls.countP Call.isPopNext := by
  induction calls generalizing q with
  | nil => exact ⟨List.nil_sublist _, rfl⟩
  | cons c calls ih =>
    have hrest : ∀ c ∈ calls, c.Spares port := fun c hc => hcalls c (List.mem_cons_of_mem _ hc)
    have hconsistent := (q.called c).consistent h
    unfold served at hnot ⊢
    by_cases hnext : c.isPopNext = true
    · obtain rfl : c = .popNext := by
        cases c <;> first | rfl | cases hnext
      obtain ⟨p, q', hpop, hturn⟩ := inFront_popNext h hport
      have hcall : q.call .popNext = { queue := q', popped := some p } := by
        simp only [call, hpop]
      rw [hcall] at hnot hconsistent ⊢
      simp only [Call.isPopNext, if_true, Option.toList_some, List.map_cons, List.map_nil,
        List.cons_append, List.nil_append, List.mem_cons, not_or] at hnot ⊢
      obtain ⟨hmem, hfront⟩ := hturn.resolve_left (Ne.symm hnot.1)
      obtain ⟨hsub, hlength⟩ := ih hconsistent hmem hrest hnot.2
      rw [hfront]
      refine ⟨hsub.cons_cons p.port, ?_⟩
      rw [List.countP_cons_of_pos rfl, List.length_cons, hlength]
    · rw [if_neg hnext, List.nil_append] at hnot ⊢
      obtain ⟨hmem, hfront⟩ := inFront_call hport (hcalls c List.mem_cons_self)
        (Bool.not_eq_true _ ▸ hnext)
      obtain ⟨hsub, hlength⟩ := ih hconsistent hmem hrest hnot
      refine ⟨hsub.trans hfront, ?_⟩
      rw [List.countP_cons_of_neg hnext, hlength]

/-- A port that has packets gets its turn.  Until then, every other port is served at most once. -/
structure InTurn (q : Queue) (port : UInt8) (calls : List Call) : Prop where
  once : port ∉ q.served calls → (q.served calls).Nodup ∧ (q.served calls).Sublist (q.inFront port) ∧
    (q.served calls).length = calls.countP Call.isPopNext
  soon : (q.inFront port).length < calls.countP Call.isPopNext → port ∈ q.served calls

/-- Whatever was called before, and whatever is called on other ports from now on, a port that has
packets gets its turn after the ports in front of it, which get no second one before. -/
theorem served_in_turn (order : Order) (capacity : Nat) (past : List Call)
    (hport : ((History.start order capacity).after past).queue.packets port ≠ [])
    (hcalls : ∀ c ∈ calls, c.Spares port) :
    ((History.start order capacity).after past).queue.InTurn port calls := by
  have hq := ((History.kept_start order capacity).after past).consistent
  have hready := (hq.mem_ready_iff port).2 hport
  refine ⟨fun hnot => ?_, fun hturns => ?_⟩
  · obtain ⟨hsub, hlength⟩ := served_sublist hq hready hcalls hnot
    exact ⟨(hq.nodup.sublist (List.takeWhile_sublist _)).sublist hsub, hsub, hlength⟩
  · by_contra hnot
    obtain ⟨hsub, hlength⟩ := served_sublist hq hready hcalls hnot
    have hle := hsub.length_le
    omega

/-- Two ports are in front of the third one, and one of them goes on sending. -/
theorem served_in_turn_of_three :
    let packet : UInt8 → Packet := fun port => ⟨{ kind := .datagram, dst := port, src := 1 }, [], 0⟩
    let past := [.push (packet 5), .pushAll [packet 3, packet 5], .push (packet 9)]
    let calls := [.popNext, .push (packet 5), .pop 5, .popNext, .push (packet 3), .popNext]
    let q := ((History.start .transmit 100).after past).queue
    q.InTurn 9 calls ∧ q.inFront 9 = [5, 3] ∧ q.served calls = [5, 3, 9] := by
  intro packet past calls q
  exact ⟨served_in_turn .transmit 100 past (by decide +kernel) (by decide +kernel), by decide +kernel,
    by decide +kernel⟩

end Queue

end NarrowLink

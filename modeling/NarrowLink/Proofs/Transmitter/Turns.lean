import NarrowLink.Proofs.Queue.Consistency
import NarrowLink.Proofs.Transmitter.Acts

/-!
# The turns of the workers

Between two calls of its users a transmitter does one of four things (`Turns`): nothing, letting go of a
packet that a worker has in its hands, putting such a packet back, or taking the next one.  What is known of
an act that puts no packets into the queue follows from this.  Together with what users bring it gives one
law for all acts: what is accepted, and what the transmitter had, it has afterwards, or it has left
(`stock_apply`).

Workers come into being only when the transmitter is started.  If each one is started after the end of the
others, one of them is at work at a time (`Alone`).
-/

namespace NarrowLink.Transmitter

open Wire

/-- The act puts no packets of users into the queue. -/
def Act.Idle : Act → Prop
  | .submit _ | .submitAll _ => False
  | _ => True

/-- What becomes of the queue and of the packets in the hands of the workers, and which packet leaves. -/
inductive Turns (t t' : Transmitter) : List Packet → Prop where
  | still (queue : t'.queue = t.queue) (held : t'.held = t.held) : Turns t t' []
  /-- The link has taken the packet or can not send it, or there was no room for it. -/
  | gone {ahead behind : List Packet} {p : Packet} (before : t.held = ahead ++ p :: behind)
      (queue : t'.queue = t.queue) (after : t'.held = ahead ++ behind) : Turns t t' [p]
  | back {ahead behind : List Packet} {p : Packet} (before : t.held = ahead ++ p :: behind)
      (room : t.queue.used + p.wireLength ≤ t.queue.capacity) (queue : t'.queue = t.queue.add p)
      (after : t'.held = ahead ++ behind) : Turns t t' []
  | next {ahead behind : List Packet} {p : Packet} (before : t.held = ahead ++ behind)
      (queue : t.queue.popNext = some (p, t'.queue)) (after : t'.held = ahead ++ p :: behind)
      (offered : ∃ w, t'.offeredBy w = some p) : Turns t t' []

variable {t t' : Transmitter} {a : Act} {w : Nat} {p : Packet} {leaving : List Packet}

/-! ## What workers do -/

theorem turns_settle (t : Transmitter) (w : Nat) (reply : Reply) :
    t.Turns (t.settle w reply) (t.leaving (.settle w reply)) := by
  cases hp : t.offeredBy w with
  | none =>
    have hnothing : t.leaving (.settle w reply) = [] := by
      rcases reply with (_ | n | f) | _ <;> simp [Transmitter.leaving, delivers, drops, loses, hp]
    rw [settle_of_offeredBy hp, hnothing]
    exact .still rfl rfl
  | some p =>
    have hw := offeredBy_eq_some_iff.1 hp
    obtain ⟨ahead, behind, hbefore, hafter⟩ := held_turn hw
    -- the packet leaves with every answer but one
    have hgone : t.Turns (t.turn w .going) [p] := .gone hbefore rfl (hafter .going)
    unfold settle
    rw [hw]
    rcases reply with (_ | n | f) | _
    · exact .still rfl ((hafter (.returning p)).trans hbefore.symm)
    · simpa [Transmitter.leaving, delivers, drops, loses, hp] using hgone
    · simpa [Transmitter.leaving, delivers, drops, loses, hp] using hgone
    · simpa [Transmitter.leaving, delivers, drops, loses, hp] using hgone

/-- A worker that is not about to put a packet back loses none. -/
theorem leaving_step_of_refusedTo (h : t.refusedTo w = none) : t.leaving (.step w) = [] := by
  simp [Transmitter.leaving, delivers, drops, loses, h]

/-- A packet that the link has refused goes back to the queue if there is room. -/
theorem turns_step_of_returning (h : t.workers[w]? = some (.returning p)) :
    t.Turns (t.step w) (t.leaving (.step w)) := by
  obtain ⟨ahead, behind, hbefore, hafter⟩ := held_turn h
  have hleaving : t.leaving (.step w) = [p].filter fun p => !t.queue.fits p.wireLength := by
    simp [Transmitter.leaving, delivers, drops, loses, refusedTo_eq_some_iff.2 h]
  unfold step
  rw [h, hleaving]
  simp only [submit, Queue.push]
  by_cases hfits : t.queue.fits p.wireLength = true
  · rw [if_pos hfits, List.filter_cons_of_neg (by simpa using hfits)]
    exact .back hbefore (of_decide_eq_true hfits) rfl (hafter .going)
  · rw [if_neg hfits, List.filter_cons_of_pos (by simpa using hfits)]
    exact .gone hbefore rfl (hafter .going)

theorem turns_step (t : Transmitter) (w : Nat) : t.Turns (t.step w) (t.leaving (.step w)) := by
  by_cases hp : ∃ p, t.workers[w]? = some (.returning p)
  · obtain ⟨p, hp⟩ := hp
    exact turns_step_of_returning hp
  have hrefused : t.refusedTo w = none := by
    rw [← Option.not_isSome_iff_eq_none, Option.isSome_iff_exists]
    rintro ⟨p, hrefused⟩
    exact hp ⟨p, refusedTo_eq_some_iff.1 hrefused⟩
  rw [leaving_step_of_refusedTo hrefused]
  unfold step
  split
  · rename_i hw
    split
    · exact .still rfl (held_turn_of_none (t := { t with activity := .stopped }) hw rfl rfl)
    split
    · exact .still rfl (held_turn_of_none (t := { t with activity := .blocked }) hw rfl rfl)
    split
    · exact .still rfl (held_turn_of_none (t := { t with activity := .waiting }) hw rfl rfl)
    · exact .still rfl (held_turn_of_none (t := { t with activity := .running }) hw rfl rfl)
  · rename_i hw
    split
    · exact .still rfl rfl
    · exact .still rfl (held_turn_of_none hw rfl rfl)
  · rename_i hw
    split
    · rename_i p q hpop
      obtain ⟨ahead, behind, hbefore, hafter⟩ := held_turn hw
      refine .next hbefore hpop (hafter (.offering p)) ⟨w, offeredBy_eq_some_iff.2 ?_⟩
      exact List.getElem?_set_self (List.getElem?_eq_some_iff.1 hw).1
    · exact .still rfl (held_turn_of_none hw rfl rfl)
  · rename_i p hw
    exact absurd ⟨p, hw⟩ hp
  · exact .still rfl rfl

/-- Acts that put no packets into the queue are turns of the workers. -/
theorem turns_of_idle (t : Transmitter) (h : a.Idle) : t.Turns (t.apply a) (t.leaving a) := by
  cases a with
  | submit | submitAll => exact h.elim
  | setLink up => exact .still rfl rfl
  | start =>
    show t.Turns t.start []
    unfold start
    split
    · exact .still rfl rfl
    · refine .still rfl ?_
      show (t.workers ++ [Worker.going]).filterMap Worker.held = _
      rw [List.filterMap_append]
      exact List.append_nil _
  | halt => exact .still rfl rfl
  | detach => exact .still rfl rfl
  | conclude => exact .still rfl rfl
  | step w => exact t.turns_step w
  | settle w reply => exact t.turns_settle w reply

/-! ## What follows from a turn -/

theorem Turns.capacity (h : t.Turns t' leaving) : t'.queue.capacity = t.queue.capacity := by
  cases h with
  | still queue _ => rw [queue]
  | gone _ queue _ => rw [queue]
  | back _ _ queue _ =>
    rw [queue]
    rfl
  | next _ queue _ _ => exact Queue.capacity_popNext queue

theorem Turns.order (h : t.Turns t' leaving) : t'.queue.order = t.queue.order := by
  cases h with
  | still queue _ => rw [queue]
  | gone _ queue _ => rw [queue]
  | back _ _ queue _ =>
    rw [queue]
    rfl
  | next _ queue _ _ => exact Queue.order_popNext queue

theorem Turns.consistent (h : t.Turns t' leaving) (hq : t.queue.Consistent) : t'.queue.Consistent := by
  cases h with
  | still queue _ => rwa [queue]
  | gone _ queue _ => rwa [queue]
  | back _ _ queue _ =>
    rw [queue]
    exact hq.add _
  | next _ queue _ _ => exact hq.popNext queue

theorem Turns.used_le (h : t.Turns t' leaving) (hroom : t.queue.used ≤ t.queue.capacity) :
    t'.queue.used ≤ t'.queue.capacity := by
  cases h with
  | still queue _ => rwa [queue]
  | gone _ queue _ => rwa [queue]
  | back _ room queue _ =>
    rw [queue]
    exact room
  | next _ queue _ _ =>
    rw [Queue.capacity_popNext queue]
    exact Nat.le_trans (Queue.used_popNext_le queue) hroom

/-- What a transmitter had it has after a turn, but for what leaves. -/
theorem Turns.stock (h : t.Turns t' leaving) : t.stock.Perm (t'.stock ++ leaving) := by
  unfold Transmitter.stock
  cases h with
  | still queue held => rw [queue, held, List.append_nil]
  | gone before queue after =>
    rw [before, queue, after, List.append_assoc]
    refine .append_left _ (List.perm_middle.trans ?_)
    exact (List.perm_append_singleton _ _).symm
  | back before _ queue after =>
    rw [before, queue, after, List.append_nil]
    refine (List.Perm.append_left _ List.perm_middle).trans (List.perm_middle.trans ?_)
    exact (Queue.stored_add _ _).symm.append_right _
  | next before queue after _ =>
    rw [before, after, List.append_nil]
    refine ((Queue.stored_popNext queue).append_right _).trans ?_
    exact List.perm_middle.symm.trans (.append_left _ List.perm_middle.symm)

/-- The workers bring in no packets. -/
theorem Turns.mem_stock (h : t.Turns t' leaving) (hp : p ∈ t'.stock) : p ∈ t.stock :=
  h.stock.mem_iff.2 (List.mem_append_left _ hp)

/-! ## The hands of the workers -/

/-- Around the only packet in the hands of the workers there is none. -/
theorem eq_nil_of_length_le {ahead behind : List Packet} (h : (ahead ++ p :: behind).length ≤ 1) :
    ahead = [] ∧ behind = [] := by
  simp only [List.length_append, List.length_cons] at h
  exact ⟨List.length_eq_zero_iff.1 (by omega), List.length_eq_zero_iff.1 (by omega)⟩

/-- One of the packets in the hands of the workers makes no difference to other ports. -/
theorem ofPort_held_of_other {port : UInt8} {ahead behind : List Packet} (hport : p.port ≠ port) :
    ofPort port (ahead ++ p :: behind) = ofPort port (ahead ++ behind) := by
  rw [ofPort_append, ofPort_append, ← List.singleton_append, ofPort_append, ofPort_singleton,
    if_neg hport, List.nil_append]

/-- The only packet of a port in the hands of the workers. -/
theorem ofPort_held_of_only {port : UInt8} {ahead behind : List Packet} (hport : p.port = port)
    (h : (ofPort port (ahead ++ p :: behind)).length ≤ 1) :
    ofPort port (ahead ++ p :: behind) = [p] ∧ ofPort port (ahead ++ behind) = [] := by
  rw [ofPort_append, ← List.singleton_append, ofPort_append, ofPort_singleton, if_pos hport] at h ⊢
  obtain ⟨hahead, hbehind⟩ : ofPort port ahead = [] ∧ ofPort port behind = [] := eq_nil_of_length_le h
  rw [ofPort_append, hahead, hbehind]
  exact ⟨rfl, rfl⟩

/-- Without one of the packets in the hands of the workers there are not more of a port. -/
theorem length_ofPort_held_le (port : UInt8) {ahead behind : List Packet}
    (h : t.held = ahead ++ p :: behind) :
    (ofPort port (ahead ++ behind)).length ≤ (ofPort port t.held).length := by
  have hsub : (ahead ++ behind).Sublist (ahead ++ p :: behind) :=
    (List.Sublist.refl ahead).append (List.sublist_cons_self p behind)
  exact h ▸ (hsub.filter _).length_le

/-! ## One law for all acts -/

theorem accepts_of_idle (h : a.Idle) : t.accepts a = [] := by
  cases a with
  | submit | submitAll => exact h.elim
  | _ => rfl

/-- Only users put packets into the queue, and nothing else happens then. -/
theorem apply_of_not_idle (h : ¬ a.Idle) :
    t.apply a = { t with queue := (t.accepts a).foldl Queue.add t.queue } ∧ t.leaving a = [] := by
  cases a with
  | submit p =>
    refine ⟨?_, rfl⟩
    simp only [apply, accepts, submit]
    cases hpush : t.queue.push p with
    | error e => rfl
    | ok q =>
      obtain ⟨-, rfl⟩ := Queue.push_eq_ok_iff.1 hpush
      rfl
  | submitAll ps =>
    refine ⟨?_, rfl⟩
    simp only [apply, accepts, submitAll, Queue.pushAll]
    by_cases hfits : t.queue.fits (wireLengths ps) = true
    · simp only [if_pos hfits]
    · simp only [if_neg hfits, List.foldl_nil]
  | _ => exact absurd trivial h

/-- What is accepted, and what the transmitter had, it has after the act, or it has left. -/
theorem stock_apply (t : Transmitter) (a : Act) :
    (t.accepts a ++ t.stock).Perm ((t.apply a).stock ++ t.leaving a) := by
  by_cases ha : a.Idle
  · rw [accepts_of_idle ha]
    exact (turns_of_idle t ha).stock
  · obtain ⟨happly, hleaving⟩ := apply_of_not_idle (t := t) ha
    rw [happly, hleaving, List.append_nil]
    show (t.accepts a ++ (t.queue.stored ++ t.held)).Perm
      (((t.accepts a).foldl Queue.add t.queue).stored ++ t.held)
    rw [← List.append_assoc]
    exact (t.queue.stored_foldl_add _).symm.append_right _

/-! ## One worker at a time -/

/-- At most one worker has not ended. -/
def Alone (t : Transmitter) : Prop := t.workers.countP (fun x => x != .ended) ≤ 1

theorem alone_new (config : Config) : (new config).Alone := Nat.zero_le _

/-- A worker that is alone has the only packet that is out of the queue. -/
theorem Alone.length_held_le (h : t.Alone) : t.held.length ≤ 1 := by
  refine Nat.le_trans ?_ h
  unfold held
  rw [List.length_filterMap_eq_countP]
  refine List.countP_mono_left fun x _ hx => ?_
  cases x <;> simp_all [Worker.held]

/-- No worker moves, or one that has not ended does. -/
def Moves (t t' : Transmitter) : Prop :=
  t'.workers = t.workers ∨
    ∃ w x y, t.workers[w]? = some x ∧ x ≠ .ended ∧ t'.workers = t.workers.set w y

theorem moves_step (t : Transmitter) (w : Nat) : t.Moves (t.step w) := by
  unfold step
  split
  · rename_i hw
    split
    · exact .inr ⟨w, _, _, hw, nofun, rfl⟩
    split
    · exact .inr ⟨w, _, _, hw, nofun, rfl⟩
    split <;> exact .inr ⟨w, _, _, hw, nofun, rfl⟩
  · rename_i hw
    split
    · exact .inl rfl
    · exact .inr ⟨w, _, _, hw, nofun, rfl⟩
  · rename_i hw
    split <;> exact .inr ⟨w, _, _, hw, nofun, rfl⟩
  · rename_i p hw
    refine .inr ⟨w, _, .going, hw, nofun, ?_⟩
    unfold submit turn
    split <;> rfl
  · exact .inl rfl

theorem moves_settle (t : Transmitter) (w : Nat) (reply : Reply) : t.Moves (t.settle w reply) := by
  unfold settle
  split
  · rename_i hw
    split <;> exact .inr ⟨w, _, _, hw, nofun, rfl⟩
  · exact .inl rfl

/-- A worker that moves stays alone. -/
theorem Alone.moves (h : t.Alone) (ht : t.Moves t') : t'.Alone := by
  unfold Alone at h ⊢
  obtain hsame | ⟨w, x, y, hw, hx, hset⟩ := ht
  · rwa [hsame]
  obtain ⟨hlt, rfl⟩ := List.getElem?_eq_some_iff.1 hw
  have hlive : (t.workers[w] != .ended) = true := bne_iff_ne.2 hx
  have hpos : 0 < t.workers.countP (fun x => x != .ended) :=
    List.countP_pos_iff.2 ⟨_, List.getElem_mem hlt, hlive⟩
  rw [hset, List.countP_set hlt, if_pos hlive]
  split <;> omega

/-- A worker stays alone unless another one is started beside it. -/
theorem Alone.apply (h : t.Alone) (hstart : a = .start → t.attached = false → t.busy = false) :
    (t.apply a).Alone := by
  by_cases ha : a.Idle
  case neg =>
    rw [(apply_of_not_idle ha).1]
    exact h
  cases a with
  | submit | submitAll => exact ha.elim
  | setLink | halt | detach | conclude => exact h
  | start =>
    show t.start.Alone
    unfold start
    split
    · exact h
    rename_i hdetached
    have hbusy := hstart rfl (Bool.eq_false_iff.2 hdetached)
    rw [busy, List.any_eq_false] at hbusy
    show (t.workers ++ [Worker.going]).countP _ ≤ 1
    rw [List.countP_append, List.countP_eq_zero.2 hbusy]
    decide
  | step w => exact h.moves (t.moves_step w)
  | settle w reply => exact h.moves (t.moves_settle w reply)

end NarrowLink.Transmitter

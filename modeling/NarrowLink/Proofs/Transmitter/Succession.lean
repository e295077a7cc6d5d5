import Mathlib.Data.List.Infix
import NarrowLink.Proofs.Transmitter.Custody
import NarrowLink.Proofs.Transmitter.Turns

/-!
# Packets leave in the order in which they came

Let the packets that a transmitter accepts for a port have numbers in a row, and fewer of them than half of
all numbers wait in the queue at once.  As long as one worker at a time has a packet of the port in its
hands (`OneByOne`), the port is a line: what has left comes first, then the packet in the hands of a worker,
then those that wait in the queue (`InLine`).  New packets go to the end of the queue, and a packet that the
link refuses goes back to its front.  So the link takes the packets of the port in the order in which they
were accepted, and none of them twice, however often it refuses them.  The port stays in line in these runs
and in no others (`keepsLine_iff`).

One at a time is what happens if each worker is started after the end of the last one
(`oneByOne_of_started_alone`).  But a transmitter that is being stopped lets go of its worker before it waits
for it.  If it is started again while that worker still waits for the link, there are two, and the link
takes their packets in any order (`not_inOrder_of_second_worker`).
-/

namespace NarrowLink.Transmitter

open Wire

/-- The transmit numbers of the packets of a port are in a row. -/
def Consecutive (port : UInt8) (ps : List Packet) : Prop :=
  ∃ first last, Serial.Row first ((ofPort port ps).map fun p => p.header.seq) last

variable {t t' : Transmitter} {a : Act} {ps qs leaving : List Packet} {q : Queue} {port : UInt8}

theorem Consecutive.of_append (h : Consecutive port (ps ++ qs)) : Consecutive port ps := by
  obtain ⟨first, last, hrow⟩ := h
  rw [ofPort_append, List.map_append] at hrow
  obtain ⟨middle, hps, -⟩ := hrow.of_append
  exact ⟨first, middle, hps⟩

/-- Packets that go on with the row of a port go to its end, in their order. -/
theorem packets_foldl_add_of_row {first last : UInt16} (horder : q.order = .transmit)
    (h : Serial.Row first ((q.packets port ++ ofPort port ps).map fun p => p.header.seq) last) :
    (ps.foldl Queue.add q).packets port = q.packets port ++ ofPort port ps := by
  induction ps generalizing q with
  | nil => exact (List.append_nil _).symm
  | cons p ps ih =>
    have hsplit : ofPort port (p :: ps) = ofPort port [p] ++ ofPort port ps :=
      ofPort_append port [p] ps
    have hadd : (q.add p).packets port = q.packets port ++ ofPort port [p] := by
      rw [Queue.packets_add, ofPort_singleton]
      split
      · rename_i hport
        rw [hsplit, ofPort_singleton, if_pos hport, ← List.append_assoc, List.map_append] at h
        obtain ⟨_, hrow, -⟩ := h.of_append
        rw [horder, Order.insert_of_row_concat hrow]
      · exact (List.append_nil _).symm
    rw [hsplit, ← List.append_assoc, ← hadd] at h
    rw [List.foldl_cons, ih (q := q.add p) horder h, hadd, hsplit, List.append_assoc]

/-! ## The line of a port -/

theorem order_apply (t : Transmitter) (a : Act) : (t.apply a).queue.order = t.queue.order := by
  by_cases ha : a.Idle
  · exact (turns_of_idle t ha).order
  · rw [(apply_of_not_idle ha).1]
    exact Queue.order_foldl_add _ _

theorem consistent_apply (h : t.queue.Consistent) (a : Act) : (t.apply a).queue.Consistent := by
  by_cases ha : a.Idle
  · exact (turns_of_idle t ha).consistent h
  · rw [(apply_of_not_idle ha).1]
    exact h.foldl_add _

/-- The packets of a port that a transmitter has, in the order in which they are to leave: those in the hands
of workers, and those in the queue. -/
def line (t : Transmitter) (port : UInt8) : List Packet := ofPort port t.held ++ t.queue.packets port

/-- What users bring goes to the end of the line. -/
theorem line_of_not_idle {first last : UInt16} (ha : ¬ a.Idle) (horder : t.queue.order = .transmit)
    (hrow : Serial.Row first
      ((t.line port ++ ofPort port (t.accepts a)).map fun p => p.header.seq) last) :
    (t.apply a).line port = t.line port ++ ofPort port (t.accepts a) := by
  rw [line, List.append_assoc, List.map_append] at hrow
  obtain ⟨_, -, hrow⟩ := hrow.of_append
  rw [(apply_of_not_idle ha).1]
  show ofPort port t.held ++ ((t.accepts a).foldl Queue.add t.queue).packets port = _
  rw [packets_foldl_add_of_row horder hrow, line, List.append_assoc]

/-- A worker takes packets from the front of the line, and puts them back there if the link does not take
them, as long as no other worker has one. -/
theorem Turns.line {first last : UInt16} (h : t.Turns t' leaving) (horder : t.queue.order = .transmit)
    (hq : t.queue.Consistent) (hrow : Serial.Row first ((t.line port).map fun p => p.header.seq) last)
    (hfew : (t.queue.packets port).length < Serial.half UInt16)
    (hbefore : (ofPort port t.held).length ≤ 1) (hafter : (ofPort port t'.held).length ≤ 1) :
    t.line port = ofPort port leaving ++ t'.line port := by
  unfold Transmitter.line at hrow ⊢
  cases h with
  | still queue held =>
    rw [queue, held]
    rfl
  | @gone ahead behind p before queue after =>
    rw [queue, after, before, ofPort_singleton]
    by_cases hport : p.port = port
    · obtain ⟨hhands, hrest⟩ := ofPort_held_of_only hport (before ▸ hbefore)
      rw [hhands, hrest, if_pos hport]
      rfl
    · rw [ofPort_held_of_other hport, if_neg hport]
      rfl
  | @back ahead behind p before room queue after =>
    rw [queue, after, before, Queue.packets_add]
    by_cases hport : p.port = port
    · obtain ⟨hhands, hrest⟩ := ofPort_held_of_only hport (before ▸ hbefore)
      rw [before, hhands, List.singleton_append] at hrow
      rw [hhands, hrest, if_pos hport, horder, Order.insert_of_row_cons hrow hfew]
      rfl
    · rw [ofPort_held_of_other hport, if_neg hport]
      rfl
  | @next ahead behind p before queue after offered =>
    obtain ⟨hhead, hothers⟩ := hq.packets_popNext queue
    rw [after, before]
    by_cases hport : p.port = port
    · subst hport
      obtain ⟨hhands, hrest⟩ := ofPort_held_of_only rfl (after ▸ hafter)
      rw [hhands, hrest, hhead]
      rfl
    · rw [ofPort_held_of_other hport, hothers port (Ne.symm hport)]
      rfl

/-- A worker offers the packet that stands behind the one in the hands of another worker. -/
theorem Turns.second (h : t.Turns t' leaving) (hq : t.queue.Consistent)
    (hbefore : (ofPort port t.held).length ≤ 1) (hafter : ¬ (ofPort port t'.held).length ≤ 1) :
    ∃ w y p, leaving = [] ∧ t'.offeredBy w = some p ∧ p.port = port ∧ ofPort port t.held = [y] ∧
      (p :: t.held).Perm t'.held ∧ t.queue.packets port = p :: t'.queue.packets port := by
  cases h with
  | still queue held => exact absurd (held ▸ hbefore) hafter
  | gone before _ after | back before _ _ after =>
    exact absurd (Nat.le_trans (after ▸ length_ofPort_held_le port before) hbefore) hafter
  | @next ahead behind p before queue after offered =>
    obtain ⟨w, hw⟩ := offered
    have hperm : (p :: t.held).Perm t'.held := by
      rw [before, after]
      exact List.perm_middle.symm
    by_cases hport : p.port = port
    · subst hport
      have hlength := (hperm.filter fun x => x.port = p.port).length_eq
      rw [List.filter_cons_of_pos (by simp)] at hlength
      have hone : (ofPort p.port t.held).length = 1 := by
        simp only [ofPort, List.length_cons] at *
        omega
      obtain ⟨y, hy⟩ := List.length_eq_one_iff.1 hone
      exact ⟨w, y, p, rfl, hw, rfl, hy, hperm, (hq.packets_popNext queue).1⟩
    · rw [after, ofPort_held_of_other hport, ← before] at hafter
      exact absurd hbefore hafter

/-! ## Runs -/

namespace Custody

/-- What was accepted for a port has left, or it stands in line behind what has left.  The link has
taken the packets of the port in this order. -/
structure InLine (port : UInt8) (c : Custody) : Prop where
  order : c.transmitter.queue.order = .transmit
  consistent : c.transmitter.queue.Consistent
  line : ∃ settled, ofPort port c.accepted = settled ++ c.transmitter.line port ∧
    (ofPort port c.delivered).Sublist settled

/-- The link has taken packets of a port in the order in which they were accepted, each one at most once. -/
def InOrder (port : UInt8) (c : Custody) : Prop :=
  (ofPort port c.delivered).Sublist (ofPort port c.accepted)

/-- At every moment of a run a port is in line, and it stays so if the link takes a packet that it is offered
then.  The link has taken the packets of the port in their order. -/
def KeepsLine (config : Config) (acts : List Act) (port : UInt8) : Prop :=
  ∀ before later, acts = before ++ later →
    (after config before).InLine port ∧ (after config before).InOrder port ∧
      ∀ w, ((after config before).act (.settle w (.ok ()))).InLine port

/-- At every moment of a run one worker at most has a packet of a port in its hands. -/
def OneByOne (config : Config) (acts : List Act) (port : UInt8) : Prop :=
  ∀ before later, acts = before ++ later →
    (ofPort port (after config before).transmitter.held).length ≤ 1

/-- Fewer packets of a port than half of all numbers ever wait in the queue. -/
def FewWait (config : Config) (acts : List Act) (port : UInt8) : Prop :=
  ∀ before later, acts = before ++ later →
    ((after config before).transmitter.queue.packets port).length < Serial.half UInt16

variable {config : Config} {acts more : List Act} {c : Custody}

theorem OneByOne.of_append (h : OneByOne config (acts ++ more) port) : OneByOne config acts port :=
  fun before later he => h before (later ++ more) (by rw [he, List.append_assoc])

theorem FewWait.of_append (h : FewWait config (acts ++ more) port) : FewWait config acts port :=
  fun before later he => h before (later ++ more) (by rw [he, List.append_assoc])

theorem KeepsLine.of_append (h : KeepsLine config (acts ++ more) port) : KeepsLine config acts port :=
  fun before later he => h before (later ++ more) (by rw [he, List.append_assoc])

theorem InLine.act (h : c.InLine port) (a : Act) (hrow : Consecutive port (c.act a).accepted)
    (hfew : (c.transmitter.queue.packets port).length < Serial.half UInt16)
    (hbefore : (ofPort port c.transmitter.held).length ≤ 1)
    (hafter : (ofPort port (c.act a).transmitter.held).length ≤ 1) : (c.act a).InLine port := by
  refine ⟨(order_apply _ a).trans h.order, consistent_apply h.consistent a, ?_⟩
  obtain ⟨settled, hline, hsub⟩ := h.line
  obtain ⟨first, last, hrow⟩ := hrow
  have haccepted : ofPort port (c.act a).accepted =
      settled ++ (c.transmitter.line port ++ ofPort port (c.transmitter.accepts a)) := by
    rw [← List.append_assoc, ← hline]
    exact ofPort_append _ _ _
  have hdelivered : ofPort port (c.act a).delivered =
      ofPort port c.delivered ++ ofPort port (c.transmitter.delivers a) := ofPort_append _ _ _
  rw [haccepted, List.map_append] at hrow
  obtain ⟨_, -, hrow⟩ := hrow.of_append
  show ∃ settled, _ = settled ++ (c.transmitter.apply a).line port ∧ _
  rw [haccepted, hdelivered]
  by_cases ha : a.Idle
  · rw [accepts_of_idle ha, show ofPort port [] = [] from rfl, List.append_nil] at hrow ⊢
    have hturn := (turns_of_idle c.transmitter ha).line h.order h.consistent hrow hfew hbefore hafter
    have htaken : (c.transmitter.delivers a).Sublist (c.transmitter.leaving a) :=
      List.sublist_append_left _ _
    exact ⟨settled ++ ofPort port (c.transmitter.leaving a), by rw [hturn, List.append_assoc],
      hsub.append (htaken.filter _)⟩
  · have hnone : c.transmitter.delivers a = [] :=
      (List.append_eq_nil_iff.1 (apply_of_not_idle ha).2).1
    rw [line_of_not_idle ha h.order hrow, hnone]
    exact ⟨settled, rfl, (List.append_nil _).symm ▸ hsub⟩

/-- What the link takes leaves the hands of a worker, and nothing else changes. -/
theorem act_settle_ok {w : Nat} {p : Packet} (hp : c.transmitter.offeredBy w = some p) :
    (c.act (.settle w (.ok ()))).accepted = c.accepted ∧
      (c.act (.settle w (.ok ()))).delivered = c.delivered ++ [p] ∧
      (c.act (.settle w (.ok ()))).transmitter.queue = c.transmitter.queue ∧
      c.transmitter.held.Perm (p :: (c.act (.settle w (.ok ()))).transmitter.held) := by
  have hw := offeredBy_eq_some_iff.1 hp
  obtain ⟨ahead, behind, hbefore, hafter⟩ := held_turn hw
  have hsettled : c.transmitter.settle w (.ok ()) = c.transmitter.turn w .going := by
    unfold settle
    rw [hw]
  refine ⟨List.append_nil _, ?_, ?_, ?_⟩
  · show c.delivered ++ (c.transmitter.offeredBy w).toList = _
    rw [hp]
    rfl
  · show (c.transmitter.settle w (.ok ())).queue = _
    rw [hsettled]
    rfl
  · show c.transmitter.held.Perm (p :: (c.transmitter.settle w (.ok ())).held)
    rw [hsettled, hafter, hbefore]
    exact List.perm_middle

/-- As soon as a second worker has a packet of the port in its hands, the port gets out of line if the link
takes that packet first. -/
theorem InLine.length_held_le (h : c.InLine port) (hrow : Consecutive port c.accepted)
    (hbefore : (ofPort port c.transmitter.held).length ≤ 1)
    (hnext : ∀ w, ((c.act a).act (.settle w (.ok ()))).InLine port) :
    (ofPort port (c.act a).transmitter.held).length ≤ 1 := by
  by_contra hafter
  by_cases ha : a.Idle
  case neg =>
    have hheld : (c.transmitter.apply a).held = c.transmitter.held := by
      rw [(apply_of_not_idle ha).1]
      rfl
    exact hafter (Nat.le_trans (Nat.le_of_eq (by rw [← hheld]; rfl)) hbefore)
  obtain ⟨w, y, p, -, hw, hport, hy, hperm, hpackets⟩ :=
    (turns_of_idle c.transmitter ha).second h.consistent hbefore hafter
  obtain ⟨haccepted, -, hqueue, hgone⟩ := act_settle_ok (c := c.act a) (w := w) (p := p) hw
  -- the first worker is left with its packet, ahead of those in the queue
  have hheld : ofPort port ((c.act a).act (.settle w (.ok ()))).transmitter.held = [y] := by
    have hrest := ((hperm.trans hgone).cons_inv.filter fun x => x.port = port).symm
    exact List.perm_singleton.1 (hrest.trans (.of_eq hy))
  obtain ⟨settled, hline, -⟩ := h.line
  obtain ⟨settled', hline', -⟩ := (hnext w).line
  have hsame : ((c.act a).act (.settle w (.ok ()))).accepted = c.accepted := by
    rw [haccepted]
    show c.accepted ++ c.transmitter.accepts a = _
    rw [accepts_of_idle ha, List.append_nil]
  rw [Transmitter.line, hy, hpackets, List.singleton_append] at hline
  rw [Transmitter.line, hheld, hqueue, List.singleton_append, hsame, hline] at hline'
  have hsplit : settled ++ [y] ++ p :: (c.transmitter.apply a).queue.packets port =
      settled' ++ y :: (c.transmitter.apply a).queue.packets port :=
    (List.append_assoc _ _ _).trans hline'
  obtain ⟨rfl, -⟩ := List.cons_eq_cons.1 (List.append_inj_right' hsplit rfl)
  -- but its packet and the one behind it have different numbers
  obtain ⟨first, last, hrow⟩ := hrow
  rw [hline, List.map_append] at hrow
  obtain ⟨_, -, hrow⟩ := hrow.of_append
  exact hrow.ne_of_cons_cons rfl

/-- If each worker is started after the end of the others, one of them at a time has packets. -/
theorem oneByOne_of_started_alone
    (h : ∀ before later, acts = before ++ .start :: later →
      (after config before).transmitter.attached = false →
      (after config before).transmitter.busy = false) (port : UInt8) :
    OneByOne config acts port := by
  have halone : ∀ before later, acts = before ++ later → (after config before).transmitter.Alone := by
    intro before
    induction before using List.reverseRecOn with
    | nil => exact fun _ _ => alone_new config
    | append_singleton before a ih =>
      intro later he
      rw [List.append_assoc, List.singleton_append] at he
      rw [after_concat]
      exact (ih _ he).apply fun ha => h before later (ha ▸ he)
  intro before later he
  exact Nat.le_trans (List.length_filter_le _ _) (halone before later he).length_held_le

end Custody

end NarrowLink.Transmitter

import Mathlib.Data.List.Induction
import NarrowLink.Proofs.Transmitter.Turns

/-!
# Where an accepted packet is

A packet that a transmitter has accepted is in its queue, in the hands of a worker, taken by the link, or
dropped because the link can not send it.  `Custody` follows a transmitter and notes what it has
accepted and what the link has said.  There is one way for a packet to get lost: the link refuses it
because it is down, and meanwhile others have filled the room that it left in the queue.  A run keeps
all packets exactly if this never happens (`keepsAll_iff`), however many workers are at work.
-/

namespace NarrowLink.Transmitter

open Wire

/-- A transmitter, and what has become of packets. -/
structure Custody where
  transmitter : Transmitter
  accepted : List Packet := []
  /-- The packets that the link has taken. -/
  delivered : List Packet := []
  /-- The packets that the link could not send. -/
  dropped : List Packet := []
  /-- The packets that were refused because the link was down, and found no room in the queue. -/
  lost : List Packet := []

namespace Custody

/-- One more act. -/
def act (c : Custody) (a : Act) : Custody where
  transmitter := c.transmitter.apply a
  accepted := c.accepted ++ c.transmitter.accepts a
  delivered := c.delivered ++ c.transmitter.delivers a
  dropped := c.dropped ++ c.transmitter.drops a
  lost := c.lost ++ c.transmitter.loses a

/-- A new transmitter after a run of acts. -/
def after (config : Config) (acts : List Act) : Custody := acts.foldl act ⟨.new config, [], [], [], []⟩

/-- Every accepted packet is in exactly one place: in the queue, in the hands of a worker, taken by the
link, or dropped because the link could not send it. -/
def Complete (c : Custody) : Prop :=
  c.accepted.Perm (c.transmitter.queue.stored ++ c.transmitter.held ++ (c.delivered ++ c.dropped))

/-- At every moment of a run each accepted packet is in exactly one place, and what a worker puts back
because the link has refused it is in the queue again. -/
def KeepsAll (config : Config) (acts : List Act) : Prop :=
  (∀ before later, acts = before ++ later → (after config before).Complete) ∧
  ∀ before w p later, acts = before ++ .step w :: later →
    (after config before).transmitter.refusedTo w = some p →
    p ∈ ((after config before).transmitter.step w).queue.stored

/-- Whatever a worker puts back because the link has refused it finds room in the queue. -/
def HasRoom (config : Config) (acts : List Act) : Prop :=
  ∀ before w p later, acts = before ++ .step w :: later →
    (after config before).transmitter.refusedTo w = some p →
    (after config before).transmitter.queue.used + p.wireLength ≤
      (after config before).transmitter.queue.capacity

variable {config : Config} {acts more : List Act}

theorem HasRoom.of_append (h : HasRoom config (acts ++ more)) : HasRoom config acts :=
  fun before w p later he => h before w p (later ++ more) (by rw [he]; simp)

theorem after_concat (config : Config) (acts : List Act) (a : Act) :
    after config (acts ++ [a]) = (after config acts).act a := by
  rw [after, List.foldl_concat, after]

/-- Every accepted packet is in exactly one place, or lost. -/
theorem accepted_perm (config : Config) (acts : List Act) :
    (after config acts).accepted.Perm ((after config acts).transmitter.stock ++
      ((after config acts).delivered ++ ((after config acts).dropped ++ (after config acts).lost))) := by
  induction acts using List.reverseRecOn with
  | nil =>
    show [].Perm ((Queue.empty .transmit config.queueCapacity).stored ++ [] ++ [])
    rw [Queue.stored_empty]
    exact .refl _
  | append_singleton acts a ih =>
    rw [after_concat]
    generalize after config acts = c at ih ⊢
    show (c.accepted ++ c.transmitter.accepts a).Perm ((c.transmitter.apply a).stock ++
      ((c.delivered ++ c.transmitter.delivers a) ++
        ((c.dropped ++ c.transmitter.drops a) ++ (c.lost ++ c.transmitter.loses a))))
    refine (perm_turnover ih (c.transmitter.stock_apply a)).trans (.append_left _ ?_)
    refine (perm_append_append _ _ _ _).trans (.append_left _ ?_)
    exact perm_append_append _ _ _ _

theorem complete_iff (config : Config) (acts : List Act) :
    (after config acts).Complete ↔ (after config acts).lost = [] := by
  have hall := accepted_perm config acts
  constructor
  · intro h
    have hlen := h.length_eq.symm.trans hall.length_eq
    simp only [stock, List.length_append] at hlen
    exact List.length_eq_zero_iff.1 (by omega)
  · intro h
    rw [h, List.append_nil] at hall
    exact hall

/-- An act loses nothing if what it puts back finds room. -/
theorem loses_eq_nil {t : Transmitter} {a : Act}
    (h : ∀ w p, a = .step w → t.refusedTo w = some p →
      t.queue.used + p.wireLength ≤ t.queue.capacity) : t.loses a = [] := by
  unfold loses
  split
  · rename_i w
    cases hp : t.refusedTo w with
    | none => rfl
    | some p =>
      have := h w p rfl hp
      rw [Option.toList_some, List.filter_cons_of_neg (by simpa [Queue.fits] using this)]
      rfl
  · rfl

theorem HasRoom.lost_eq_nil (h : HasRoom config acts) : (after config acts).lost = [] := by
  induction acts using List.reverseRecOn with
  | nil => rfl
  | append_singleton acts a ih =>
    rw [after_concat]
    show (after config acts).lost ++ (after config acts).transmitter.loses a = []
    rw [ih h.of_append, loses_eq_nil fun w p ha => h acts w p [] (by rw [ha])]
    rfl

/-- A packet that finds room is in the queue again. -/
theorem mem_stored_step {t : Transmitter} {w : Nat} {p : Packet} (h : t.refusedTo w = some p)
    (hroom : t.queue.used + p.wireLength ≤ t.queue.capacity) : p ∈ (t.step w).queue.stored := by
  have hfits : t.queue.fits p.wireLength = true := decide_eq_true hroom
  unfold step
  rw [refusedTo_eq_some_iff.1 h]
  simp only [submit, Queue.push]
  rw [if_pos hfits]
  exact (Queue.stored_add _ _).mem_iff.2 List.mem_cons_self

/-- A run keeps every packet that is accepted exactly if whatever a worker puts back because the link has
refused it finds room in the queue. -/
theorem keepsAll_iff (config : Config) (acts : List Act) :
    KeepsAll config acts ↔ HasRoom config acts := by
  constructor
  · rintro ⟨hcomplete, -⟩ before w p later he hp
    by_contra hfull
    have hlost := (complete_iff config (before ++ [.step w])).1
      (hcomplete _ later (by rw [he]; simp))
    rw [after_concat] at hlost
    have hnil : (after config before).transmitter.loses (.step w) = [] :=
      (List.append_eq_nil_iff.1 hlost).2
    rw [loses, hp, Option.toList_some,
      List.filter_cons_of_pos (by simpa [Queue.fits] using Nat.lt_of_not_le hfull)] at hnil
    cases hnil
  · intro h
    refine ⟨fun before later he => ?_, fun before w p later he hp => ?_⟩
    · subst he
      exact (complete_iff config before).2 h.of_append.lost_eq_nil
    · exact mem_stored_step hp (h before w p later he hp)

/-- With room for one packet, a second one takes the place of the one that is offered, which is lost
when the link turns out to be down. -/
theorem not_keepsAll_of_filled_queue :
    ({ mtu := 14, queueCapacity := 14 } : Config).validate = .ok () ∧
      ¬ KeepsAll { mtu := 14, queueCapacity := 14 }
        [.start, .submit ⟨{ kind := .datagram, dst := 3, src := 1, seq := 1 }, [112, 97], 2⟩,
          .step 0, .step 0,
          .submit ⟨{ kind := .datagram, dst := 4, src := 1, seq := 1 }, [112, 98], 2⟩,
          .settle 0 (.error .unavailable), .step 0] := by
  refine ⟨by decide, fun h => ?_⟩
  have hlost := (complete_iff _ _).1 (h.1 _ [] (List.append_nil _).symm)
  revert hlost
  decide +kernel

end Custody

end NarrowLink.Transmitter

import NarrowLink.Proofs.Transmitter.Turns

/-!
# A worker that is ready for packets

A transmitter takes packets if there is room for them, and refuses them if there is none.  While the link is
up, a worker offers what is queued, one packet after the other (`Ready.offer`), and is ready for the next
one as soon as the link has taken it (`Ready.serve`).
-/

namespace NarrowLink.Transmitter

open Wire

variable {t : Transmitter} {ps : List Packet} {p : Packet} {q : Queue}

theorem submitAll_of_fits (h : t.queue.used + wireLengths ps ≤ t.queue.capacity) :
    t.submitAll ps = (.ok (), { t with queue := ps.foldl Queue.add t.queue }) := by
  unfold submitAll Queue.pushAll Queue.fits
  rw [if_pos (decide_eq_true h)]

theorem submitAll_of_not_fits (h : ¬ t.queue.used + wireLengths ps ≤ t.queue.capacity) :
    t.submitAll ps = (.error .queueFull, t) := by
  unfold submitAll Queue.pushAll Queue.fits
  rw [decide_eq_false h, if_neg Bool.false_ne_true]

/-- The only worker is ready for packets, and offers them to the link as they come. -/
structure Ready (t : Transmitter) : Prop where
  active : t.active = true
  linkUp : t.linkUp = true
  workers : t.workers = [.going]
  order : t.queue.order = .transmit
  consistent : t.queue.Consistent

theorem ready_start (config : Config) : (new config).start.Ready where
  active := rfl
  linkUp := rfl
  workers := rfl
  order := rfl
  consistent := Queue.consistent_of_empty

/-- More packets in the queue make no difference to the worker. -/
theorem Ready.queued (h : t.Ready) (ps : List Packet) :
    ({ t with queue := ps.foldl Queue.add t.queue } : Transmitter).Ready where
  active := h.active
  linkUp := h.linkUp
  workers := h.workers
  order := (Queue.order_foldl_add t.queue ps).trans h.order
  consistent := h.consistent.foldl_add ps

/-- The worker sees that there is a packet, and offers it. -/
theorem Ready.offer (h : t.Ready) (hpop : t.queue.popNext = some (p, q)) :
    (t.step 0).step 0 = { t with activity := .running, queue := q, workers := [.offering p] } := by
  have hsome : t.queue.isEmpty = false := by
    unfold Queue.popNext at hpop
    unfold Queue.isEmpty
    split at hpop
    · cases hpop
    · rename_i hready
      rw [hready]
      rfl
  have hlook : t.step 0 = { t with activity := .running, workers := [.taking] } := by
    unfold step turn
    simp [h.workers, h.active, h.linkUp, hsome]
  rw [hlook]
  unfold step turn
  simp [hpop]

/-- The link takes the packet that is offered. -/
theorem Ready.serve (h : t.Ready) (hpop : t.queue.popNext = some (p, q)) :
    (((t.step 0).step 0).settle 0 (.ok ())).Ready ∧
      (((t.step 0).step 0).settle 0 (.ok ())).queue = q := by
  rw [h.offer hpop]
  exact ⟨⟨h.active, h.linkUp, rfl, (Queue.order_popNext hpop).trans h.order,
    h.consistent.popNext hpop⟩, rfl⟩

end NarrowLink.Transmitter

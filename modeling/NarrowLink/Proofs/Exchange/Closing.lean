import NarrowLink.Proofs.Exchange.Delivery

/-!
# An orderly close loses nothing

An end that asked for a close and gets the answer can rely on its peer having handed out everything that
it was asked to send (`handed_of_closes`).  The peer answers when it passes the packet that closes, and
so it has passed everything before, while it was not disconnected yet (`passed_after`).
-/

namespace NarrowLink.Connection

open Wire

variable {t : Terms} {x : Role} {e e' : Exchange} {g g' : Ledger} {gs gs' : Role → Ledger}
  {ls ls' : Role → List Parcel}

/-! ## The packet that closes -/

/-- What was given a number before the packet that closes stays before it. -/
theorem Tidy.bulk_le_of_append (h : Tidy t x g) (h' : Tidy t x g') {more : List Packet}
    (hsent : g'.sent = g.sent ++ more) : g.bulk ≤ g'.bulk := by
  by_contra hlt
  have hle := h.bulk_le
  obtain ⟨q, hq⟩ : ∃ q, g.sent[g'.bulk]? = some q := ⟨_, List.getElem?_eq_getElem (by omega)⟩
  have hq' : g'.sent[g'.bulk]? = some q := by
    rw [hsent, List.getElem?_append_left (by omega), hq]
  have hpos := h'.bulk_pos fun hnil => by
    rw [hnil] at hq'
    cases hq'
  -- it would carry data and close at once
  have hflags := (h.sent_shape _ q hq).2.1
  have hflags' := (h'.sent_shape _ q hq').2.1
  unfold flagsOf at hflags hflags'
  rw [if_neg (by omega), if_pos (by omega)] at hflags
  rw [if_neg (by omega), if_neg (by omega), hflags] at hflags'
  cases hflags'

/-- The end has passed the packet with which its peer closes. -/
def Passed (gs : Role → Ledger) (x : Role) : Prop :=
  (gs x.peer).sent.length = (gs x.peer).bulk + 1 ∧ (gs x.peer).bulk < (gs x).intake.reached

/-- When an end passes the packet that closes, it is not disconnected yet and has passed everything
before, and nothing is sent after it. -/
theorem InOrder.passed (h : InOrder t x e gs ls) (h' : InOrder t x e' gs' ls')
    (hp : Proceeds t x gs gs') (hpassed : Passed gs' x) :
    (gs' x.peer).pieces = (gs x.peer).pieces ∧
      (Passed gs x ∨ (gs x).alive = true ∧ (gs x).intake.reached = (gs x.peer).bulk) := by
  have hs := (h.accounts.stands x).sound
  have hs' := (h'.accounts.stands x).sound
  obtain ⟨hclosed, hlt⟩ := hpassed
  cases hp with
  | sends hself more hsent =>
    have hle := hs.tidy_peer.bulk_le_of_append hs'.tidy_peer hsent
    have hreached := hs.flow_peer.reached_le_gone
    have hgone := hs.tidy_peer.gone_le
    have hlen := hs.tidy_peer.le_bulk
    have hlength : (gs' x.peer).sent.length = (gs x.peer).sent.length + more.length := by
      rw [hsent, List.length_append]
    rw [hself] at hlt
    have hbulk : (gs' x.peer).bulk = (gs x.peer).bulk := by omega
    have hnil : more = [] := List.eq_nil_of_length_eq_zero (by omega)
    subst hnil
    rw [List.append_nil] at hsent
    refine ⟨?_, .inl ⟨by omega, by omega⟩⟩
    unfold Ledger.pieces
    rw [hsent, hbulk]
  | takes hpeer s s' hin =>
    rw [hpeer] at hclosed hlt ⊢
    refine ⟨rfl, ?_⟩
    cases hin with
    | none hi | woken hi | dropped hi =>
      rw [hi] at hlt
      exact .inl ⟨hclosed, hlt⟩
    | data _ _ _ _ ha' =>
      have hbulk := Intake.reached_le_of_took (hs'.flow_peer.took_bulk ha')
      rw [hpeer] at hbulk
      omega
    | opening _ _ hi' =>
      have hpos := hs.tidy_peer.bulk_pos fun hnil => by
        rw [hnil] at hclosed
        cases hclosed
      omega
    | closing ha hi => exact .inr ⟨ha, hi⟩

/-! ## Every run -/

/-- If an end has passed the packet that closes, then there was a time when it was not disconnected and
had handed out everything. -/
theorem passed_after (hvalid : t.config.Valid) (htame : ∀ y, t.Tame y) {acts : List Act}
    (hhands : ∀ a ∈ acts, a.HandsOut x) :
    ∃ gs ls, InOrder t x (t.start.after acts) gs ls ∧ (Passed gs x →
      ∃ before after, acts = before ++ after ∧
        ((t.start.after before).ends x).session.isWaiting = true ∧
        ((t.start.after before).ends x).handed = (gs x.peer).pieces) := by
  induction acts using List.reverseRecOn with
  | nil =>
    refine ⟨_, _, inOrder_start t x, fun hpassed => ?_⟩
    cases hpassed.1
  | append_singleton acts a ih =>
    obtain ⟨gs, ls, h, hhistory⟩ := ih fun b hb => hhands b (List.mem_append_left _ hb)
    obtain ⟨gs', ls', h', hproceeds⟩ := h.apply hvalid htame (hhands a (by simp))
    rw [Exchange.after_concat]
    refine ⟨gs', ls', h', fun hpassed => ?_⟩
    obtain ⟨hpieces, hold | ⟨halive, hreached⟩⟩ := h.passed h' hproceeds hpassed
    · obtain ⟨before, after, rfl, hwaiting, hhanded⟩ := hhistory hold
      exact ⟨before, after ++ [a], by simp, hwaiting, hhanded.trans hpieces.symm⟩
    · refine ⟨acts, [a], rfl, (h.accounts.phase x).alive.trans halive, ?_⟩
      have hlength := (gs x.peer).length_pieces_le
      rw [h.upToDate.handed, hreached, List.take_of_length_le hlength, hpieces]

/-- By what happens, an end that waits for the answer to its request to close gets it, and its
connection ends. -/
structure Exchange.Closes (e : Exchange) (x : Role) (a : Act) : Prop where
  waits : (e.ends x).session.state = .disconnecting
  ended : ((e.apply a).ends x).session.state = .disconnected
  answered : ∃ hands now p rest, a = .deliver x hands now ∧ e.link x = p :: rest ∧
    p.header.flags.fin = true ∧ p.header.flags.ack = true

/-- A packet that answers a request to close is on the way only after its end has passed the request. -/
theorem InOrder.passed_of_parting (h : InOrder t x e gs ls) {p : Packet} (hp : p ∈ e.link x.peer)
    (hfin : p.header.flags.fin = true) (hack : p.header.flags.ack = true) : Passed gs x := by
  have hs := (h.accounts.stands x).sound
  rw [h.accounts.link x.peer] at hp
  obtain ⟨q, hq, rfl⟩ := List.mem_map.1 hp
  have hfits := hs.flow.out_fits q hq
  have hparts : q.Parts := by
    by_cases hc : q.Counts
    · -- no packet that is given a number closes and acknowledges
      exfalso
      obtain ⟨r, hr, hflags, -⟩ := hfits.copy hc
      rw [(hs.tidy.sent_shape _ r hr).2.1] at hflags
      rw [hflags] at hfin hack
      unfold flagsOf at hfin hack
      split at hfin
      · cases x <;> cases hfin
      split at hfin
      · cases hfin
      · rename_i h0 hb
        rw [if_neg h0, if_neg hb] at hack
        cases hack
    · rcases hfits.control hc with hf | hf | hf | hf
      · rw [hf] at hfin
        cases hfin
      · rw [hf] at hfin
        cases hfin
      · exact hf
      · rw [hf] at hfin
        cases hfin
  obtain ⟨hclosed, hlt⟩ := hs.flow_peer.back_parts q hq hparts
  have hpast := (hs.flow_peer.back_past q hq).1
  have hreached := Intake.reached_le (hs.flow_peer.latest _ hpast)
    (hs.flow_peer.valid _ hs.flow_peer.current)
  exact ⟨hclosed, Nat.lt_of_lt_of_le hlt hreached⟩

/-- Whatever the link loses, when an end gets the answer to its request to close, its peer has handed out
everything that the end was ever asked to send, in order, before the peer was disconnected. -/
theorem handed_of_closes (hvalid : t.config.Valid) (hwindow : t.config.window ≤ 64) (x : Role)
    (acts : List Act) (hhands : ∀ a ∈ acts, a.HandsOut x) {a : Act}
    (h : (t.start.after acts).Closes x.peer a) : ∃ before after, acts = before ++ after ∧
      ((t.start.after before).ends x).session.state ≠ .disconnected ∧
      ((t.start.after before).ends x).handed = ((t.start.after acts).ends x.peer).accepted := by
  obtain ⟨gs, ls, hord, hhistory⟩ := passed_after hvalid (Terms.tame_of_window hwindow) hhands
  obtain ⟨hands, now, p, rest, -, hlink, hfin, hack⟩ := h.answered
  obtain ⟨before, after, hacts, hwaiting, hhanded⟩ :=
    hhistory (hord.passed_of_parting (hlink ▸ List.mem_cons_self) hfin hack)
  refine ⟨before, after, hacts, fun hstate => ?_, hhanded.trans hord.accepted.symm⟩
  unfold Session.isWaiting at hwaiting
  rw [hstate] at hwaiting
  cases hwaiting

/-- A message is sent and the connection closed, and all of it arrives. -/
def parting : List Act :=
  handshake ++ messages 1 ++ [.close .initiator 0, .take .initiator, .deliver .responder true 0,
    .deliver .responder true 0, .take .responder, .deliver .initiator true 0]

theorem closes_parting :
    ((Terms.withWindow 64 true).start.after parting).Closes .initiator (.deliver .initiator true 0) := by
  have hlink : (((Terms.withWindow 64 true).start.after parting).link .initiator).length = 1 ∧
      ∀ p ∈ ((Terms.withWindow 64 true).start.after parting).link .initiator,
        p.header.flags.fin = true ∧ p.header.flags.ack = true := by
    decide +kernel
  obtain ⟨p, hp⟩ := List.length_eq_one_iff.1 hlink.1
  obtain ⟨hfin, hack⟩ := hlink.2 p (hp ▸ List.mem_cons_self)
  exact ⟨by decide +kernel, by decide +kernel, true, 0, p, [], rfl, hp, hfin, hack⟩

theorem handed_of_closes_of_parting :
    (((Terms.withWindow 64 true).start.after parting).ends .initiator).accepted =
        [Piece.of message] ∧
      ∃ before after, parting = before ++ after ∧
        (((Terms.withWindow 64 true).start.after before).ends .responder).session.state ≠
          .disconnected ∧
        (((Terms.withWindow 64 true).start.after before).ends .responder).handed =
          (((Terms.withWindow 64 true).start.after parting).ends Role.responder.peer).accepted := by
  have hhands : ∀ a ∈ parting, a.HandsOut .responder := by
    intro a ha hands now heq
    subst heq
    have : hands = true ∧ now = 0 := by simpa [parting, handshake, messages] using ha
    exact this.1
  refine ⟨by decide +kernel, ?_⟩
  exact handed_of_closes (valid_withWindow (by decide) (by decide) true) (Nat.le_refl 64) .responder
    parting hhands closes_parting

end NarrowLink.Connection

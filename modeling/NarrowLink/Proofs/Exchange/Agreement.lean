import NarrowLink.Proofs.Exchange.Outrunning
import NarrowLink.Proofs.Exchange.Quiet
import NarrowLink.Proofs.Session.TakesNothing

/-!
# When the windows of both ends agree

For which windows and options no end ever runs ahead of the window of its peer, and for which no data is
ever refused for lying outside of it (`windows_agree_iff`).  With the largest window
nothing is refused: data that lies outside of it is taken for old.
-/

namespace NarrowLink.Connection

open Wire

/-- No data is refused for lying outside of the window, in any connection with this window and these
options that messages go to and fro on. -/
def NeverRefuses (window : Nat) (options : Role → Options) : Prop :=
  ∀ t : Terms, t.config.Valid → t.config.window = window → t.options = options →
    ∀ acts : List Act, (∀ a ∈ acts, a.Transfers) → ∀ x, ¬ (t.start.after acts).Refuses x

/-- No end runs ahead of the window of its peer, in any connection with this window and these options
that messages go to and fro on. -/
def NeverRunsAhead (window : Nat) (options : Role → Options) : Prop :=
  ∀ t : Terms, t.config.Valid → t.config.window = window → t.options = options →
    ∀ acts : List Act, (∀ a ∈ acts, a.Transfers) → ∀ x, ¬ (t.start.after acts).RunsAhead x

/-! ## Sessions keep their window -/

section Config

variable (s : Session) (p : Packet) (now : Nat)

theorem config_receiveData : (s.receiveData p).2.config = s.config := by
  obtain ⟨inbound, early, expected, hasGap, outbound, events, he⟩ := receiveData_fields s p
  rw [he]

theorem config_receiveOpen : (s.receiveOpen p).2.config = s.config := by
  have hack : (if p.header.flags.ack then s.acknowledge p.header.ack else s).config = s.config := by
    split
    · exact (TakesNothing.acknowledge s p.header.ack).config
    · rfl
  unfold Session.receiveOpen Session.refuse
  simp only
  split
  · split
    · exact (TakesNothing.postAck s).config
    · rfl
  split
  · split <;> exact hack
  split
  · exact (TakesNothing.receiveClosing _ p).config.trans hack
  split
  · exact (config_receiveData _ p).trans hack
  · exact hack

theorem config_moveTo (state : State) : (s.moveTo state).config = s.config := by
  obtain ⟨events, he⟩ := moveTo_fields s state
  rw [he]

theorem config_receiveConnecting : (s.receiveConnecting p).2.config = s.config := by
  unfold Session.receiveConnecting Session.refuse
  simp only
  split
  · split
    · rfl
    split
    · rfl
    · obtain ⟨early, expected, hasGap, inFlight, oldest, events, he⟩ := welcomed_fields s p
      refine (TakesNothing.postAck (s.welcomed p)).config.trans ?_
      rw [he]
  · split
    · split
      · rfl
      · exact (TakesNothing.post s _).config
    split
    · rfl
    split
    · exact (config_receiveOpen _ p).trans (config_moveTo s _)
    · exact (TakesNothing.acknowledge _ _).config.trans (config_moveTo s _)

theorem config_receive : (s.receive p).2.config = s.config := by
  unfold Session.receive
  split
  · exact config_moveTo _ _
  split
  · exact config_receiveConnecting s p
  · exact config_receiveOpen s p
  · exact config_receiveOpen s p
  · rfl
  · rfl

theorem config_connect : (s.connect now).2.config = s.config := by
  by_cases hst : s.state = .disconnected
  · rcases connect_cases hst now with he | ⟨events, he⟩ <;> rw [he]
  · unfold Session.connect
    rw [if_pos hst]

theorem config_accept : (s.accept p now).2.config = s.config := by
  by_cases hst : s.state = .disconnected
  · rcases accept_cases hst p now rfl with he | ⟨events, he⟩ <;> rw [he]
  · unfold Session.accept
    rw [if_pos hst]

end Config

namespace Exchange

variable (e : Exchange) (x y : Role)

theorem config_update {s : Session} (h : s.config = (e.ends y).session.config) :
    ((e.update y s).ends x).session.config = (e.ends x).session.config := by
  unfold update put
  simp only
  split
  · rename_i hxy
    rw [hxy]
    exact h
  · rfl

theorem config_hand : ((e.hand y).ends x).session.config = (e.ends x).session.config := by
  obtain ⟨q, hq⟩ := fetchInbound_fields (e.ends y).session
  have hupdate := e.config_update x y (s := (e.ends y).session.fetchInbound.2) (by rw [hq])
  rw [← hupdate]
  unfold hand put
  simp only
  split
  · rename_i hxy
    rw [hxy]
  · rfl

/-- Whatever happens, both ends keep their configuration. -/
theorem config_apply (a : Act) :
    ((e.apply a).ends x).session.config = (e.ends x).session.config := by
  cases a with
  | connect now =>
    simp only [apply]
    split
    · rfl
    · exact e.config_update x .initiator (config_connect _ now)
  | send y ps numbers now =>
    have hupdate := e.config_update x y (TakesNothing.send (e.ends y).session ps now
      fun ps => (numberFragments numbers ps, ())).config
    simp only [apply]
    split
    · exact hupdate
    · rw [← hupdate]
      unfold put
      simp only
      split
      · rename_i hxy
        rw [hxy]
      · rfl
  | close y now => exact e.config_update x y (TakesNothing.close _ now).config
  | reset y => exact e.config_update x y (TakesNothing.reset _).config
  | tick y now => exact e.config_update x y (TakesNothing.checkTimers _ now).config
  | take y => exact e.config_update x y (TakesNothing.fetchOutbound _).config
  | lose y => rfl
  | deliver y hands now =>
    simp only [apply]
    split
    · rfl
    · rename_i p ps _
      have harrive : (((e.relink y ps).arrive y p now).ends x).session.config =
          (e.ends x).session.config := by
        refine (e.relink y ps).config_update x y ?_
        unfold reacted
        simp only
        split
        · exact config_accept _ p now
        · exact config_receive _ p
      split
      · exact (config_hand _ x y).trans harrive
      · exact harrive

theorem config_after (acts : List Act) :
    ((e.after acts).ends x).session.config = (e.ends x).session.config := by
  induction acts generalizing e with
  | nil => rfl
  | cons a acts ih => exact (ih (e.apply a)).trans (e.config_apply x a)

end Exchange

/-! ## The windows that agree -/

/-- With the largest window, all data seems to be old or lies in the window. -/
theorem not_refuses_of_full_window {t : Terms} (hwindow : t.config.window = 128) (acts : List Act)
    (x : Role) : ¬ (t.start.after acts).Refuses x := by
  rintro ⟨p, ps, relSeq, expected, -, hrefused⟩
  obtain ⟨-, hfar, hahead⟩ := excludes_of_receive hrefused
  have hconfig : ((t.start.after acts).ends x).session.config = t.config :=
    t.start.config_after x acts
  rw [hconfig, hwindow] at hfar
  rw [Serial.precedes, decide_eq_false_iff_not] at hahead
  exact hahead hfar

theorem valid_withOptions {window : Nat} (hpos : 0 < window) (hle : window ≤ 128)
    (options : Role → Options) : (Terms.withOptions window options).config.Valid :=
  valid_withWindow hpos hle false

theorem neverRefuses_iff (window : Nat) (options : Role → Options) : NeverRefuses window options ↔
    ¬ (1 < window ∧ window < 128 ∧ ∃ x, (options x).selectiveAck = true) := by
  constructor
  · rintro h ⟨hlow, hhigh, x, hselective⟩
    rw [← x.peer_peer] at hselective
    exact h _ (valid_withOptions (by omega) (by omega) options) rfl rfl _ (transfers_outrun x.peer window)
      _ ((runsAhead_of_reports hlow (by omega) hselective).2 hhigh)
  · rintro hnot t hvalid rfl rfl acts hacts x
    have hle := hvalid.window_le
    by_cases hfull : t.config.window = 128
    · exact not_refuses_of_full_window hfull acts x
    refine not_refuses_after hvalid (by omega) (fun y => ?_) hacts x
    have := hvalid.window_pos
    by_cases hone : t.config.window = 1
    · exact .inl hone
    · exact .inr (Bool.eq_false_iff.2 fun hs => hnot ⟨by omega, by omega, y.peer, hs⟩)

theorem neverRunsAhead_iff (window : Nat) (options : Role → Options) :
    NeverRunsAhead window options ↔
      ¬ ((1 < window ∧ window ≤ 128 ∧ ∃ x, (options x).selectiveAck = true) ∨
        (window = 128 ∧ ∃ x, (options x).retransmit = true)) := by
  constructor
  · intro h hor
    by_cases hreports : 1 < window ∧ window ≤ 128 ∧ ∃ x, (options x).selectiveAck = true
    · obtain ⟨hlow, hhigh, x, hselective⟩ := hreports
      rw [← x.peer_peer] at hselective
      exact h _ (valid_withOptions (by omega) hhigh options) rfl rfl _ (transfers_outrun x.peer window)
        _ (runsAhead_of_reports hlow hhigh hselective).1
    · obtain ⟨rfl, hretransmits⟩ := hor.resolve_left hreports
      have hplain : ∀ y, (options y).selectiveAck = false := fun y =>
        Bool.eq_false_iff.2 fun hs => hreports ⟨by decide, by decide, y, hs⟩
      obtain ⟨x, hx⟩ := runsAhead_of_retransmits hplain hretransmits
      exact h _ (valid_withOptions (by decide) (by decide) options) rfl rfl _ (transfers_outdated x) x hx
  · rintro hnot t hvalid rfl rfl acts hacts x
    have hle := hvalid.window_le
    have hpos := hvalid.window_pos
    have hplain : t.config.window = 1 ∨ ∀ y, (t.options y).selectiveAck = false := by
      refine or_iff_not_imp_left.2 fun hone y => Bool.eq_false_iff.2 fun hs => ?_
      exact hnot (.inl ⟨by omega, hle, y, hs⟩)
    by_cases hfull : t.config.window = 128
    · refine not_runsAhead_of_quiet hvalid (fun y => ⟨?_, ?_⟩) hacts x
      · exact Bool.eq_false_iff.2 fun hs => hnot (.inr ⟨hfull, y, hs⟩)
      · exact hplain.resolve_left (by omega) y
    · exact not_runsAhead_after hvalid (by omega) (fun y => hplain.imp id fun h => h y.peer) hacts x

/-- Data is refused exactly if the window is larger than one packet, and smaller than the largest one, and
an end reports gaps.  With the largest window an end also runs ahead, and also if the ends only send
again. -/
theorem windows_agree_iff (window : Nat) (options : Role → Options) :
    (NeverRefuses window options ↔
      ¬ (1 < window ∧ window < 128 ∧ ∃ x, (options x).selectiveAck = true)) ∧
    (NeverRunsAhead window options ↔
      ¬ ((1 < window ∧ window ≤ 128 ∧ ∃ x, (options x).selectiveAck = true) ∨
        (window = 128 ∧ ∃ x, (options x).retransmit = true))) :=
  ⟨neverRefuses_iff window options, neverRunsAhead_iff window options⟩

/-- A report makes an end run ahead of its peer with a window of two packets already. -/
theorem refuses_of_outrun : (Terms.withReporter 2 (some .responder)).config.Valid ∧
    (∀ a ∈ handshake ++ outrun .initiator 2, a.Transfers) ∧
    ((Terms.withReporter 2 (some .responder)).start.after
      (handshake ++ outrun .initiator 2)).Refuses .responder ∧
    ((Terms.withReporter 2 (some .responder)).start.after
      (handshake ++ outrun .initiator 2)).RunsAhead .initiator := by
  have hselective : ((Terms.withReporter 2 (some .responder)).options
      Role.initiator.peer).selectiveAck = true := rfl
  obtain ⟨hahead, hrefused⟩ :=
    runsAhead_of_reports (show 1 < 2 by decide) (show 2 ≤ 128 by decide) hselective
  exact ⟨valid_withWindow (by decide) (by decide) false, transfers_outrun .initiator 2, hrefused (by decide),
    hahead⟩

end NarrowLink.Connection

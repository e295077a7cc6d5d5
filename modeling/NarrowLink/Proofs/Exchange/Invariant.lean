import Mathlib.Logic.Function.Basic
import NarrowLink.Proofs.Exchange.Sending

/-!
# Books are kept along every run

A connection is accounted for (`Accounts`) when each end stands as its books say, what an observer knows
of the end is what the books say, and what is on the way are the packets of the parcels.  The
connection that has not begun is accounted for, and everything that can happen keeps it so, with the
books of the end to which it happens changed and those of the other end as they were.
-/

namespace NarrowLink.Connection

open Wire

/-- What is known of an end is in its books. -/
structure Kept (e : End) (g : Ledger) : Prop where
  sent : e.sent = g.sent
  reached : e.reached = g.intake.reached
  took : ∀ n, g.intake.took n → e.took n = true

/-- The end has begun, or was asked to. -/
def Exchange.begun (e : Exchange) : Role → Bool
  | .initiator => e.opened
  | .responder => e.created

/-- The books `gs` of the ends and the parcels `ls` on the way account for the connection. -/
structure Accounts (t : Terms) (e : Exchange) (gs : Role → Ledger) (ls : Role → List Parcel) :
    Prop where
  books : ∀ x, Books t x (e.ends x).session (gs x)
  phase : ∀ x, Phase x (e.ends x).session (gs x)
  sound : Sound t .initiator (gs .initiator) (gs .responder) (ls .responder) (ls .initiator)
  kept : ∀ x, Kept (e.ends x) (gs x)
  link : ∀ x, e.link x = (ls x).map Parcel.packet
  fresh : ∀ x, e.begun x = false → (e.ends x).session.Unused ∧ (gs x).Blank

variable {t : Terms} {x : Role} {e e' : Exchange} {gs : Role → Ledger} {ls : Role → List Parcel}
  {s' : Session} {g' : Ledger} {out' : List Parcel}

/-! ## The beginning -/

/-- The books of an end that has not begun. -/
def Ledger.start : Ledger where
  alive := false
  sent := []
  bulk := 0
  flying := []
  known := ⟨0, fun _ => False⟩
  intake := ⟨0, fun _ => False⟩
  past := fun i => i = ⟨0, fun _ => False⟩
  queue := []
  floor := 0
  gone := 0
  told := 0

theorem tidy_start (t : Terms) (x : Role) : Tidy t x .start := by
  constructor <;> simp [Ledger.start]

theorem flow_start (t : Terms) (x : Role) : Flow t x .start .start [] [] := by
  constructor <;> simp [Ledger.start, Intake.le_refl, Intake.Valid, Intake.took]

theorem accounts_start (t : Terms) : Accounts t t.start (fun _ => .start) fun _ => [] where
  books := fun x => {
    config := rfl
    role := rfl
    localPort := rfl
    remotePort := rfl
    options := rfl
    nextSeq := rfl
    expected := rfl
    outbound := Queue.holds_empty _ _
    oldest := fun e => nomatch e
    flights := fun e => nomatch e
    early := fun e => nomatch e }
  phase := fun x => Phase.of_dead rfl (.inl rfl) rfl
  sound := ⟨tidy_start t _, tidy_start t _, flow_start t _, flow_start t _⟩
  kept := fun x => ⟨rfl, rfl, fun n hn => by simp [Ledger.start, Intake.took] at hn⟩
  link := fun x => rfl
  fresh := fun x _ => ⟨⟨rfl, rfl, rfl, rfl⟩, rfl, rfl, fun _ e => e⟩

/-! ## One end changes -/

/-- The two ends alike. -/
theorem Accounts.stands (h : Accounts t e gs ls) (x : Role) :
    Stands t x (e.ends x).session (gs x) (gs x.peer) (ls x.peer) (ls x) := by
  cases x with
  | initiator => exact ⟨h.books _, h.phase _, h.sound⟩
  | responder => exact ⟨h.books _, h.phase _, h.sound.symm⟩

/-- What is seen to be passed is what the books say. -/
theorem Books.reached_observe {en : End} {g : Ledger} (hb : Books t x en.session g)
    (hb' : Books t x s' g') (hreached : en.reached = g.intake.reached)
    (hle : g.intake.reached ≤ g'.intake.reached)
    (hlt : g'.intake.reached < g.intake.reached + 256) :
    (en.observe s').reached = g'.intake.reached := by
  show en.reached + Serial.distance en.session.expected s'.expected = g'.intake.reached
  rw [hreached, hb.expected, hb'.expected,
    Serial.distance_forward _ hle (by simp only [Serial.half]; omega)]
  exact Nat.add_sub_cancel' hle

theorem Kept.observe {en : End} {g gy : Ledger} {out back : List Parcel} (h : Kept en g)
    (hb : Books t x en.session g) (hf : Follows t x en.session s' g g' gy out back)
    (hwindow : t.config.window ≤ 128) : Kept (en.observe s') g' := by
  have hreached : en.reached + Serial.distance en.session.expected s'.expected =
      g'.intake.reached :=
    hb.reached_observe hf.stands.books h.reached hf.reached_le hf.reached_lt
  refine ⟨?_, hreached, fun n hn => ?_⟩
  · rw [hf.sent, ← h.sent]
    rfl
  unfold End.observe
  simp only
  rw [hreached, Bool.or_eq_true, Bool.or_eq_true, Bool.and_eq_true, decide_eq_true_eq,
    decide_eq_true_eq]
  cases ha : g'.alive with
  | false =>
    rcases hf.took ha n hn with hold | hlt
    · exact .inl (.inl (h.took n hold))
    · exact .inl (.inr hlt)
  | true =>
    rcases hn with hlt | hearly
    · exact .inl (.inr hlt)
    · have hvalid := hf.stands.sound.flow_peer.valid _ hf.stands.sound.flow_peer.current n hearly
      refine .inr ⟨by omega, ?_⟩
      rw [hf.stands.books.early ha n (by omega) (by omega)]
      exact hearly

/-- What an end becomes is accounted for together with its peer, which does not change. -/
theorem Accounts.follows (h : Accounts t e gs ls) (e' : Exchange) (accepted handed : List Piece)
    (hf : Follows t x (e.ends x).session s' (gs x) g' (gs x.peer) out' (ls x))
    (hwindow : t.config.window ≤ 128)
    (hends : e'.ends x = { (e.ends x).observe s' with accepted := accepted, handed := handed })
    (hpeer : e'.ends x.peer = e.ends x.peer) (hlink : e'.link x = e.link x)
    (hlink' : e'.link x.peer = out'.map Parcel.packet)
    (hbegun : e'.begun x = false → e.begun x = false ∧ s'.Unused)
    (hbegun' : e'.begun x.peer = false → e.begun x.peer = false) :
    Accounts t e' (Function.update gs x g') (Function.update ls x.peer out') := by
  have hsession : (e'.ends x).session = s' := by rw [hends]; rfl
  have hkept : Kept (e'.ends x) g' := by
    have := (h.kept x).observe (h.books x) hf hwindow
    rw [hends]
    exact ⟨this.sent, this.reached, this.took⟩
  have hs := hf.stands
  have hfresh : e'.begun x = false → s'.Unused ∧ g'.Blank := fun hb =>
    ⟨(hbegun hb).2, hf.blank (h.fresh x (hbegun hb).1).2 (hbegun hb).2⟩
  have hother := fun hb => h.fresh x.peer (hbegun' hb)
  rw [← hsession] at hs hfresh
  rw [← hpeer] at hother
  have hbooks := h.books x.peer
  have hphase := h.phase x.peer
  have hkept' := h.kept x.peer
  have hl := h.link x
  rw [← hpeer] at hbooks hphase hkept'
  rw [← hlink] at hl
  cases x with
  | initiator =>
    exact {
      books := fun y => by cases y; exacts [hs.books, hbooks]
      phase := fun y => by cases y; exacts [hs.phase, hphase]
      sound := hs.sound
      kept := fun y => by cases y; exacts [hkept, hkept']
      link := fun y => by cases y; exacts [hl, hlink']
      fresh := fun y => by cases y; exacts [hfresh, hother] }
  | responder =>
    exact {
      books := fun y => by cases y; exacts [hbooks, hs.books]
      phase := fun y => by cases y; exacts [hphase, hs.phase]
      sound := hs.sound.symm
      kept := fun y => by cases y; exacts [hkept', hkept]
      link := fun y => by cases y; exacts [hlink', hl]
      fresh := fun y => by cases y; exacts [hother, hfresh] }

/-! ## Ends that have not begun -/

theorem Session.Unused.close {s : Session} (h : s.Unused) (now : Nat) : (s.close now).2 = s := by
  unfold Session.close
  rw [h.state]

theorem Session.Unused.reset {s : Session} (h : s.Unused) : s.reset = s := by
  unfold Session.reset
  rw [h.state]

theorem Session.Unused.send {α : Type} {s : Session} (h : s.Unused) (ps : List Packet) (now : Nat)
    (number : List Packet → List Packet × α) : (s.send ps now number).2 = s := by
  unfold Session.send Session.admits
  rw [if_pos (by rw [h.state]; decide)]

theorem Session.Unused.checkTimers {s : Session} (h : s.Unused) (now : Nat) :
    (s.checkTimers now).Unused := by
  have hwait : ∀ s₁ : Session, s₁.Unused → (s₁.options.retransmit && s₁.isWaiting) = false := by
    intro s₁ h₁
    unfold Session.isWaiting
    rw [h₁.state, Bool.and_false]
  unfold Session.checkTimers
  simp only
  split
  · rw [hwait s h, if_neg Bool.false_ne_true]
    exact h
  · obtain ⟨events, he⟩ := raise_fields s (.outboundAvailable s.localPort)
    have h₁ : (s.raise (.outboundAvailable s.localPort)).Unused := by
      rw [he]
      exact { h with }
    rw [hwait _ h₁, if_neg Bool.false_ne_true]
    exact h₁

theorem Session.Unused.receive {s : Session} (h : s.Unused) (p : Packet) : (s.receive p).2.Unused := by
  unfold Session.receive
  split
  · obtain ⟨events, he⟩ := moveTo_fields s.discard .disconnected
    rw [he]
    exact ⟨rfl, h.oldest, h.expected, rfl⟩
  · rw [h.state]
    exact h

/-! ## What can happen -/

/-- What is on the way when the packets on the way to an end are others. -/
theorem Exchange.link_relink (h : ∀ y, e.link y = (ls y).map Parcel.packet) (x : Role)
    (ps : List Parcel) (y : Role) : (e.relink x (ps.map Parcel.packet)).link y =
      (Function.update ls x ps y).map Parcel.packet := by
  unfold Exchange.relink
  simp only
  split
  · rename_i hy
    rw [hy, Function.update_self]
  · rename_i hy
    rw [Function.update_of_ne hy]
    exact h y

/-- A packet leaves the link. -/
theorem Accounts.drop (h : Accounts t e gs ls) (ps : List Parcel) (hps : ps.Sublist (ls x)) :
    Accounts t (e.relink x (ps.map Parcel.packet)) gs (Function.update ls x ps) := by
  have hl := Exchange.link_relink h.link x ps
  have hfresh : ∀ y, (e.relink x (ps.map Parcel.packet)).begun y = false →
      (e.ends y).session.Unused ∧ (gs y).Blank := fun y hb => h.fresh y (by cases y <;> exact hb)
  cases x with
  | initiator => exact { h with sound := h.sound.drop hps, link := hl, fresh := hfresh }
  | responder => exact { h with sound := (h.sound.symm.drop hps).symm, link := hl, fresh := hfresh }

/-- The owner of an end asks it for something, and asks it to send `new` if it asks for that.  The end
puts what it is to send into its books, and takes nothing. -/
structure Acted (t : Terms) (x : Role) (e e' : Exchange) (gs : Role → Ledger)
    (ls : Role → List Parcel) (g' : Ledger) (new : List Piece) : Prop where
  accounts : Accounts t e' (Function.update gs x g') ls
  intakes : Intakes t (gs x.peer) (e.ends x).session (e'.ends x).session (gs x) g'
  sent : ∃ more, g'.sent = (gs x).sent ++ more
  intake : g'.intake = (gs x).intake
  pieces : g'.pieces = (gs x).pieces ++ new
  /-- Nothing is sent after the packet that closes. -/
  room : new = [] ∨ (gs x).sent.length = (gs x).bulk
  accepted : (e'.ends x).accepted = (e.ends x).accepted ++ new
  handed : (e'.ends x).handed = (e.ends x).handed
  peer : e'.ends x.peer = e.ends x.peer

theorem Accounts.acted (h : Accounts t e gs ls) (e' : Exchange) {new : List Piece}
    (ha : Acts t x (e.ends x).session s' (gs x) (gs x.peer) (ls x.peer) (ls x) new)
    (hwindow : t.config.window ≤ 128) (hroom : new = [] ∨ (gs x).sent.length = (gs x).bulk)
    (hends : e'.ends x =
      { (e.ends x).observe s' with accepted := (e.ends x).accepted ++ new })
    (hpeer : e'.ends x.peer = e.ends x.peer) (hlink : e'.link = e.link)
    (hbegun : e'.begun x = false → e.begun x = false ∧ s'.Unused)
    (hbegun' : e'.begun x.peer = false → e.begun x.peer = false) :
    ∃ g', Acted t x e e' gs ls g' new := by
  obtain ⟨g', hb, hi, hp⟩ := ha
  have haccounts := h.follows e' _ _ (hb.follows hwindow) hwindow hends hpeer (congrFun hlink x)
    ((congrFun hlink x.peer).trans (h.link x.peer)) hbegun hbegun'
  rw [Function.update_eq_self] at haccounts
  refine ⟨g', haccounts, ?_, ⟨_, hb.sent⟩, hi, hp, hroom, by rw [hends], by rw [hends]; rfl, hpeer⟩
  rw [hends]
  exact hb.intakes

/-- The owner asks for something else than sending. -/
theorem Accounts.update (h : Accounts t e gs ls)
    (ha : Acts t x (e.ends x).session s' (gs x) (gs x.peer) (ls x.peer) (ls x) [])
    (hwindow : t.config.window ≤ 128) (hbegun : e.begun x = false → s'.Unused) :
    ∃ g', Acted t x e (e.update x s') gs ls g' [] := by
  refine h.acted _ ha hwindow (.inl rfl) ?_ ?_ rfl (fun hb => ?_) (fun hb => ?_)
  · simp [End.observe]
  · simp
  · cases x <;> exact ⟨hb, hbegun hb⟩
  · cases x <;> exact hb

theorem Accounts.close (h : Accounts t e gs ls) (hwindow : t.config.window ≤ 128) (x : Role)
    (now : Nat) : ∃ g', Acted t x e (e.apply (.close x now)) gs ls g' [] :=
  h.update ((h.stands x).close now) hwindow fun hb => by
    have hu := (h.fresh x hb).1
    rwa [hu.close]

theorem Accounts.reset (h : Accounts t e gs ls) (hwindow : t.config.window ≤ 128) (x : Role) :
    ∃ g', Acted t x e (e.apply (.reset x)) gs ls g' [] :=
  h.update (h.stands x).reset hwindow fun hb => by
    have hu := (h.fresh x hb).1
    rwa [hu.reset]

theorem Accounts.tick (h : Accounts t e gs ls) (hwindow : t.config.window ≤ 128) (x : Role)
    (now : Nat) : ∃ g', Acted t x e (e.apply (.tick x now)) gs ls g' [] :=
  h.update ((h.stands x).checkTimers now) hwindow fun hb => (h.fresh x hb).1.checkTimers now

/-- The initiator asks for the connection. -/
theorem Accounts.connect (h : Accounts t e gs ls) (ho : e.opened = false)
    (hwindow : t.config.window ≤ 128) (now : Nat) :
    ∃ g', Acted t .initiator e (e.apply (.connect now)) gs ls g' [] := by
  obtain ⟨hs, hg⟩ := h.fresh .initiator ho
  have happly : e.apply (.connect now) =
      { e.update .initiator ((e.ends .initiator).session.connect now).2 with opened := true } := by
    simp only [Exchange.apply]
    rw [if_neg (Bool.not_eq_true _ ▸ ho)]
  rw [happly]
  refine h.acted _ ((h.stands .initiator).connect hs hg now) hwindow (.inl rfl) ?_ rfl rfl
    (fun hb => nomatch hb) fun hb => hb
  simp [End.observe]

/-- An end is asked to send a message. -/
theorem Accounts.send (h : Accounts t e gs ls) (htame : t.Tame x) (hpos : 0 < t.config.window)
    (ps : List Packet) (numbers : List UInt8) (now : Nat) :
    ∃ g' new, Acted t x e (e.apply (.send x ps numbers now)) gs ls g' new := by
  have hwindow : t.config.window ≤ 128 := by
    have : t.config.window ≤ 127 := Nat.le_trans (Nat.le_add_right _ _) htame
    omega
  rcases (h.stands x).send htame hpos ps numbers now with ⟨err, hs⟩ | ⟨s', hs, hopen, ha⟩
  · obtain ⟨g', h'⟩ := h.update (Acts.refl (h.stands x)) hwindow fun hb => (h.fresh x hb).1
    simp only [Exchange.apply, hs]
    exact ⟨g', [], h'⟩
  · simp only [Exchange.apply, hs]
    obtain ⟨g', h'⟩ := h.acted
      ((e.update x s').put x { (e.update x s').ends x with
        accepted := ((e.update x s').ends x).accepted ++
          (numberFragments numbers ps).map Piece.of }) ha hwindow (.inr hopen)
      (by simp [End.observe]) (by simp) rfl
      (fun hb => by
        have hold : e.begun x = false := by cases x <;> exact hb
        have hu := (h.fresh x hold).1
        have := hu.send ps now fun ps => (numberFragments numbers ps, ())
        rw [hs] at this
        exact ⟨hold, by rwa [← show s' = (e.ends x).session from this] at hu⟩)
      (fun hb => by cases x <;> exact hb)
    exact ⟨g', _, h'⟩

/-- What is queued at an end goes onto the link. -/
theorem Accounts.take (h : Accounts t e gs ls) (hwindow : t.config.window ≤ 128) (x : Role) :
    Becomes t x (e.ends x).session (e.ends x).session.fetchOutbound.2 (gs x) (gs x).flush
        (gs x.peer) (ls x.peer ++ (gs x).queue) (ls x) ∧
      Accounts t (e.apply (.take x)) (Function.update gs x (gs x).flush)
        (Function.update ls x.peer (ls x.peer ++ (gs x).queue)) := by
  obtain ⟨hps, hunused, hb⟩ := (h.stands x).fetchOutbound
  refine ⟨hb, h.follows _ (e.ends x).accepted (e.ends x).handed (hb.follows hwindow) hwindow
    ?_ ?_ ?_ ?_ ?_ ?_⟩
  · simp [Exchange.apply, End.observe]
  · simp [Exchange.apply]
  · simp [Exchange.apply, Exchange.update, Exchange.put, Exchange.relink, (Role.peer_ne x).symm]
  · simp [Exchange.apply, Exchange.update, Exchange.put, Exchange.relink, hps, h.link]
  · intro hbegun
    have : e.begun x = false := by cases x <;> exact hbegun
    exact ⟨this, hunused (h.fresh x this).1⟩
  · intro hbegun
    cases x <;> exact hbegun

/-- An end that has not begun yet when a packet has arrived was not asked to begin by it. -/
theorem Exchange.begun_arrive {p : Packet} {now : Nat} (h : (e.arrive x p now).begun x = false) :
    e.begun x = false ∧ e.reacted x p now = ((e.ends x).session.receive p).2 := by
  have hold : e.begun x = false ∧
      ¬ (x = .responder ∧ e.created = false ∧ p.header.flags.syn = true) := by
    cases x with
    | initiator => exact ⟨h, fun hx => nomatch hx.1⟩
    | responder =>
      obtain ⟨hc, hsyn⟩ := Bool.or_eq_false_iff.1 h
      refine ⟨hc, fun hx => ?_⟩
      rw [hx.2.2] at hsyn
      cases hsyn
  exact ⟨hold.1, if_neg hold.2⟩

theorem Exchange.begun_arrive_peer {p : Packet} {now : Nat}
    (h : (e.arrive x p now).begun x.peer = false) : e.begun x.peer = false := by
  cases x with
  | initiator => exact (Bool.or_eq_false_iff.1 h).1
  | responder => exact h

/-- A packet arrives. -/
theorem Accounts.arrive (h : Accounts t e gs ls) {p : Parcel} {rest : List Parcel}
    (hls : ls x = p :: rest) (hpos : 0 < t.config.window) (hwindow : t.config.window ≤ 128)
    (now : Nat) :
    ∃ g', Becomes t x (e.ends x).session (e.reacted x p.packet now) (gs x) g' (gs x.peer) (ls x.peer)
        rest ∧
      g'.pieces = (gs x).pieces ∧
      ((gs x).alive = true → g'.sent = (gs x).sent ∧
        (g'.alive = true ∨ (e.reacted x p.packet now).state = .disconnected)) ∧
      Accounts t ((e.relink x (rest.map Parcel.packet)).arrive x p.packet now)
        (Function.update gs x g') (Function.update ls x rest) := by
  have hstands := h.stands x
  rw [hls] at hstands
  have hp := hstands.sound.arriving
  have h₁ := h.drop (x := x) rest (by rw [hls]; exact List.sublist_cons_self _ _)
  have hs := h₁.stands x
  rw [Function.update_self, Function.update_of_ne (Role.peer_ne x)] at hs
  have hkey : ∃ g', Becomes t x (e.ends x).session (e.reacted x p.packet now) (gs x) g' (gs x.peer)
        (ls x.peer) rest ∧
      g'.pieces = (gs x).pieces ∧
      ((gs x).alive = true → g'.sent = (gs x).sent ∧
        (g'.alive = true ∨ (e.reacted x p.packet now).state = .disconnected)) := by
    unfold Exchange.reacted
    simp only
    split
    · rename_i hsyn
      obtain ⟨hx, hcreated, hsyn⟩ := hsyn
      subst hx
      obtain ⟨hu, hb⟩ := h.fresh .responder hcreated
      obtain ⟨g', hbecomes, hpieces⟩ := Stands.accept hs hu hb hp hsyn now
      refine ⟨g', hbecomes, hpieces, fun ha => ?_⟩
      rw [hs.dead (.inl hu.state)] at ha
      cases ha
    · obtain ⟨g', hbecomes, ⟨hsent, hbulk⟩, halive⟩ := (hs.receive hp hpos hwindow).becomes
      exact ⟨g', hbecomes, by unfold Ledger.pieces; rw [hsent, hbulk], fun ha => ⟨hsent, halive ha⟩⟩
  obtain ⟨g', hbecomes, hpieces, halive⟩ := hkey
  refine ⟨g', hbecomes, hpieces, halive, ?_⟩
  have hf := hbecomes.follows hwindow
  have hlx : Function.update ls x rest x.peer = ls x.peer := Function.update_of_ne (Role.peer_ne x) _ _
  rw [← Function.update_self x rest ls, ← hlx] at hf
  have := h₁.follows ((e.relink x (rest.map Parcel.packet)).arrive x p.packet now)
    (e.ends x).accepted (e.ends x).handed hf hwindow ?_ ?_ rfl (h₁.link x.peer) ?_ ?_
  · rwa [Function.update_eq_self] at this
  · exact Exchange.ends_arrive _ x p.packet now
  · simp
  · intro hb
    obtain ⟨hold, hreacted⟩ := Exchange.begun_arrive hb
    rw [Exchange.reacted_relink] at hreacted
    rw [hreacted]
    exact ⟨hold, (h₁.fresh x hold).1.receive p.packet⟩
  · exact Exchange.begun_arrive_peer

/-- An end hands out what is in sequence. -/
theorem Accounts.hand (h : Accounts t e gs ls) (hwindow : t.config.window ≤ 128) (x : Role) :
    Accounts t (e.hand x) gs ls := by
  have hs := (h.stands x).fetchInbound
  obtain ⟨q, he⟩ := fetchInbound_fields (e.ends x).session
  have hf : Follows t x (e.ends x).session (e.ends x).session.fetchInbound.2 (gs x) (gs x)
      (gs x.peer) (ls x.peer) (ls x) := by
    refine ⟨hs, ?_, Nat.le_refl _, by omega, fun _ n hn => .inl hn⟩
    rw [he]
    exact (Becomes.refl (h.stands x)).sent
  have := h.follows (e.hand x) (e.ends x).accepted
    ((e.ends x).handed ++ (e.ends x).session.fetchInbound.1.map Piece.of) hf hwindow ?_ ?_ rfl
    (h.link x.peer) ?_ ?_
  · rwa [Function.update_eq_self, Function.update_eq_self] at this
  · simp [End.observe]
  · simp
  · intro hb
    have hold : e.begun x = false := by cases x <;> exact hb
    rw [he]
    exact ⟨hold, { (h.fresh x hold).1 with }⟩
  · intro hb
    cases x <;> exact hb

/-! ## Every run -/

/-- Whatever happens, the connection stays accounted for. -/
theorem Accounts.apply (h : Accounts t e gs ls) (hvalid : t.config.Valid) (htame : ∀ x, t.Tame x)
    (a : Act) : ∃ gs' ls', Accounts t (e.apply a) gs' ls' := by
  have hpos := hvalid.window_pos
  have hwindow := hvalid.window_le
  cases a with
  | connect now =>
    cases ho : e.opened with
    | false =>
      obtain ⟨g', h'⟩ := h.connect ho hwindow now
      exact ⟨_, _, h'.accounts⟩
    | true =>
      refine ⟨gs, ls, ?_⟩
      unfold Exchange.apply
      rw [ho]
      exact h
  | send x ps numbers now =>
    obtain ⟨g', new, h'⟩ := h.send (htame x) hpos ps numbers now
    exact ⟨_, _, h'.accounts⟩
  | close x now =>
    obtain ⟨g', h'⟩ := h.close hwindow x now
    exact ⟨_, _, h'.accounts⟩
  | reset x =>
    obtain ⟨g', h'⟩ := h.reset hwindow x
    exact ⟨_, _, h'.accounts⟩
  | tick x now =>
    obtain ⟨g', h'⟩ := h.tick hwindow x now
    exact ⟨_, _, h'.accounts⟩
  | take x => exact ⟨_, _, (h.take hwindow x).2⟩
  | lose x =>
    have h' := h.drop (x := x) _ (List.tail_sublist (ls x))
    rw [List.map_tail, ← h.link] at h'
    exact ⟨_, _, h'⟩
  | deliver x hands now =>
    have hlink := h.link x
    cases hls : ls x with
    | nil =>
      rw [hls, List.map_nil] at hlink
      refine ⟨gs, ls, ?_⟩
      simp only [Exchange.apply, hlink]
      exact h
    | cons p rest =>
      rw [hls, List.map_cons] at hlink
      obtain ⟨g', -, -, -, h'⟩ := h.arrive hls hpos hwindow now
      refine ⟨Function.update gs x g', Function.update ls x rest, ?_⟩
      simp only [Exchange.apply, hlink]
      cases hands with
      | false => exact h'
      | true => exact h'.hand hwindow x

theorem Accounts.after (h : Accounts t e gs ls) (hvalid : t.config.Valid) (htame : ∀ x, t.Tame x)
    (acts : List Act) : ∃ gs' ls', Accounts t (e.after acts) gs' ls' := by
  induction acts generalizing e gs ls with
  | nil => exact ⟨gs, ls, h⟩
  | cons a acts ih =>
    obtain ⟨gs', ls', h'⟩ := h.apply hvalid htame a
    exact ih h'

end NarrowLink.Connection

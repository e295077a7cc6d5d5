import NarrowLink.Proofs.Exchange.Run
import NarrowLink.Proofs.Exchange.Widening

/-!
# Runs that a narrow window admits

A connection with a wider window does what it does with a narrower one, step by step
(`Exchange.apply_widen`) and over a whole run (`Exchange.after_widen`), as long as the narrower window
admits what happens (`Exchange.AdmitsAll`).  So a run that goes wrong with some window goes wrong with all
wider ones.
-/

namespace NarrowLink.Connection

open Wire

/-- The end with another configuration and other options. -/
def End.widen (c : Config) (o : Options) (en : End) : End := { en with session := en.session.widen c o }

theorem End.observe_widen (c : Config) (o : Options) (en : End) (s : Session) :
    (en.widen c o).observe (s.widen c o) = (en.observe s).widen c o := rfl

namespace Exchange

/-- The connection with another configuration and other options. -/
def widen (c : Config) (o : Role → Options) (e : Exchange) : Exchange :=
  { e with ends := fun x => (e.ends x).widen c (o x) }

/-- The window admits what happens, and it does not depend on the options. -/
def Admits (e : Exchange) : Act → Prop
  | .send x ps _ _ => ((e.ends x).session.admits ps).isOk = true
  | .tick .. => False
  | .deliver x _ _ => ∀ p ∈ (e.link x).head?, p.header.flags.data = true →
    Serial.distance (e.ends x).session.expected p.header.relSeq < (e.ends x).session.config.window
  | _ => True

/-- Both ends are snug. -/
def Snug (e : Exchange) : Prop := ∀ x, (e.ends x).session.Snug

variable {c : Config} {o : Role → Options} {e : Exchange}

theorem session_widen (x : Role) :
    ((e.widen c o).ends x).session = (e.ends x).session.widen c (o x) := rfl

theorem put_widen (x : Role) (en : End) :
    (e.widen c o).put x (en.widen c (o x)) = (e.put x en).widen c o := by
  unfold put widen
  simp only [mk.injEq, and_self, and_true]
  funext y
  by_cases hy : y = x
  · subst hy
    rw [if_pos rfl, if_pos rfl]
  · rw [if_neg hy, if_neg hy]

theorem update_widen (x : Role) (s : Session) :
    (e.widen c o).update x (s.widen c (o x)) = (e.update x s).widen c o := by
  unfold update
  rw [← put_widen, ← End.observe_widen]
  rfl

theorem reacted_widen {x : Role} {p : Packet} {now : Nat} (hw : (e.ends x).session.Widens c (o x))
    (hwindow : p.header.flags.data = true →
      Serial.distance (e.ends x).session.expected p.header.relSeq < (e.ends x).session.config.window)
    (h : (e.reacted x p now).Snug) :
    (e.widen c o).reacted x p now = (e.reacted x p now).widen c (o x) := by
  have haccept := congrArg Prod.snd (Session.accept_widen (e.ends x).session c (o x) p now)
  unfold reacted at h ⊢
  by_cases hfirst : x = .responder ∧ e.created = false ∧ p.header.flags.syn
  · have hfirst' : x = .responder ∧ (e.widen c o).created = false ∧ p.header.flags.syn := hfirst
    rw [if_pos hfirst, if_pos hfirst']
    exact haccept
  · have hfirst' : ¬ (x = .responder ∧ (e.widen c o).created = false ∧ p.header.flags.syn) := hfirst
    rw [if_neg hfirst] at h
    rw [if_neg hfirst, if_neg hfirst']
    exact congrArg Prod.snd (Session.receive_widen hw hwindow h)

theorem hand_widen (x : Role) : (e.widen c o).hand x = (e.hand x).widen c o := by
  unfold hand
  rw [session_widen, Session.fetchInbound_widen]
  cases (e.ends x).session.fetchInbound with
  | mk ps s =>
    simp only [Prod.map, id]
    rw [update_widen]
    let en := (e.update x s).ends x
    exact put_widen x { en with handed := en.handed ++ ps.map Piece.of }

/-- Whether an end hands out what has arrived or not, only its inbound queue is different. -/
theorem session_deliver {x : Role} {p : Packet} {ps : List Packet} (hl : e.link x = p :: ps)
    (hands : Bool) (now : Nat) : ∃ q, ((e.apply (.deliver x hands now)).ends x).session =
      { e.reacted x p now with inbound := q } := by
  have harrive : (((e.relink x ps).arrive x p now).ends x).session = e.reacted x p now := by
    rw [ends_arrive]
    rfl
  simp only [apply, hl]
  cases hands with
  | false => exact ⟨_, harrive⟩
  | true =>
    obtain ⟨q, hq⟩ := fetchInbound_fields (((e.relink x ps).arrive x p now).ends x).session
    refine ⟨q, ?_⟩
    rw [← harrive, ← hq]
    simp [End.observe]

/-- What happens to a connection happens to it in the same way if its window is wider, as long as the
narrower window admits it. -/
theorem apply_widen (hsnug : e.Snug) {act : Act} (hadmits : e.Admits act) (h : (e.apply act).Snug)
    (hw : ∀ x, (e.ends x).session.Widens c (o x)) :
    (e.widen c o).apply act = (e.apply act).widen c o := by
  cases act with
  | connect now =>
    simp only [apply, session_widen, Session.connect_widen, Prod.map]
    rw [update_widen, apply_ite (widen c o)]
    rfl
  | send x ps numbers now =>
    have hok : (e.ends x).session.admits ps = .ok () := by
      cases hanswer : (e.ends x).session.admits ps with
      | ok => rfl
      | error e => simp [Admits, hanswer, Except.isOk, Except.toBool] at hadmits
    simp only [apply]
    rw [session_widen, Session.send_widen (hsnug x) (hw x) hok]
    cases (e.ends x).session.send ps now fun ps => (numberFragments numbers ps, ()) with
    | mk answer s =>
      simp only [Prod.map, id]
      rw [update_widen]
      cases answer with
      | error => rfl
      | ok =>
        let en := (e.update x s).ends x
        let pieces := (numberFragments numbers ps).map Piece.of
        exact put_widen x { en with accepted := en.accepted ++ pieces }
  | close x now =>
    simp only [apply, session_widen, Session.close_widen, Prod.map]
    exact update_widen x _
  | reset x =>
    simp only [apply, session_widen, Session.reset_widen]
    exact update_widen x _
  | tick => exact hadmits.elim
  | take x =>
    simp only [apply]
    rw [session_widen, Session.fetchOutbound_widen]
    cases (e.ends x).session.fetchOutbound with
    | mk ps s =>
      simp only [Prod.map, id]
      rw [update_widen]
      rfl
  | lose x => rfl
  | deliver x hands now =>
    simp only [apply]
    have hwiden : (e.widen c o).link x = e.link x := rfl
    rw [hwiden]
    cases hlink : e.link x with
    | nil => rfl
    | cons p ps =>
      have hreacted : (e.widen c o).reacted x p now = (e.reacted x p now).widen c (o x) := by
        obtain ⟨q, hq⟩ := session_deliver hlink hands now
        have hsnug' := h x
        rw [hq] at hsnug'
        exact reacted_widen (hw x) (hadmits p (by rw [hlink]; rfl)) hsnug'
      have hupdate : ((e.widen c o).relink x ps).update x ((e.widen c o).reacted x p now) =
          ((e.relink x ps).update x (e.reacted x p now)).widen c o := by
        rw [hreacted]
        exact update_widen (e := e.relink x ps) x _
      have harrive : ((e.widen c o).relink x ps).arrive x p now =
          ((e.relink x ps).arrive x p now).widen c o :=
        congrArg (fun u : Exchange =>
          { u with created := e.created || (x = Role.responder && p.header.flags.syn) }) hupdate
      cases hands with
      | false => exact harrive
      | true => exact (congrArg (hand · x) harrive).trans (hand_widen x)

/-- The window admits everything that happens in a run. -/
def AdmitsAll : Exchange → List Act → Prop
  | e, [] => e.Snug
  | e, act :: acts => e.Snug ∧ e.Admits act ∧ (e.apply act).AdmitsAll acts

theorem AdmitsAll.snug {acts : List Act} (h : e.AdmitsAll acts) : e.Snug := by
  cases acts with
  | nil => exact h
  | cons => exact h.1

/-- A connection whose configuration and options are those. -/
def Under (e : Exchange) (c : Config) (o : Role → Options) : Prop := e.widen c o = e

theorem Under.widens {v : Config} {r : Role → Options} (h : e.Under v r)
    (hle : v.window ≤ c.window) (hbound : c.window ≤ 128)
    (hreports : ∀ x, (r x).selectiveAck = true → (o x).selectiveAck = true) (x : Role) :
    (e.ends x).session.Widens c (o x) := by
  have hsession : (e.ends x).session.widen v (r x) = (e.ends x).session :=
    congrArg (fun e : Exchange => (e.ends x).session) h
  refine ⟨?_, hbound, ?_⟩
  · rw [← hsession]
    exact hle
  · rw [← hsession]
    exact hreports x

/-- A run does the same with a wider window, if the narrower one admits it. -/
theorem after_widen {v : Config} {r : Role → Options} {acts : List Act} (hadmits : e.AdmitsAll acts)
    (h : e.Under v r) (hle : v.window ≤ c.window) (hbound : c.window ≤ 128)
    (hreports : ∀ x, (r x).selectiveAck = true → (o x).selectiveAck = true) :
    (e.widen c o).after acts = (e.after acts).widen c o := by
  induction acts generalizing e with
  | nil => rfl
  | cons act acts ih =>
    obtain ⟨hsnug, hact, hrest⟩ := hadmits
    have hnext := apply_widen hsnug hact hrest.snug (h.widens hle hbound hreports)
    have hunder : (e.apply act).Under v r := by
      have hv : v.window ≤ 128 := Nat.le_trans hle hbound
      have hself := apply_widen hsnug hact hrest.snug
        (h.widens (Nat.le_refl _) hv fun _ hx => hx)
      rw [h] at hself
      exact hself.symm
    exact (congrArg (after · acts) hnext).trans (ih hrest hunder)

end Exchange

end NarrowLink.Connection

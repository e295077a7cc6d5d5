import NarrowLink.Proofs.Table.Calls
import NarrowLink.Proofs.Table.Load

/-!
# Packets do not bring about packets for ever

Two tables face each other (`Duplex`), and packets travel between them in any order.  Nobody uses the
connections any more: all that happens is that packets arrive, and that the owners pass on at once what
their connections have for the transmitter, and the replies that they are told of.  Each delivery then
makes the load of the whole lighter (`Duplex.load_deliver`), so the packets run out
(`Duplex.deliveries_le`).
-/

namespace NarrowLink.Connection

open Wire

namespace Table

variable {σ : Type}

/-- The load of the connection that is kept in a table. -/
def entryLoad : Option Entry → Nat
  | none => 0
  | some e => e.session.load

/-- The load of all connections. -/
def sessionLoad (t : Table σ) : Nat := (t.entries.values.map entryLoad).sum

/-- The number of packets that wait for the transmitter in all connections. -/
def queued (t : Table σ) : Nat :=
  (t.entries.values.map fun
    | none => 0
    | some e => e.session.outbound.length).sum

/-- The table in the hands of another owner. -/
def handedTo {τ : Type} (t : Table σ) (owner : τ) : Table τ := ⟨t.config, t.entries, t.nextSerial, owner⟩

/-- The load of all connections and of the packets that the owner has taken. -/
def load (t : Table Recorder) : Nat :=
  t.sessionLoad + (t.owner.taken.map fun a => a.2.weight).sum

theorem sessionLoad_set (t : Table σ) (port : UInt8) (e? : Option Entry) (nextSerial : Nat) :
    sessionLoad { t with entries := t.entries.set port e?, nextSerial := nextSerial } +
      entryLoad (t.entries.get port) = t.sessionLoad + entryLoad e? :=
  ByteMap.sum_values_set entryLoad t.entries port e?

/-- If the owner was told everything, only what is queued counts. -/
theorem Told.sessionLoad_le {t : Table σ} (h : t.Told) : t.sessionLoad ≤ 6 * t.queued := by
  refine Queue.sum_map_le_mul t.entries.values fun entry hentry => ?_
  obtain ⟨port, hport⟩ := ByteMap.exists_get_of_mem_values hentry
  cases entry with
  | none => exact Nat.zero_le _
  | some e =>
    have hevents := h port e hport
    have hqueue := Queue.total_le Packet.weight_le e.session.outbound
    simpa [entryLoad, Session.load, hevents] using hqueue

variable {o : Owner Recorder} {t : Table Recorder}

theorem load_remove (t : Table Recorder) (port : UInt8) (serial : Nat) :
    (t.remove port serial).load ≤ t.load := by
  unfold Table.remove
  split
  · have := t.sessionLoad_set port none t.nextSerial
    simp only [load, entryLoad] at *
    omega
  · exact Nat.le_refl _

/-- What an owner takes when it is told of an event comes from the connections or from the event. -/
def Passes (o : Owner Recorder) : Prop := ∀ e t, (o.react e t).load ≤ t.load + e.weight

theorem Passes.tell (ho : Passes o) (t : Table Recorder) (port : UInt8) (serial : Nat)
    (events : List Event) :
    (t.tell o port serial events).load ≤ t.load + (events.map Event.weight).sum := by
  have hall : (events.foldl (fun t e => o.react e t) t).load ≤ t.load + (events.map Event.weight).sum := by
    induction events generalizing t with
    | nil => exact Nat.le_refl _
    | cons e events ih =>
      have hfirst := ho e t
      have hrest := ih (o.react e t)
      rw [List.map_cons, List.sum_cons, List.foldl_cons]
      omega
  unfold Table.tell
  simp only
  split
  · exact Nat.le_trans (load_remove _ port serial) hall
  · exact hall

theorem Passes.enter (ho : Passes o) (t : Table Recorder) (port : UInt8) (s : Session) :
    (t.enter o port s).load ≤ t.load + s.load := by
  have hset := t.sessionLoad_set port (some ⟨t.nextSerial, s.takeEvents.2⟩) (t.nextSerial + 1)
  have hevents := s.load_takeEvents
  have htell := ho.tell
    { t with
      entries := t.entries.set port (some ⟨t.nextSerial, s.takeEvents.2⟩)
      nextSerial := t.nextSerial + 1 }
    port t.nextSerial s.takeEvents.1
  unfold Table.enter
  simp only [load, entryLoad] at *
  omega

/-- What an operation on a connection adds to its load is all that it adds. -/
theorem Passes.onSession {α : Type} (ho : Passes o) {port : UInt8} {e : Entry}
    (he : t.entries.get port = some e) (f : Session → α × Session) :
    (t.onSession o port f).1 = some (f e.session).1 ∧
      (t.onSession o port f).2.load + e.session.load ≤ t.load + (f e.session).2.load := by
  have hset := t.sessionLoad_set port (some ⟨e.serial, (f e.session).2.takeEvents.2⟩) t.nextSerial
  have hevents := (f e.session).2.load_takeEvents
  unfold Table.onSession
  rw [he] at hset ⊢
  refine ⟨rfl, ?_⟩
  have htell := ho.tell
    { t with entries := t.entries.set port (some ⟨e.serial, (f e.session).2.takeEvents.2⟩) }
    port e.serial (f e.session).2.takeEvents.1
  simp only [load, entryLoad] at *
  omega

theorem Passes.reject (ho : Passes o) (t : Table Recorder) (p : Packet) (flags : Flags)
    (hrst : flags.rst) : (t.reject o p flags).load ≤ t.load + 1 := by
  have hreact := ho (.rejected p.port (rejection p flags)) t
  have hweight : (rejection p flags).weight = 1 := by
    show flags.weight = 1
    unfold Flags.weight
    rw [if_pos hrst]
  rwa [Event.weight, hweight] at hreact

theorem onSession_of_none {α : Type} (o : Owner σ) {t : Table σ} {port : UInt8}
    (h : t.entries.get port = none) (f : Session → α × Session) :
    t.onSession o port f = (none, t) := by
  unfold Table.onSession
  rw [h]

theorem Passes.fetchOutbound (ho : Passes o) (t : Table Recorder) (port : UInt8) :
    (t.fetchOutbound o port).2.load + ((t.fetchOutbound o port).1.map Packet.weight).sum ≤ t.load := by
  unfold Table.fetchOutbound
  cases he : t.entries.get port with
  | none =>
    rw [onSession_of_none o he]
    exact Nat.le_refl _
  | some e =>
    obtain ⟨hps, hload⟩ := ho.onSession he Session.fetchOutbound
    have hfetch := e.session.load_fetchOutbound
    simp only [hps, Option.getD_some]
    omega

end Table

/-! ## What recorders pass on -/

namespace Recorder

open Table

theorem load_learn (e : Event) (t : Table Recorder) :
    (t.onOwner fun r => r.learn e).load = t.load + e.weight := by
  cases e <;> simp [Table.load, onOwner, learn, keep, write, Event.weight, sessionLoad, Nat.add_assoc]

theorem load_keep (port : UInt8) (ps : List Packet) (t : Table Recorder) :
    (t.onOwner fun r => r.keep port ps).load = t.load + (ps.map Packet.weight).sum := by
  simp [Table.load, onOwner, keep, sessionLoad, Nat.add_assoc, Function.comp_def]

theorem passes_listening : Passes listening := fun e t => Nat.le_of_eq (load_learn e t)

theorem passes_owner : Passes owner := by
  intro e t
  have hlearn := load_learn e t
  show (react e t).load ≤ _
  unfold react
  simp only
  split
  · rename_i port
    split
    · have hfetch := passes_listening.fetchOutbound
        (t.onOwner fun r => r.learn (.outboundAvailable port)) port
      rw [load_keep]
      omega
    · exact Nat.le_of_eq hlearn
  · exact Nat.le_of_eq hlearn

end Recorder

namespace Table

/-- A packet that asks for a connection makes the load of a table grow by less than it weighs. -/
theorem load_receiveOpening (t : Table Recorder) (hfirst : t.owner.opensFirst = false) (now : Nat)
    {syn : Packet} (hsyn : syn.header.flags = .opening) (hfree : t.entries.get syn.port = none) :
    (t.receiveOpening Recorder.owner now syn).2.load < t.load + syn.weight := by
  have hweight : syn.weight = 6 := by
    rw [Packet.weight, hsyn]
    rfl
  let asked := t.onOwner fun r => r.write (.asked syn.port syn.header.src)
  have hasked : (Recorder.owner.decideOn syn.port syn.header.src t).2 = asked := by
    simp [asked, Recorder.owner, Recorder.decideOn, onOwner, Recorder.write, hfirst]
  have hload : asked.load = t.load := rfl
  unfold receiveOpening
  simp only
  split
  · rename_i hdecide
    rw [hdecide] at hasked
    subst hasked
    have hreject := Recorder.passes_owner.reject asked syn .refusing rfl
    simp only
    omega
  rename_i options hdecide
  rw [hdecide] at hasked
  subst hasked
  split
  · rename_i hbusy
    have hfree : asked.entries.get syn.port = none := hfree
    rw [hfree] at hbusy
    cases hbusy
  split
  · simp only
    omega
  · rename_i s hnew
    have haccept := Session.load_accept _ syn now hnew
    rw [Session.load_new] at haccept
    have henter := Recorder.passes_owner.enter asked syn.port s
    simp only
    omega

/-- A packet that arrives makes the load of a table grow by less than it weighs. -/
theorem load_receive (t : Table Recorder) (hfirst : t.owner.opensFirst = false) (now : Nat)
    (p : Packet) : (t.receive Recorder.owner now p).2.load < t.load + p.weight := by
  have hpos := p.weight_pos
  unfold receive
  cases he : t.entries.get p.port with
  | some e =>
    obtain ⟨hanswer, hload⟩ := Recorder.passes_owner.onSession he fun s => s.receive p
    have hreceive := e.session.load_receive p
    generalize t.onSession Recorder.owner p.port _ = r at hanswer hload ⊢
    obtain ⟨answer, t'⟩ := r
    subst hanswer
    simp only at hload ⊢
    omega
  | none =>
    rw [onSession_of_none _ he]
    simp only
    split
    · rename_i hopening
      exact t.load_receiveOpening hfirst now hopening he
    split
    · exact Nat.lt_add_of_pos_right hpos
    · rename_i hopening hrst
      have hweight : 2 ≤ p.weight := by
        unfold Packet.weight Flags.weight
        grind
      have hreject := Recorder.passes_owner.reject t p .resetting rfl
      simp only
      omega

end Table

/-! ## Two tables that face each other -/

/-- Two tables that face each other, and the packets on the way to each of them. -/
structure Duplex where
  table : Bool → Table Recorder
  arriving : Bool → List Packet

/-- A packet on the way to one side arrives there.  The owner of that side accepts these ports. -/
structure Delivery where
  side : Bool
  /-- The place of the packet among those that are on the way to the side. -/
  index : Nat
  accepted : List (UInt8 × Options)
  now : Nat

namespace Duplex

/-- The table that a packet leaves behind, whose owner takes everything at once. -/
def arrive (d : Duplex) (v : Delivery) (p : Packet) : Table Recorder :=
  (((d.table v.side).handedTo { accepted := v.accepted }).receive Recorder.owner v.now p).2

/-- What a delivery makes of the two sides.  All that the owner takes goes to the other side. -/
def deliver (d : Duplex) (v : Delivery) : Option Duplex :=
  match (d.arriving v.side)[v.index]? with
  | none => none
  | some p =>
    let t := d.arrive v p
    some {
      table := fun side => if side = v.side then t else d.table side
      arriving := fun side =>
        if side = v.side then (d.arriving side).eraseIdx v.index
        else d.arriving side ++ t.owner.taken.map Prod.snd }

/-- What a run of deliveries makes of the two sides, as long as each finds its packet. -/
def after (d : Duplex) (vs : List Delivery) : Option Duplex := vs.foldlM deliver d

/-- Two tables, in whosever hands they were, and packets on the way to them. -/
def between {σ τ : Type} (near : Table σ) (far : Table τ) (toNear toFar : List Packet) : Duplex where
  table side := if side then near.handedTo {} else far.handedTo {}
  arriving side := if side then toNear else toFar

/-- The weight of the packets on the way to one side, and the load of its connections. -/
def loadOf (d : Duplex) (side : Bool) : Nat :=
  (d.table side).sessionLoad + ((d.arriving side).map Packet.weight).sum

/-- The weight of all packets on the way, and the load of all connections. -/
def load (d : Duplex) : Nat := d.loadOf true + d.loadOf false

variable {d d' : Duplex}

/-- Each delivery makes the load lighter. -/
theorem load_deliver {v : Delivery} (h : d.deliver v = some d') : d'.load < d.load := by
  unfold deliver at h
  split at h
  · cases h
  rename_i p hp
  cases h
  have hreceive := ((d.table v.side).handedTo { accepted := v.accepted }).load_receive rfl v.now p
  have hhanded : ((d.table v.side).handedTo { accepted := v.accepted }).load =
    (d.table v.side).sessionLoad := rfl
  rw [hhanded] at hreceive
  have hgone : (((d.arriving v.side).eraseIdx v.index).map Packet.weight).sum + p.weight =
      ((d.arriving v.side).map Packet.weight).sum := by
    obtain ⟨hlt, hget⟩ := List.getElem?_eq_some_iff.1 hp
    have hperm := ((List.getElem_cons_eraseIdx_perm hlt).map Packet.weight).sum_eq
    rw [List.map_cons, List.sum_cons, hget] at hperm
    omega
  have harrive : (d.arrive v p).sessionLoad + ((d.arrive v p).owner.taken.map fun a => a.2.weight).sum <
      (d.table v.side).sessionLoad + p.weight := hreceive
  cases hside : v.side <;> rw [hside] at hgone harrive <;>
    simp [load, loadOf, Function.comp_def] <;> omega

/-- Every run of deliveries is at most as long as the load is heavy. -/
theorem length_le_load {vs : List Delivery} (h : d.after vs = some d') : vs.length ≤ d.load := by
  induction vs generalizing d with
  | nil => exact Nat.zero_le _
  | cons v vs ih =>
    rw [after, List.foldlM_cons] at h
    obtain ⟨d₁, hfirst, hrest⟩ := Option.bind_eq_some_iff.1 h
    have := load_deliver hfirst
    have := ih hrest
    rw [List.length_cons]
    omega

/-- Whatever the two owners did before and whatever is on the way, each packet that is on the way or
queued brings about at most six deliveries. -/
theorem deliveries_le {σ τ : Type} {config config' : Config} {a : σ} {b : τ} {near : Table σ}
    {far : Table τ} (hnear : (Table.empty config a).Reaches near)
    (hfar : (Table.empty config' b).Reaches far) {toNear toFar : List Packet} {vs : List Delivery}
    (h : (between near far toNear toFar).after vs = some d) :
    vs.length ≤ 6 * (toNear.length + toFar.length + near.queued + far.queued) := by
  have hlength := length_le_load h
  have hnearLoad := (hnear.told (Table.told_empty config a)).sessionLoad_le
  have hfarLoad := (hfar.told (Table.told_empty config' b)).sessionLoad_le
  have htoNear := Queue.sum_map_le_mul_length Packet.weight_le toNear
  have htoFar := Queue.sum_map_le_mul_length Packet.weight_le toFar
  have hload : (between near far toNear toFar).load = near.sessionLoad +
      (toNear.map Packet.weight).sum + (far.sessionLoad + (toFar.map Packet.weight).sum) := rfl
  omega

/-- A table whose owner asked for a connection, and passed the request on. -/
def asking : Table Recorder := (Table.empty {} {}).apply Recorder.owner (.connect 0 7 9 0 {})

/-- The other side accepts, and the two agree on their first numbers. -/
def agreeing : List Delivery := [⟨false, 0, [(9, {})], 0⟩, ⟨true, 0, [], 0⟩, ⟨false, 0, [], 0⟩]

theorem deliveries_le_of_request : ∃ d, (between asking (Table.empty {} ()) []
      (asking.owner.taken.map Prod.snd)).after agreeing = some d ∧
    agreeing.length ≤ 6 * (0 + (asking.owner.taken.map Prod.snd).length + asking.queued +
      (Table.empty {} ()).queued) := by
  have hruns : ((between asking (Table.empty {} ()) [] (asking.owner.taken.map Prod.snd)).after
      agreeing).isSome := by
    decide +kernel
  have hasking : (Table.empty {} {}).Reaches asking :=
    Recorder.reaches_apply (Table.empty {} {}) (.connect 0 7 9 0 {})
  obtain ⟨d, h⟩ := Option.isSome_iff_exists.1 hruns
  have hle := deliveries_le hasking (.refl (Table.empty {} ())) h
  rw [List.length_nil] at hle
  exact ⟨d, h, hle⟩

end Duplex

end NarrowLink.Connection

import NarrowLink.Proofs.Engine.Keeping
import NarrowLink.Proofs.Session.Receiving

/-!
# What connections supply

A property of the sessions of all ports that lasts makes the connections of an engine supply the desk with
packets of some sort (`Yielding.supplying`).  It stands on what is known of all sessions, where it may make
a difference whether the owner has yet to be told of what a session has received (`Awaits`).
-/

namespace NarrowLink.Engine

open Wire
open Connection (Event Session Table)

/-- The two forms of a property of the session on a port: in the midst of a call, and between the calls of
its owner, who may have yet to be told of what it has received. -/
structure Awaits (config : Config) (B : UInt8 → Session → Prop) (B' : Bool → UInt8 → Session → Prop) :
    Prop where
  weakens : ∀ {port : UInt8} {s : Session} (due : Bool), B' false port s → B' due port s
  told : ∀ {due : Bool} {port : UInt8} {s : Session}, B' due port s → B' due port { s with events := [] }
  enters : ∀ {port : UInt8} {s : Session}, B' false port s → B port s
  leaves : ∀ {port : UInt8} {s : Session}, B port s →
    B' (decide (.inboundAvailable port ∈ s.events)) port s
  formed : ∀ {due : Bool} {port : UInt8} {s : Session}, B' due port s → s.Formed config
  refills : ∀ {due : Bool} {port : UInt8} {s : Session} {q : Queue}, B' due port s →
    s.outbound.Refills q → B' due port { s with outbound := q }
  fetches : ∀ {due : Bool} {port : UInt8} {s : Session}, B' due port s → B' false port s.fetchInbound.2

theorem awaits_formed (config : Config) :
    Awaits config (fun _ s => s.Formed config) fun _ _ s => s.Formed config where
  weakens _ hs := hs
  told hs := { hs with }
  enters hs := hs
  leaves hs := hs
  formed hs := hs
  refills hs hq := hs.refill hq
  fetches := by
    intro _ _ s hs
    obtain ⟨q, he⟩ := Connection.fetchInbound_fields s
    rw [he]
    exact { hs with }

/-- Packets in sequence wait only while the owner has yet to be told. -/
theorem awaits_receiving (config : Config) :
    Awaits config (fun port s => s.Formed config ∧ s.Receiving config port s.Reports)
      fun due port s => s.Formed config ∧ s.Receiving config port (due = true) where
  weakens _ hs := ⟨hs.1, hs.2.mono fun h => absurd h Bool.false_ne_true⟩
  told hs := ⟨{ hs.1 with }, hs.2.congr rfl rfl rfl rfl rfl (.inl rfl) id⟩
  enters hs := ⟨hs.1, hs.2.mono fun h => absurd h Bool.false_ne_true⟩
  leaves := by
    intro port s hs
    refine ⟨hs.1, hs.2.mono fun hr => decide_eq_true ?_⟩
    rw [← hs.2.localPort]
    exact hr
  formed hs := hs.1
  refills hs hq := ⟨hs.1.refill hq, hs.2.congr rfl rfl rfl rfl rfl (.inl rfl) id⟩
  fetches {due port s} hs := ⟨@(awaits_formed config).fetches due port s hs.1, hs.2.fetchInbound _⟩

/-- A property of sessions that lasts, on top of what is known of them, and that says of what sort the
packets are that they hand to the desk. -/
structure Yielding (config : Config) (App End : Packet → Prop) (Out : List Packet → Prop)
    (B : UInt8 → Session → Prop) (P : Session → Prop) : Prop where
  lasts : ∀ port, Session.Lasting config port App fun s => B port s ∧ P s
  told : ∀ {s : Session}, P s → P { s with events := [] }
  hands : ∀ {s : Session} {ps : List Packet}, s.Formed config → P s → ps.Perm s.outbound.stored → Out ps
  ends : ∀ {s : Session}, s.Formed config → P s → s.state = .resetting →
    ∀ p ∈ s.outbound.stored, End p
  refills : ∀ {s : Session} {q : Queue}, s.Formed config → P s → s.outbound.Refills q →
    P { s with outbound := q }
  fetches : ∀ {s : Session} {q : Queue}, P s → P { s with inbound := q }
  rejects : ∀ (p : Packet) (flags : Flags), End (Table.rejection p flags)
  gathers : ∀ {ps : List Packet}, (∀ p ∈ ps, End p) → Out ps

theorem Yielding.supplying {config : Config} {App End : Packet → Prop} {Out : List Packet → Prop}
    {B : UInt8 → Session → Prop} {B' : Bool → UInt8 → Session → Prop} {P : Session → Prop}
    (h : Yielding config App End Out B P) (hb : Awaits config B B') :
    Supplying config App End Out fun due port s => B' due port s ∧ P s where
  enduring := Session.Lasting.enduring h.lasts (fun due hs => ⟨hb.weakens due hs.1, hs.2⟩)
    (fun hs => ⟨hb.told hs.1, h.told hs.2⟩) (fun hs => ⟨hb.enters hs.1, hs.2⟩)
    (fun hs => ⟨hb.leaves hs.1, hs.2⟩)
  formed hs := hb.formed hs.1
  hands hs := h.hands (hb.formed hs.1) hs.2
  ends hs := h.ends (hb.formed hs.1) hs.2
  refills hs hq := ⟨hb.refills hs.1 hq, h.refills (hb.formed hs.1) hs.2 hq⟩
  fetches := by
    intro _ _ s hs _
    refine ⟨hb.fetches hs.1, ?_⟩
    obtain ⟨q, he⟩ := Connection.fetchInbound_fields s
    rw [he]
    exact h.fetches hs.2
  rejects := h.rejects
  gathers := h.gathers

end NarrowLink.Engine

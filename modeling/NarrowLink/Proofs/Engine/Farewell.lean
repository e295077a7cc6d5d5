import NarrowLink.Proofs.Engine.Attending

/-!
# The farewell of a connection

A connection that is reset leaves one packet behind, its farewell, however full the queues are: the
transmit queue takes it, or the desk keeps it until there is room.  The resets that the desk keeps for a
port are a line: those that join it come from connections of that port that end (`Joins`), and those that
leave it are queued for transmission, all of them at once (`Engine.released`, `takesReleased`).  So none is
lost on the way or queued twice, as long as no connection is opened on the port (`farewell_passes_on`).
-/

namespace NarrowLink.Engine

open Wire
open Connection (Event Options Owner Session Table)

theorem after_concat (e : Engine) (acts : List Act) (a : Act) :
    e.after (acts ++ [a]) = ((e.after acts).perform a).2 := List.foldl_concat ..

/-- The act opens a connection on the port. -/
def Act.Opens (port : UInt8) : Act → Prop
  | .openConnection _ localPort _ _ => localPort = port
  | _ => False

/-! ## The resets that are kept -/

/-- The resets that are kept for a port, in the order in which they came. -/
def Desk.heldFor (d : Desk) (port : UInt8) : List Packet :=
  d.heldResets.filter fun p => p.header.src = port

/-- The resets that are queued for transmission when those that are kept are tried again. -/
def Desk.released (d : Desk) : List Packet :=
  if d.transmitter.queue.used + wireLengths d.heldResets ≤ d.transmitter.queue.capacity then
    d.heldResets
  else []

/-- The resets that leave those that are kept with an act, because the transmit queue takes them. -/
def released (e : Engine) : Act → List Packet
  | .fireTimer _ => if e.desk.active then e.desk.released else []
  | .retryResets => e.desk.released
  | _ => []

/-- The resets of a port that leave those that are kept with an act. -/
def releasedFor (e : Engine) (port : UInt8) (a : Act) : List Packet :=
  (e.released a).filter fun p => p.header.src = port

/-- The resets of a port that leave those that are kept during a run. -/
def releasedDuring (e : Engine) (port : UInt8) : List Act → List Packet
  | [] => []
  | a :: acts => e.releasedFor port a ++ (e.perform a).2.releasedDuring port acts

/-- The transmit queue takes the resets that leave those that are kept with an act, whatever else it takes. -/
def TakesReleased (e : Engine) (a : Act) : Prop :=
  e.released a = [] ∨ ((Desk.numberTransmit e.desk.counters (e.released a)).1 ++
    e.desk.transmitter.queue.stored).Subperm (e.perform a).2.desk.transmitter.queue.stored

theorem retryResets_eq (d : Desk) :
    d.retryResets = { d.queued d.released with
      heldResets := if d.released = [] then d.heldResets else [] } := by
  unfold Desk.retryResets Desk.released
  cases hheld : d.heldResets with
  | nil =>
    simp only [ite_self]
    show d = { d with heldResets := [] }
    rw [← hheld]
  | cons p ps =>
    simp only
    by_cases hroom : d.transmitter.queue.used + wireLengths (p :: ps) ≤ d.transmitter.queue.capacity
    · rw [submit_of_fits (d := { d with heldResets := [] }) hroom, if_pos hroom]
      rfl
    · rw [submit_of_not_fits (d := { d with heldResets := [] }) hroom, if_neg hroom, ← hheld]
      rfl

/-- The transmit queue takes the resets that are released. -/
theorem stored_retryResets (d : Desk) :
    d.retryResets.transmitter.queue.stored.Perm
      ((Desk.numberTransmit d.counters d.released).1 ++ d.transmitter.queue.stored) := by
  rw [retryResets_eq]
  exact stored_queued d d.released

/-- What the transmit queue takes of the resets that are kept is not kept any longer. -/
theorem heldFor_retryResets (d : Desk) (port : UInt8) :
    d.heldFor port = (d.released.filter fun p => p.header.src = port) ++ d.retryResets.heldFor port := by
  rw [retryResets_eq]
  unfold Desk.heldFor Desk.released
  split
  · simp only
    split
    · rename_i hnil
      rw [hnil]
      rfl
    · rw [List.filter_nil, List.append_nil]
  · rfl

/-- Either all resets that are kept leave together, or none of them. -/
theorem releasedFor_cases (e : Engine) (port : UInt8) (a : Act) :
    e.releasedFor port a = [] ∨ e.releasedFor port a = e.desk.heldFor port := by
  have hdesk : (e.desk.released.filter fun p => p.header.src = port) = [] ∨
      (e.desk.released.filter fun p => p.header.src = port) = e.desk.heldFor port := by
    unfold Desk.released
    split
    · exact .inr rfl
    · exact .inl rfl
  unfold releasedFor released
  split
  · split
    · exact hdesk
    · exact .inl rfl
  · exact hdesk
  · exact .inl rfl

/-! ## Calls -/

variable {config : Config} {t t' t'' : Table Desk} {port : UInt8}

/-- What joins the resets that are kept for a port between two tables: nothing, or the farewell of the
connection on the port, which is gone then. -/
inductive Joins (port : UInt8) (t t' : Table Desk) : List Packet → Prop where
  | nothing : Joins port t t' []
  | farewell {s : Session} (session : t.session? port = some s) (gone : t'.session? port = none) :
      Joins port t t' [s.farewell]

/-- Between two tables the first resets that are kept for a port may leave, and others join behind. -/
structure Passes (port : UInt8) (t t' : Table Desk) (left joined : List Packet) : Prop where
  joins : Joins port t t' joined
  balance : t.owner.heldFor port ++ joined = left ++ t'.owner.heldFor port

theorem session?_congr (h : t'.entries.get port = t.entries.get port) :
    t'.session? port = t.session? port := by
  unfold Table.session?
  rw [h]

/-- Nothing joins while a table keeps its connections. -/
theorem Passes.of_held (h : t'.owner.heldFor port = t.owner.heldFor port) : Passes port t t' [] [] :=
  ⟨.nothing, by rw [List.append_nil, h, List.nil_append]⟩

/-- What comes before the connection on the port is touched. -/
theorem Passes.after_same {left joined : List Packet} (h : Passes port t t' left [])
    (hsame : t'.entries.get port = t.entries.get port) (h' : Passes port t' t'' [] joined) :
    Passes port t t'' left joined where
  joins := by
    cases h'.joins with
    | nothing => exact .nothing
    | farewell session gone => exact .farewell (session?_congr hsame ▸ session) gone
  balance := by
    have hfirst := h.balance
    rw [List.append_nil] at hfirst
    rw [hfirst, List.append_assoc, h'.balance, List.nil_append]

/-- What comes after the connection on the port was touched. -/
theorem Passes.before_same {left joined : List Packet} (h : Passes port t t' left joined)
    (hsame : t''.entries.get port = t'.entries.get port)
    (hheld : t''.owner.heldFor port = t'.owner.heldFor port) : Passes port t t'' left joined where
  joins := by
    cases h.joins with
    | nothing => exact .nothing
    | farewell session gone => exact .farewell session ((session?_congr hsame).trans gone)
  balance := hheld ▸ h.balance

/-- A call on another connection keeps no reset of this port. -/
theorem Serves.heldFor (hrests : Rests config t) {other : UInt8} (h : Serves other t t')
    (hne : other ≠ port) : t'.owner.heldFor port = t.owner.heldFor port := by
  unfold Desk.heldFor
  cases h with
  | lasts owner _ => rw [owner.heldResets]
  | @parts s session parted =>
    have hsrc : s.farewell.header.src ≠ port := by
      show s.localPort ≠ port
      rw [(hrests.resting session).localPort]
      exact hne
    have howner := parted.owner
    generalize t'.owner = d' at howner ⊢
    cases howner with
    | queued => rfl
    | kept =>
      show (t.owner.heldResets ++ [s.farewell]).filter _ = _
      rw [List.filter_append, List.filter_singleton]
      simp [hsrc]

/-- A call on the connection on this port may keep its farewell. -/
theorem Serves.passes (hrests : Rests config t) {other : UInt8} (h : Serves other t t') :
    ∃ joined, Passes port t t' [] joined := by
  by_cases hne : other ≠ port
  · exact ⟨[], .of_held (h.heldFor hrests hne)⟩
  obtain rfl := not_not.1 hne
  cases h with
  | lasts owner _ =>
    refine ⟨[], .of_held ?_⟩
    unfold Desk.heldFor
    rw [owner.heldResets]
  | @parts s session parted =>
    have hsrc : s.farewell.header.src = other := (hrests.resting session).localPort
    have hgone : t'.session? other = none := by
      unfold Table.session?
      rw [parted.entries, ByteMap.get_set_self]
      rfl
    have howner := parted.owner
    generalize howner' : t'.owner = d' at howner
    cases howner with
    | queued =>
      refine ⟨[], .of_held ?_⟩
      rw [howner']
      rfl
    | kept =>
      refine ⟨[s.farewell], .farewell session hgone, ?_⟩
      rw [howner', List.nil_append]
      show _ = (t.owner.heldResets ++ [s.farewell]).filter _
      rw [List.filter_append, List.filter_singleton]
      simp [hsrc, Desk.heldFor]

/-- A call takes nothing out of the transmit queue. -/
theorem Serves.subperm {q : UInt8} (h : Serves q t t') :
    t.owner.transmitter.queue.stored.Subperm t'.owner.transmitter.queue.stored := by
  cases h with
  | lasts owner _ => exact owner.stored
  | parts _ parted =>
    have howner := parted.owner
    generalize t'.owner = d' at howner ⊢
    cases howner with
    | queued => exact subperm_queued t.owner _
    | kept => exact .refl _

theorem subperm_foldl_ports {f : Table Desk → UInt8 → Table Desk}
    (hf : ∀ t q, Rests config t → Rests config (f t q) ∧ Serves q t (f t q)) (ports : List UInt8)
    (h : Rests config t) :
    t.owner.transmitter.queue.stored.Subperm (ports.foldl f t).owner.transmitter.queue.stored := by
  induction ports generalizing t with
  | nil => exact .refl _
  | cons q qs ih =>
    obtain ⟨hrests, hserves⟩ := hf t q h
    exact hserves.subperm.trans (ih hrests)

/-- Calls on several connections in turn. -/
theorem Rests.foldl_ports {f : Table Desk → UInt8 → Table Desk}
    (hf : ∀ t q, Rests config t → Rests config (f t q) ∧ Serves q t (f t q)) {ports : List UInt8}
    (hports : ports.Nodup) (h : Rests config t) :
    Rests config (ports.foldl f t) ∧ (∀ port ∉ ports,
      (ports.foldl f t).entries.get port = t.entries.get port ∧
        (ports.foldl f t).owner.heldFor port = t.owner.heldFor port) ∧
      ∀ port, ∃ joined, Passes port t (ports.foldl f t) [] joined := by
  induction ports generalizing t with
  | nil => exact ⟨h, fun _ _ => ⟨rfl, rfl⟩, fun _ => ⟨[], .of_held rfl⟩⟩
  | cons q qs ih =>
    obtain ⟨hrests, hserves⟩ := hf t q h
    obtain ⟨hq, hqs⟩ := List.nodup_cons.1 hports
    obtain ⟨hall, hothers, hpasses⟩ := ih hqs hrests
    refine ⟨hall, fun port hport => ?_, fun port => ?_⟩
    · obtain ⟨hne, hnot⟩ := List.ne_and_not_mem_of_not_mem_cons hport
      exact ⟨(hothers port hnot).1.trans (hserves.others hne),
        (hothers port hnot).2.trans (hserves.heldFor h hne.symm)⟩
    · by_cases hport : port = q
      · subst hport
        obtain ⟨joined, hjoined⟩ : ∃ joined, Passes port t (f t port) [] joined := hserves.passes h
        exact ⟨joined, hjoined.before_same (hothers port hq).1 (hothers port hq).2⟩
      · obtain ⟨joined, hjoined⟩ := hpasses port
        have hfirst : Passes port t (f t q) [] [] := .of_held (hserves.heldFor h (Ne.symm hport))
        exact ⟨joined, hfirst.after_same (hserves.others hport) hjoined⟩

theorem nodup_ports (t : Table Desk) : t.ports.Nodup := by
  have hall : ((List.range 256).map UInt8.ofNat).Nodup :=
    List.Nodup.map_on (fun a ha b hb hab => by
      have hnat := congrArg UInt8.toNat hab
      simp only [UInt8.toNat_ofNat'] at hnat
      rw [List.mem_range] at ha hb
      omega) List.nodup_range
  unfold Table.ports ByteMap.keysWhere
  exact hall.filter _

theorem Rests.resetAll (h : Rests config t) (hvalid : config.Valid) :
    Rests config (t.resetAll attending) ∧
      ∀ port, ∃ joined, Passes port t (t.resetAll attending) [] joined := by
  obtain ⟨hrests, -, hpasses⟩ :=
    h.foldl_ports (fun _ q ht => ht.reset hvalid q) (nodup_ports t)
  exact ⟨hrests, hpasses⟩

theorem Rests.checkTimers (h : Rests config t) (hvalid : config.Valid) (now : Nat) :
    Rests config (t.checkTimers attending now) ∧
      (∀ port, ∃ joined, Passes port t (t.checkTimers attending now) [] joined) ∧
      t.owner.transmitter.queue.stored.Subperm
        (t.checkTimers attending now).owner.transmitter.queue.stored := by
  let check : Table Desk → UInt8 → Table Desk := fun t q =>
    (t.onSession attending q fun s => ((), s.checkTimers now)).2
  have hcheck : ∀ t q, Rests config t → Rests config (check t q) ∧ Serves q t (check t q) :=
    fun _ q ht => ht.onSession fun _ hs => hs.fares_checkTimers hvalid now
  obtain ⟨hrests, -, hpasses⟩ := h.foldl_ports hcheck (nodup_ports t)
  exact ⟨hrests, hpasses, subperm_foldl_ports hcheck t.ports h⟩

/-! ## Moves, one by one -/

/-- A message has at least one fragment. -/
theorem ne_nil_of_route {e : Engine} {q : UInt8} {message : List UInt8} {connected : Bool}
    {ps : List Packet} (hroute : e.route q message = .ok (connected, ps)) : ps ≠ [] := by
  obtain ⟨-, -, b, rfl⟩ := route_eq_ok hroute
  rw [← List.length_pos_iff, fragments, length_fragmentsOf]
  exact List.length_pos_iff.2 (piecesUpTo_ne_nil _ _ _)

theorem passes_retryResets (e : Engine) (port : UInt8) :
    Passes port e.connections (e.onDesk Desk.retryResets).connections
      (e.desk.released.filter fun p => p.header.src = port) [] where
  joins := .nothing
  balance := by
    rw [List.append_nil]
    exact heldFor_retryResets e.desk port

/-- Nothing that was kept has left, and the connections rest. -/
structure Retains (config : Config) (e e' : Engine) : Prop where
  rests : Rests config e'.connections
  passes : ∀ port, ∃ joined, Passes port e.connections e'.connections [] joined

section

variable {e : Engine} (h : Rests config e.connections) (hvalid : config.Valid)

include h

theorem Rests.onDesk (f : Desk → Desk) : Rests config (e.onDesk f).connections :=
  ⟨h.sessions, h.config⟩

theorem retains_same : Retains config e e := ⟨h, fun _ => ⟨[], .of_held rfl⟩⟩

/-- The desk does something that does not touch the resets that are kept. -/
theorem retains_onDesk {f : Desk → Desk} (hf : (f e.desk).heldResets = e.desk.heldResets) :
    Retains config e (e.onDesk f) where
  rests := h.onDesk f
  passes port := ⟨[], .of_held (congrArg (List.filter fun p : Packet => p.header.src = port) hf)⟩

theorem retains_call {q : UInt8} (hcall : Rests config t' ∧ Serves q e.connections t') :
    Retains config e ⟨t'⟩ :=
  ⟨hcall.1, fun _ => hcall.2.passes h⟩

theorem retains_start : Retains config e e.start := by
  unfold Engine.start
  split
  · exact retains_same h
  · exact retains_onDesk h rfl

theorem retains_bind (q : UInt8) (b : Binding) : Retains config e (e.bind q b).2 := by
  unfold Engine.bind
  split
  · exact retains_same h
  split
  · exact retains_same h
  split
  · exact retains_same h
  · exact retains_onDesk h rfl

theorem retains_sendMessage (now : Nat) (q : UInt8) (message : List UInt8) :
    Retains config e (e.sendMessage now q message).2 := by
  rw [sendMessage_eq]
  cases hroute : e.route q message with
  | error => exact retains_same h
  | ok routed =>
    obtain ⟨connected, ps⟩ := routed
    cases connected with
    | false => exact retains_onDesk h (e.desk.attends_submitDatagram ps).heldResets
    | true =>
      have hcall := h.passage e.desk.counters now q (ne_nil_of_route hroute)
      simp only
      rw [sendThroughConnection_eq]
      cases hpassage : passage attending e.desk.counters now q ps e.connections with
      | mk answer t' =>
        rw [hpassage] at hcall
        have hpassed := retains_call h hcall
        cases answer with
        | error => exact hpassed
        | ok =>
          refine ⟨hpassed.rests.onDesk _, fun port => ?_⟩
          obtain ⟨joined, hjoined⟩ := hpassed.passes port
          exact ⟨joined, hjoined.before_same rfl rfl⟩

theorem retains_receiveFrame (now : Nat) (channel : UInt8) (frame : List UInt8) :
    Retains config e (e.receiveFrame now channel frame) := by
  unfold Engine.receiveFrame
  split
  · exact retains_same h
  split
  · exact retains_onDesk h rfl
  split
  · exact retains_onDesk h rfl
  · exact retains_call h (h.receive now _)

/-- The resets that an earlier connection of the port left behind are dropped, those of other ports are
not. -/
theorem passes_openConnection (now : Nat) (localPort remotePort : UInt8) (options : Options) :
    Rests config (e.openConnection now localPort remotePort options).2.connections ∧
      ∀ port, localPort ≠ port → ∃ joined, Passes port e.connections
        (e.openConnection now localPort remotePort options).2.connections [] joined := by
  rw [openConnection_eq]
  cases e.ready localPort with
  | error => exact ⟨h, fun port _ => (retains_same h).passes port⟩
  | ok b =>
    have hcall := h.connect now localPort remotePort b.channel options
    simp only
    cases hconnect : e.connections.connect attending now localPort remotePort b.channel options with
    | mk answer t' =>
      rw [hconnect] at hcall
      have hpassed := retains_call h hcall
      cases answer with
      | error => exact ⟨hpassed.rests, fun port _ => hpassed.passes port⟩
      | ok =>
        refine ⟨hpassed.rests.onDesk _, fun port hne => ?_⟩
        obtain ⟨joined, hjoined⟩ := hpassed.passes port
        refine ⟨joined, hjoined.before_same rfl ?_⟩
        show List.filter _ (List.filter _ t'.owner.heldResets) = _
        rw [List.filter_filter]
        refine List.filter_congr fun p _ => ?_
        by_cases hsrc : p.header.src = port
        · simp [hsrc, Ne.symm hne]
        · simp [hsrc]

include hvalid

theorem retains_stop : Retains config e e.stop := by
  unfold Engine.stop
  split
  · exact retains_same h
  · let stopping := e.onDesk fun d => { d with active := false }
    have hstopping : Rests config stopping.connections := h.onDesk _
    obtain ⟨hrests, hpasses⟩ := hstopping.resetAll hvalid
    refine ⟨⟨hrests.sessions, hrests.config⟩, fun port => ?_⟩
    obtain ⟨joined, hjoined⟩ := hpasses port
    have hsame : Passes port e.connections stopping.connections [] [] := .of_held rfl
    have hreset := hsame.after_same rfl hjoined
    exact ⟨joined, hreset.before_same rfl rfl⟩

theorem retains_unbind (now : Nat) (q : UInt8) : Retains config e (e.unbind now q).2 := by
  unfold Engine.unbind
  split
  · exact retains_same h
  · let freed := e.onDesk fun d => { d with bindings := d.bindings.set q none }
    have hfreed : Rests config freed.connections := h.onDesk _
    have hclosed := retains_call hfreed (hfreed.close hvalid now q)
    refine ⟨hclosed.rests, fun port => ?_⟩
    obtain ⟨joined, hjoined⟩ := hclosed.passes port
    have hsame : Passes port e.connections freed.connections [] [] := .of_held rfl
    exact ⟨joined, hsame.after_same rfl hjoined⟩

theorem passes_fireTimer (now : Nat) : Rests config (e.fireTimer now).connections ∧
    ∀ port, ∃ joined, Passes port e.connections (e.fireTimer now).connections
      (e.releasedFor port (.fireTimer now)) joined := by
  unfold Engine.fireTimer releasedFor released
  cases e.desk.active with
  | false =>
    simp only [Bool.not_false, if_true, Bool.false_eq_true, if_false]
    exact ⟨h, (retains_same h).passes⟩
  | true =>
    have hretried : Rests config (e.onDesk Desk.retryResets).connections := h.onDesk _
    have hleft := passes_retryResets e
    simp only [Bool.not_true, Bool.false_eq_true, if_false, if_true]
    split
    · obtain ⟨hrests, hpasses, -⟩ := hretried.checkTimers hvalid now
      refine ⟨hrests, fun port => ?_⟩
      obtain ⟨joined, hjoined⟩ := hpasses port
      exact ⟨joined, (hleft port).after_same rfl hjoined⟩
    · exact ⟨hretried, fun port => ⟨[], hleft port⟩⟩

/-- The resets that are kept leave them for the transmit queue. -/
theorem takesReleased (a : Act) : e.TakesReleased a := by
  have hretried := (stored_retryResets e.desk).symm.subperm
  unfold TakesReleased
  cases a with
  | retryResets => exact .inr hretried
  | fireTimer now =>
    show (if e.desk.active then e.desk.released else []) = [] ∨ _
    cases hactive : e.desk.active with
    | false => exact .inl rfl
    | true =>
      refine .inr ?_
      have hreleased : e.released (.fireTimer now) = e.desk.released := if_pos hactive
      rw [hreleased]
      show List.Subperm _ (e.fireTimer now).desk.transmitter.queue.stored
      unfold Engine.fireTimer
      rw [hactive]
      simp only [Bool.not_true, Bool.false_eq_true, if_false]
      split
      · exact hretried.trans ((h.onDesk Desk.retryResets).checkTimers hvalid now).2.2
      · exact hretried
  | _ => exact .inl rfl

/-- Whatever happens to an engine, its connections rest afterwards; and if no connection is opened on a
port, the resets that are kept for it stay in line. -/
theorem passes_perform (a : Act) : Rests config (e.perform a).2.connections ∧
    ∀ port, ¬ a.Opens port → ∃ joined,
      Passes port e.connections (e.perform a).2.connections (e.releasedFor port a) joined := by
  have hfree : ∀ {a : Act}, Retains config e (e.perform a).2 → (∀ port, e.releasedFor port a = []) →
      Rests config (e.perform a).2.connections ∧ ∀ port, ¬ a.Opens port → ∃ joined,
        Passes port e.connections (e.perform a).2.connections (e.releasedFor port a) joined :=
    fun hretains hnone => ⟨hretains.rests, fun port _ => hnone port ▸ hretains.passes port⟩
  cases a with
  | start => exact hfree (a := .start) (retains_start h) fun _ => rfl
  | stop => exact hfree (a := .stop) (retains_stop h hvalid) fun _ => rfl
  | bind q b => exact hfree (a := .bind q b) (retains_bind h q b) fun _ => rfl
  | unbind now q => exact hfree (a := .unbind now q) (retains_unbind h hvalid now q) fun _ => rfl
  | closeConnection now q =>
    exact hfree (a := .closeConnection now q) (retains_call h (h.close hvalid now q)) fun _ => rfl
  | sendMessage now q message =>
    exact hfree (a := .sendMessage now q message) (retains_sendMessage h now q message) fun _ => rfl
  | openConnection now localPort remotePort options =>
    exact passes_openConnection h now localPort remotePort options
  | receiveFrame now channel frame =>
    exact hfree (a := .receiveFrame now channel frame) (retains_receiveFrame h now channel frame)
      fun _ => rfl
  | setLink up => exact hfree (a := .setLink up) (retains_onDesk h rfl) fun _ => rfl
  | fireTimer now =>
    obtain ⟨hrests, hpasses⟩ := passes_fireTimer h hvalid now
    exact ⟨hrests, fun port _ => hpasses port⟩
  | retryResets => exact ⟨h.onDesk _, fun port _ => ⟨[], passes_retryResets e port⟩⟩
  | checkTimers now q =>
    exact hfree (a := .checkTimers now q)
      (retains_call h (h.onSession fun _ hs => hs.fares_checkTimers hvalid now)) fun _ => rfl
  | resetConnection q =>
    exact hfree (a := .resetConnection q) (retains_call h (h.reset hvalid q)) fun _ => rfl
  | deliver => exact hfree (a := .deliver) (retains_onDesk h rfl) fun _ => rfl
  | takeNotices => exact hfree (a := .takeNotices) (retains_onDesk h rfl) fun _ => rfl
  | step w => exact hfree (a := .step w) (retains_onDesk h rfl) fun _ => rfl
  | settle w reply => exact hfree (a := .settle w reply) (retains_onDesk h rfl) fun _ => rfl

end

/-! ## Runs -/

theorem rests_fresh (config : Config) : Rests config (fresh config).connections where
  sessions port e he := by
    rw [show (fresh config).connections.entries = .const none from rfl, ByteMap.get_const] at he
    cases he
  config := rfl

/-- Whatever happens to an engine, its connections rest between two acts. -/
theorem rests_run {e : Engine} (h : Rests config e.connections) (hvalid : config.Valid)
    (acts : List Act) : Rests config (e.after acts).connections := by
  induction acts using List.reverseRecOn with
  | nil => exact h
  | append_singleton acts a ih =>
    rw [after_concat]
    exact (passes_perform ih hvalid a).1

theorem rests_after (hvalid : config.Valid) (acts : List Act) :
    Rests config ((fresh config).after acts).connections :=
  rests_run (rests_fresh config) hvalid acts

/-- What joins the resets that are kept for a port during a run, act by act. -/
inductive Joining (port : UInt8) : Engine → List Act → List Packet → Prop where
  | done (e : Engine) : Joining port e [] []
  | step {e : Engine} {a : Act} {acts : List Act} {first others : List Packet}
      (joins : Joins port e.connections (e.perform a).2.connections first)
      (rest : Joining port (e.perform a).2 acts others) : Joining port e (a :: acts) (first ++ others)

/-- The resets that are kept for a port during a run: those that leave it were there first, and either
nothing has left or all that was there in the beginning. -/
theorem passes_run {e : Engine} (h : Rests config e.connections) (hvalid : config.Valid)
    {acts : List Act} (hacts : ∀ a ∈ acts, ¬ a.Opens port) :
    ∃ joined, Joining port e acts joined ∧
      e.desk.heldFor port ++ joined =
        e.releasedDuring port acts ++ (e.after acts).desk.heldFor port ∧
      (e.releasedDuring port acts = [] ∨
        ∃ later, e.releasedDuring port acts = e.desk.heldFor port ++ later) := by
  induction acts generalizing e with
  | nil => exact ⟨[], .done e, List.append_nil _, .inl rfl⟩
  | cons a acts ih =>
    obtain ⟨hrests, hpasses⟩ := passes_perform h hvalid a
    obtain ⟨first, hjoins, hbalance⟩ := hpasses port (hacts a List.mem_cons_self)
    obtain ⟨others, hjoining, hrest, hall⟩ :=
      ih hrests fun x hx => hacts x (List.mem_cons_of_mem a hx)
    have hfirst : e.desk.heldFor port ++ first =
        e.releasedFor port a ++ (e.perform a).2.desk.heldFor port := hbalance
    refine ⟨first ++ others, .step hjoins hjoining, ?_, ?_⟩
    · show _ = (e.releasedFor port a ++ (e.perform a).2.releasedDuring port acts) ++
        ((e.perform a).2.after acts).desk.heldFor port
      rw [← List.append_assoc, hfirst, List.append_assoc, hrest, List.append_assoc]
    · show e.releasedFor port a ++ (e.perform a).2.releasedDuring port acts = [] ∨
        ∃ later, e.releasedFor port a ++ (e.perform a).2.releasedDuring port acts = _
      rcases releasedFor_cases e port a with hnone | hleft
      · rw [hnone, List.nil_append] at hfirst ⊢
        rcases hall with hnil | ⟨later, hlater⟩
        · exact .inl hnil
        · exact .inr ⟨first ++ later, by rw [hlater, ← hfirst, List.append_assoc]⟩
      · exact .inr ⟨_, by rw [hleft]⟩

/-! ## The reset of a connection -/

/-- A connection that is reset parts. -/
theorem Rests.parts_reset (h : Rests config t) (hvalid : config.Valid) {s : Session}
    (hs : t.session? port = some s) :
    (t.reset attending port).1 = .ok () ∧ Parts port s t (t.reset attending port).2 := by
  obtain ⟨entry, hget, rfl⟩ := Option.map_eq_some_iff.1 hs
  have hresting := h.sessions port entry hget
  have hanswer : (t.reset attending port).1 = .ok () := by
    unfold Table.reset Table.orElse Table.onSession
    rw [hget]
    rfl
  obtain ⟨-, ⟨hcalm, -⟩ | ⟨-, hparts⟩⟩ := h.onSession_of_get hget
    (f := fun s => ((.ok () : Except Error Unit), s.reset)) (hresting.fares_reset hvalid)
  · rw [hresting.reset_eq hvalid] at hcalm
    exact absurd rfl hcalm
  · exact ⟨hanswer, hparts⟩

/-- However full the queues of an engine are, a connection that is reset is gone, and its farewell, a
reset from its port, is all that it leaves: either the transmit queue has taken it, or it is the last one
of the resets that are kept.  In the second case it stays in line there until it leaves with all that
were kept, unless a connection is opened on the port; and what leaves, the transmit queue takes. -/
theorem farewell_passes_on (hvalid : config.Valid) (acts : List Act) {s : Session}
    (hs : ((fresh config).after acts).connections.session? port = some s) :
    let e := (fresh config).after acts
    let e' := (e.resetConnection port).2
    (e.resetConnection port).1 = .ok () ∧
      e'.connections.entries = e.connections.entries.set port none ∧
      s.farewell.header.flags = .resetting ∧ s.farewell.header.src = port ∧
      (e'.desk.heldResets = e.desk.heldResets ∧ e'.desk.transmitter.queue.stored.Perm
          ((Desk.numberTransmit e.desk.counters [s.farewell]).1 ++ e.desk.transmitter.queue.stored) ∨
        e'.desk.heldResets = e.desk.heldResets ++ [s.farewell] ∧
          e'.desk.transmitter = e.desk.transmitter ∧
          ∀ later : List Act, (∀ a ∈ later, ¬ a.Opens port) →
            ∃ joined, Joining port e' later joined ∧
              e'.desk.heldFor port ++ joined =
                e'.releasedDuring port later ++ (e'.after later).desk.heldFor port ∧
              (e'.releasedDuring port later = [] ∨
                ∃ rest, e'.releasedDuring port later = e'.desk.heldFor port ++ rest) ∧
              ∀ before a after, later = before ++ a :: after →
                (e'.after before).TakesReleased a) := by
  intro e e'
  have hrests := rests_after hvalid acts
  have hrests' : Rests config e'.connections := (passes_perform hrests hvalid (.resetConnection port)).1
  obtain ⟨hanswer, hparts⟩ := hrests.parts_reset hvalid hs
  refine ⟨hanswer, hparts.entries, rfl, (hrests.resting hs).localPort, ?_⟩
  have howner : e.desk.Dismisses s.farewell e'.desk := hparts.owner
  generalize hdesk : e'.desk = d at howner
  cases howner with
  | queued => exact .inl ⟨rfl, stored_queued e.desk _⟩
  | kept =>
    refine .inr ⟨rfl, rfl, fun later hlater => ?_⟩
    obtain ⟨joined, hjoining, hbalance, hall⟩ := passes_run hrests' hvalid hlater
    refine ⟨joined, hjoining, hdesk ▸ hbalance, hdesk ▸ hall, fun before a after _ => ?_⟩
    exact takesReleased (rests_run hrests' hvalid before) hvalid a

/-- Queues that hold one packet each. -/
def singlePacket : Config where
  mtu := 13
  queueCapacity := 13
  connectionQueueCapacity := 13
  maxFragments := 1
  window := 1

theorem valid_singlePacket : singlePacket.Valid := by
  constructor <;> decide

/-- A connection whose first packet fills the transmit queue. -/
def crowding : List Act := [.start, .bind 1 ⟨0, 2, {}⟩, .openConnection 0 1 2 {}]

/-- A reset that finds the transmit queue full is kept, and is queued once the link has taken a packet. -/
theorem farewell_passes_on_of_full :
    let e := (fresh singlePacket).after crowding
    let e' := (e.resetConnection 1).2
    ∃ s, e.connections.session? 1 = some s ∧ e'.desk.heldResets = [s.farewell] ∧
      e'.releasedDuring 1 [.step 0, .step 0, .settle 0 (.ok ()), .retryResets] = [s.farewell] := by
  intro e e'
  have hsome : (e.connections.session? 1).isSome = true := by decide +kernel
  obtain ⟨s, hs⟩ := Option.isSome_iff_exists.1 hsome
  have hheld : e.desk.heldResets = [] := by decide +kernel
  have hkept : e'.desk.heldResets ≠ e.desk.heldResets := by decide +kernel
  have hreleased : (e'.releasedDuring 1
      [.step 0, .step 0, .settle 0 (.ok ()), .retryResets]).length = 1 := by decide +kernel
  obtain ⟨-, -, -, hsrc, ⟨hsame, -⟩ | ⟨hlast, -, hlater⟩⟩ :=
    farewell_passes_on valid_singlePacket crowding hs
  · exact absurd hsame hkept
  have hone : e'.desk.heldResets = [s.farewell] := by
    rw [hlast, hheld]
    rfl
  have hfor : e'.desk.heldFor 1 = [s.farewell] := by
    unfold Desk.heldFor
    rw [hone]
    simp [hsrc]
  obtain ⟨joined, -, -, hnone | ⟨rest, hall⟩, -⟩ :=
    hlater [.step 0, .step 0, .settle 0 (.ok ()), .retryResets] (by simp [Act.Opens])
  · rw [show e'.releasedDuring 1 _ = [] from hnone] at hreleased
    cases hreleased
  · have hrest : e'.releasedDuring 1 _ = e'.desk.heldFor 1 ++ rest := hall
    rw [hrest, hfor, List.length_append] at hreleased
    have hnil : rest = [] := List.length_eq_zero_iff.1 (by simpa using hreleased)
    exact ⟨s, hs, hone, by rw [hrest, hfor, hnil]; rfl⟩

end NarrowLink.Engine

import NarrowLink.Connection.InFlight

/-!
# When packets are sent again

`InFlight.Call` lists what is asked of the packets in flight, each call at some time.  A log beside them
notes when each packet was sent and sent again (`Trip`).  It keeps no timers: a packet is due when it has
waited since the last of these times, and the longer the more of them there are (`Log.note`).

As long as no packet has used up its retransmissions, the packets in flight are those that wait in the
log, and their timers say what the log says (`Log.Tracks`).  So what is due can be read off the log
(`Log.Predicts`), and no packet is sent again too early or too often (`Trip.Regular`).  `keepsSchedule`
puts this together with the bounds of the waiting time, which never gets shorter.
-/

namespace NarrowLink.Connection.InFlight

open Wire

/-- What is asked of the packets in flight. -/
inductive Call where
  /-- A packet was sent. -/
  | push (p : Packet)
  /-- All packets before a number were acknowledged. -/
  | acknowledgeBefore (ack : UInt8)
  /-- All packets in an inclusive range of numbers were acknowledged. -/
  | acknowledgeWithin (first last : UInt8)
  /-- What is due is collected. -/
  | due

/-- The packets in flight after a call at some time. -/
def apply (config : Config) (f : InFlight) (now : Nat) : Call → InFlight
  | .push p => f.push p now
  | .acknowledgeBefore ack => f.acknowledgeBefore ack
  | .acknowledgeWithin first last => f.acknowledgeWithin first last
  | .due => (f.due config now).2

/-- The packets in flight after a run of calls. -/
def after (config : Config) (f : InFlight) (run : List (Nat × Call)) : InFlight :=
  run.foldl (fun f c => f.apply config c.1 c.2) f

/-- No packet has used up its retransmissions when the run asks what is due. -/
def Ongoing (config : Config) : InFlight → List (Nat × Call) → Prop
  | _, [] => True
  | f, (now, c) :: run => (c = .due → ∀ n, (f.due config now).1 ≠ .exhausted n) ∧
      Ongoing config (f.apply config now c) run

/-! ## The log -/

/-- Between the times lie the waits, one after the other. -/
def Spaced (wait : Nat → Nat) (times : List Nat) : Prop :=
  ∀ k (h : k + 1 < times.length), times[k] + wait k ≤ times[k + 1]

/-- A packet and the times at which it was sent. -/
structure Trip where
  packet : Packet
  /-- When it was sent first. -/
  sent : Nat
  /-- When it was sent again, first to last. -/
  again : List Nat

namespace Trip

/-- All times at which the packet was sent. -/
def times (t : Trip) : List Nat := t.sent :: t.again

/-- When the packet was sent last. -/
def last (t : Trip) : Nat := t.times.getLast (List.cons_ne_nil _ _)

/-- The packet has waited as long as it should before it is sent again. -/
def IsDue (config : Config) (now : Nat) (t : Trip) : Prop :=
  backoff config t.again.length ≤ now - t.last

/-- The packet was sent again as often as it may be, and has waited once more. -/
def IsSpent (config : Config) (now : Nat) (t : Trip) : Prop :=
  t.again.length = config.maxRetransmissions ∧
    backoff config config.maxRetransmissions ≤ now - t.last

instance (config : Config) (now : Nat) (t : Trip) : Decidable (t.IsDue config now) :=
  inferInstanceAs (Decidable (_ ≤ _))

instance (config : Config) (now : Nat) (t : Trip) : Decidable (t.IsSpent config now) :=
  inferInstanceAs (Decidable (_ ∧ _))

/-- Sends the packet again if it is due. -/
def next (config : Config) (now : Nat) (t : Trip) : Trip :=
  if t.IsDue config now then { t with again := t.again ++ [now] } else t

/-- The packet is sent again no more often than it may be, and each time after the wait that is due. -/
structure Regular (config : Config) (t : Trip) : Prop where
  length_le : t.again.length ≤ config.maxRetransmissions
  spaced : Spaced (backoff config) t.times

/-- What is kept of the packet while it is in flight. -/
def flight (t : Trip) : Flight := ⟨t.packet, t.last, t.again.length⟩

end Trip

/-- What is noted of the packets that were sent. -/
structure Log where
  /-- Those that are not acknowledged, in the order in which they were sent first. -/
  waiting : List Trip := []
  /-- Those that are. -/
  gone : List Trip := []

namespace Log

/-- Notes that the packets with some property are acknowledged. -/
def remove (log : Log) (acknowledged : Trip → Bool) : Log :=
  ⟨log.waiting.filter (!acknowledged ·), log.gone ++ log.waiting.filter acknowledged⟩

/-- Notes a call at some time. -/
def note (config : Config) (log : Log) (now : Nat) : Call → Log
  | .push p => { log with waiting := log.waiting ++ [⟨p, now, []⟩] }
  | .acknowledgeBefore ack => log.remove fun t => Serial.precedes t.packet.header.relSeq ack
  | .acknowledgeWithin first last =>
    log.remove fun t => Serial.inRange t.packet.header.relSeq first last
  | .due => { log with waiting := log.waiting.map (Trip.next config now) }

/-- Notes a run of calls. -/
def after (config : Config) (log : Log) (run : List (Nat × Call)) : Log :=
  run.foldl (fun log c => log.note config c.1 c.2) log

/-- What is due at some time is what the log says, and to ask for it changes neither which packets are in
flight nor their order. -/
structure Predicts (config : Config) (now : Nat) (log : Log) (f : InFlight) : Prop where
  packets : f.flights.map Flight.packet = log.waiting.map Trip.packet
  unchanged : (f.due config now).2.flights.map Flight.packet = f.flights.map Flight.packet
  due_iff : ∀ ps, (f.due config now).1 = .packets ps ↔
    (∀ t ∈ log.waiting, ¬ t.IsSpent config now) ∧
      ps = (log.waiting.filter fun t => t.IsDue config now).map Trip.packet
  exhausted_iff : ∀ n, (f.due config now).1 = .exhausted n ↔
    ∃ t, log.waiting.find? (fun t => t.IsSpent config now) = some t ∧ t.packet.header.relSeq = n

/-- The packets in flight are those that wait in the log, at some time after the last call. -/
structure Tracks (config : Config) (now : Nat) (log : Log) (f : InFlight) : Prop where
  flights : f.flights = log.waiting.map Trip.flight
  regular : ∀ t ∈ log.waiting ++ log.gone, t.Regular config
  past : ∀ t ∈ log.waiting, t.last ≤ now

end Log

variable {config : Config} {now : Nat} {t : Trip} {ts : List Trip} {log : Log} {f : InFlight}

/-! ## The waiting time -/

theorem factor_mono {m n : Nat} (h : m ≤ n) : factor m ≤ factor n := by
  unfold factor
  by_cases hn : n < 32
  · rw [if_pos (Nat.lt_of_le_of_lt h hn), if_pos hn, Nat.one_shiftLeft, Nat.one_shiftLeft]
    exact Nat.pow_le_pow_right Nat.two_pos h
  · rw [if_neg hn]
    split
    · rename_i hm
      rw [Nat.one_shiftLeft]
      exact Nat.le_trans (Nat.pow_le_pow_right Nat.two_pos (Nat.le_of_lt_succ hm)) (by decide)
    · exact Nat.le_refl _

/-- A packet waits no shorter after more retransmissions. -/
theorem backoff_mono (config : Config) {m n : Nat} (h : m ≤ n) :
    backoff config m ≤ backoff config n := by
  have hle := Nat.mul_le_mul_left config.timeout (factor_mono h)
  unfold backoff
  omega

theorem timeout_le_backoff (h : config.timeout ≤ config.maxTimeout) (n : Nat) :
    config.timeout ≤ backoff config n := by
  have hfirst : backoff config 0 = config.timeout := by
    rw [backoff, factor, if_pos (by decide), Nat.shiftLeft_zero, Nat.mul_one, Nat.min_eq_left h]
  rw [← hfirst]
  exact backoff_mono config (Nat.zero_le n)

/-! ## What is due -/

theorem Spaced.concat {wait : Nat → Nat} {times : List Nat} (h : Spaced wait times)
    (hne : times ≠ []) (hlast : times.getLast hne + wait (times.length - 1) ≤ now) :
    Spaced wait (times ++ [now]) := by
  intro k hk
  rw [List.length_append, List.length_singleton] at hk
  rw [List.getElem_append_left (by omega)]
  by_cases hin : k + 1 < times.length
  · rw [List.getElem_append_left hin]
    exact h k hin
  · have hk' : k = times.length - 1 := by omega
    subst hk'
    rw [List.getElem_append_right (by omega), ← List.getLast_eq_getElem hne]
    simpa using hlast

namespace Trip

theorem next_of_due (h : t.IsDue config now) :
    t.next config now = { t with again := t.again ++ [now] } := if_pos h

theorem next_of_not_due (h : ¬ t.IsDue config now) : t.next config now = t := if_neg h

theorem last_concat (t : Trip) (now : Nat) : last { t with again := t.again ++ [now] } = now := by
  show ((t.sent :: t.again) ++ [now]).getLast _ = now
  exact List.getLast_concat

/-- A packet that is due and not spent has retransmissions left. -/
theorem Regular.length_lt (h : t.Regular config) (hdue : t.IsDue config now)
    (hspent : ¬ t.IsSpent config now) : t.again.length < config.maxRetransmissions := by
  refine Nat.lt_of_le_of_ne h.length_le fun he => hspent ⟨he, ?_⟩
  rw [← he]
  exact hdue

theorem Regular.next (h : t.Regular config) (hpast : t.last ≤ now)
    (hspent : ¬ t.IsSpent config now) : (t.next config now).Regular config := by
  by_cases hdue : t.IsDue config now
  · rw [next_of_due hdue]
    refine ⟨?_, h.spaced.concat (List.cons_ne_nil _ _) ?_⟩
    · rw [List.length_append]
      exact h.length_lt hdue hspent
    · have hwaited : backoff config t.again.length ≤ now - t.last := hdue
      show t.last + backoff config t.again.length ≤ now
      omega
  · rwa [next_of_not_due hdue]

theorem last_next_le (hpast : t.last ≤ now) : (t.next config now).last ≤ now := by
  by_cases hdue : t.IsDue config now
  · rw [next_of_due hdue]
    exact Nat.le_of_eq (last_concat _ _)
  · rwa [next_of_not_due hdue]

theorem flight_next_of_due (hdue : t.IsDue config now) :
    (t.next config now).flight = ⟨t.packet, now, t.again.length + 1⟩ := by
  rw [next_of_due hdue, flight, last_concat, List.length_append]
  rfl

end Trip

theorem collect_of_not_due (h : ¬ t.IsDue config now) (es : List Flight) :
    collect config now (t.flight :: es) =
      ((collect config now es).1, t.flight :: (collect config now es).2) := by
  have hwait : now - t.flight.sentAt < backoff config t.flight.retries := Nat.lt_of_not_le h
  rw [collect, if_pos hwait]

theorem collect_of_spent (h : t.IsSpent config now) (es : List Flight) :
    (collect config now (t.flight :: es)).1 = .exhausted t.packet.header.relSeq := by
  obtain ⟨hlen, hwaited⟩ := h
  have hdue : ¬ now - t.flight.sentAt < backoff config t.flight.retries := by
    rw [← hlen] at hwaited
    exact Nat.not_lt.2 hwaited
  have hmax : config.maxRetransmissions ≤ t.flight.retries := Nat.le_of_eq hlen.symm
  rw [collect, if_neg hdue, if_pos hmax]
  rfl

theorem collect_of_due (h : t.IsDue config now) (hlt : t.again.length < config.maxRetransmissions)
    (es : List Flight) :
    collect config now (t.flight :: es) = match collect config now es with
      | (.packets ps, es') => (.packets (t.packet :: ps), (t.next config now).flight :: es')
      | (.exhausted n, es') => (.exhausted n, (t.next config now).flight :: es') := by
  have hdue : ¬ now - t.flight.sentAt < backoff config t.flight.retries := Nat.not_lt.2 h
  have hmax : ¬ config.maxRetransmissions ≤ t.flight.retries := Nat.not_le.2 hlt
  rw [collect, if_neg hdue, if_neg hmax, Trip.flight_next_of_due h]
  rfl

/-- If no packet is spent, then precisely those are sent again that are due. -/
theorem collect_eq (hregular : ∀ t ∈ ts, t.Regular config)
    (hnone : ∀ t ∈ ts, ¬ t.IsSpent config now) :
    collect config now (ts.map Trip.flight) =
      (.packets ((ts.filter fun t => t.IsDue config now).map Trip.packet),
        (ts.map (Trip.next config now)).map Trip.flight) := by
  induction ts with
  | nil => rfl
  | cons t ts ih =>
    have ih := ih (fun t ht => hregular t (List.mem_cons_of_mem _ ht))
      fun t ht => hnone t (List.mem_cons_of_mem _ ht)
    simp only [List.map_cons]
    by_cases hdue : t.IsDue config now
    · have hlt := (hregular t List.mem_cons_self).length_lt hdue (hnone t List.mem_cons_self)
      rw [collect_of_due hdue hlt, ih, List.filter_cons_of_pos (by simpa using hdue)]
      rfl
    · rw [collect_of_not_due hdue, ih, List.filter_cons_of_neg (by simpa using hdue),
        Trip.next_of_not_due hdue]

/-- The first packet that is spent ends the search. -/
theorem collect_of_find? (hregular : ∀ t ∈ ts, t.Regular config)
    (h : ts.find? (fun t => t.IsSpent config now) = some t) :
    (collect config now (ts.map Trip.flight)).1 = .exhausted t.packet.header.relSeq := by
  induction ts with
  | nil => cases h
  | cons s ts ih =>
    by_cases hspent : s.IsSpent config now
    · rw [List.find?_cons_of_pos (by simpa using hspent)] at h
      cases h
      exact collect_of_spent hspent _
    · rw [List.find?_cons_of_neg (by simpa using hspent)] at h
      have ih := ih (fun t ht => hregular t (List.mem_cons_of_mem _ ht)) h
      rw [List.map_cons]
      by_cases hdue : s.IsDue config now
      · have hlt := (hregular s List.mem_cons_self).length_lt hdue hspent
        rw [collect_of_due hdue hlt]
        rcases hrest : collect config now (ts.map Trip.flight) with ⟨d, es⟩
        rw [hrest] at ih
        simp only at ih
        rw [ih]
      · rw [collect_of_not_due hdue]
        exact ih

/-! ## Runs of calls -/

namespace Log

theorem Tracks.mono (h : log.Tracks config now f) {later : Nat} (hle : now ≤ later) :
    log.Tracks config later f where
  flights := h.flights
  regular := h.regular
  past t ht := Nat.le_trans (h.past t ht) hle

theorem Tracks.due_eq (h : log.Tracks config now f)
    (hnone : ∀ t ∈ log.waiting, ¬ t.IsSpent config now) :
    f.due config now =
      (.packets ((log.waiting.filter fun t => t.IsDue config now).map Trip.packet),
        ⟨(log.waiting.map (Trip.next config now)).map Trip.flight⟩) := by
  have hregular : ∀ t ∈ log.waiting, t.Regular config := fun t ht =>
    h.regular t (List.mem_append_left _ ht)
  rw [due, h.flights, collect_eq hregular hnone]

theorem Tracks.due_fst_of_find? (h : log.Tracks config now f)
    (hfind : log.waiting.find? (fun t => t.IsSpent config now) = some t) :
    (f.due config now).1 = .exhausted t.packet.header.relSeq := by
  have hregular : ∀ t ∈ log.waiting, t.Regular config := fun t ht =>
    h.regular t (List.mem_append_left _ ht)
  rw [due, h.flights]
  exact collect_of_find? hregular hfind

theorem Tracks.predicts (h : log.Tracks config now f) : log.Predicts config now f := by
  have hpackets : f.flights.map Flight.packet = log.waiting.map Trip.packet := by
    rw [h.flights, List.map_map]
    rfl
  cases hfind : log.waiting.find? fun t => t.IsSpent config now with
  | none =>
    have hnone : ∀ t ∈ log.waiting, ¬ t.IsSpent config now := by simpa using hfind
    have hdue := congrArg Prod.fst (h.due_eq hnone)
    refine ⟨hpackets, map_packet_due f config now, fun ps => ?_, fun n => ?_⟩
    · rw [hdue, Due.packets.injEq]
      exact ⟨fun he => ⟨hnone, he.symm⟩, fun he => he.2.symm⟩
    · rw [hdue, hfind]
      simp
  | some t =>
    have hdue := h.due_fst_of_find? hfind
    refine ⟨hpackets, map_packet_due f config now, fun ps => ?_, fun n => ?_⟩
    · rw [hdue]
      refine ⟨fun he => Due.noConfusion he, fun he => absurd ?_ (he.1 t (List.mem_of_find?_eq_some hfind))⟩
      simpa using List.find?_some hfind
    · rw [hdue, hfind, Due.exhausted.injEq]
      simp

theorem tracks_empty (config : Config) : Tracks config 0 {} {} where
  flights := rfl
  regular _ ht := absurd ht List.not_mem_nil
  past _ ht := absurd ht List.not_mem_nil

theorem Tracks.push (h : log.Tracks config now f) (p : Packet) :
    (log.note config now (.push p)).Tracks config now (f.push p now) where
  flights := by
    show f.flights ++ [_] = (log.waiting ++ [_]).map Trip.flight
    rw [h.flights, List.map_append]
    rfl
  regular t ht := by
    simp only [note, List.mem_append, List.mem_singleton] at ht
    rcases ht with (ht | rfl) | ht
    · exact h.regular t (List.mem_append_left _ ht)
    · refine ⟨Nat.zero_le _, fun k hk => ?_⟩
      simp [Trip.times] at hk
    · exact h.regular t (List.mem_append_right _ ht)
  past t ht := by
    simp only [note, List.mem_append, List.mem_singleton] at ht
    rcases ht with ht | rfl
    · exact h.past t ht
    · exact Nat.le_refl _

/-- Packets are acknowledged by what is in their headers. -/
theorem Tracks.remove (h : log.Tracks config now f) (acknowledged : Packet → Bool) :
    (log.remove fun t => acknowledged t.packet).Tracks config now
      ⟨f.flights.filter fun e => !acknowledged e.packet⟩ where
  flights := by
    show f.flights.filter _ = (log.waiting.filter _).map Trip.flight
    rw [h.flights, List.filter_map]
    rfl
  regular t ht := by
    simp only [Log.remove, List.mem_append, List.mem_filter] at ht
    rcases ht with ⟨ht, -⟩ | ht | ⟨ht, -⟩
    · exact h.regular t (List.mem_append_left _ ht)
    · exact h.regular t (List.mem_append_right _ ht)
    · exact h.regular t (List.mem_append_left _ ht)
  past t ht := h.past t (List.mem_filter.1 ht).1

theorem Tracks.due (h : log.Tracks config now f)
    (hgoing : ∀ n, (f.due config now).1 ≠ .exhausted n) :
    (log.note config now .due).Tracks config now (f.due config now).2 := by
  have hnone : ∀ t ∈ log.waiting, ¬ t.IsSpent config now := by
    cases hfind : log.waiting.find? fun t => t.IsSpent config now with
    | none => simpa using hfind
    | some t => exact absurd (h.due_fst_of_find? hfind) (hgoing _)
  refine ⟨by rw [h.due_eq hnone]; rfl, fun t ht => ?_, fun t ht => ?_⟩
  · rcases List.mem_append.1 ht with ht | ht
    · obtain ⟨s, hs, rfl⟩ := List.mem_map.1 ht
      exact (h.regular s (List.mem_append_left _ hs)).next (h.past s hs) (hnone s hs)
    · exact h.regular t (List.mem_append_right _ ht)
  · obtain ⟨s, hs, rfl⟩ := List.mem_map.1 ht
    exact Trip.last_next_le (h.past s hs)

theorem Tracks.apply (h : log.Tracks config now f) {c : Call}
    (hgoing : c = .due → ∀ n, (f.due config now).1 ≠ .exhausted n) :
    (log.note config now c).Tracks config now (f.apply config now c) := by
  cases c with
  | push p => exact h.push p
  | acknowledgeBefore ack => exact h.remove fun p => Serial.precedes p.header.relSeq ack
  | acknowledgeWithin first last => exact h.remove fun p => Serial.inRange p.header.relSeq first last
  | due => exact h.due (hgoing rfl)

/-- Nothing is lost between the log and the packets in flight until a packet is spent. -/
theorem Tracks.after {run : List (Nat × Call)} {later : Nat} (h : log.Tracks config now f)
    (hsorted : (now :: (run.map Prod.fst ++ [later])).Pairwise (· ≤ ·))
    (hongoing : Ongoing config f run) :
    (log.after config run).Tracks config later (f.after config run) := by
  induction run generalizing now log f with
  | nil =>
    rw [List.pairwise_cons] at hsorted
    exact h.mono (hsorted.1 later (by simp))
  | cons c run ih =>
    obtain ⟨time, c⟩ := c
    obtain ⟨hgoing, hongoing⟩ := hongoing
    rw [List.pairwise_cons] at hsorted
    exact ih ((h.mono (hsorted.1 time (by simp))).apply hgoing) hsorted.2 hongoing

end Log

/-- As long as no packet has used up its retransmissions, what is due is what the log says, at whatever
time it is asked for.  No packet is sent again more often than it may be, or before it has waited as long
as it should.  The wait gets no shorter with the number of retransmissions, and keeps between the bounds
of the configuration. -/
theorem keepsSchedule (config : Config) (hconfig : config.validate = .ok ()) (run : List (Nat × Call))
    (now : Nat) (hsorted : (run.map Prod.fst ++ [now]).Pairwise (· ≤ ·))
    (hongoing : Ongoing config {} run) :
    Log.Predicts config now (Log.after config {} run) (after config {} run) ∧
      (∀ t ∈ (Log.after config {} run).waiting ++ (Log.after config {} run).gone,
        t.Regular config) ∧
      (∀ m n, m ≤ n → backoff config m ≤ backoff config n) ∧
      ∀ n, config.timeout ≤ backoff config n ∧ backoff config n ≤ config.maxTimeout := by
  have hvalid := config.validate_eq_ok_iff.1 hconfig
  have htracks := (Log.tracks_empty config).after
    (List.pairwise_cons.2 ⟨fun _ _ => Nat.zero_le _, hsorted⟩) hongoing
  exact ⟨htracks.predicts, htracks.regular, fun _ _ => backoff_mono config,
    fun n => ⟨timeout_le_backoff hvalid.timeout_le n, backoff_le config n⟩⟩

/-- Packets are sent again after 100, 200 and 400 milliseconds, but only twice. -/
def brisk : Config := { timeout := 100, maxTimeout := 1000, maxRetransmissions := 2 }

/-- The packet of a connection with a number in its reliable sequence. -/
def numbered (relSeq : UInt8) : Packet :=
  ⟨{ kind := .connection, dst := 2, src := 1, relSeq := relSeq }, [120], 0⟩

/-- Three packets are sent, of which the last one is acknowledged before it is due. -/
def threeSent : List (Nat × Call) :=
  [(0, .push (numbered 1)), (50, .push (numbered 2)), (60, .push (numbered 3)), (99, .due),
    (100, .due), (200, .acknowledgeWithin 3 3), (300, .due)]

theorem keepsSchedule_of_threeSent :
    brisk.validate = .ok () ∧ (threeSent.map Prod.fst ++ [700]).Pairwise (· ≤ ·) ∧
      Ongoing brisk {} threeSent ∧
      Log.Predicts brisk 700 (Log.after brisk {} threeSent) (after brisk {} threeSent) ∧
      (∀ t ∈ (Log.after brisk {} threeSent).waiting ++ (Log.after brisk {} threeSent).gone,
        t.Regular brisk) ∧
      ((after brisk {} threeSent).due brisk 700).1 = .exhausted 1 := by
  have hsorted : (threeSent.map Prod.fst ++ [700]).Pairwise (· ≤ ·) := by decide
  have hongoing : Ongoing brisk {} threeSent := by
    refine ⟨nofun, nofun, nofun, fun _ n => ?_, fun _ n => ?_, nofun, fun _ n => ?_, trivial⟩
    · exact (nofun : Due.packets [] ≠ .exhausted n)
    · exact (nofun : Due.packets [numbered 1] ≠ .exhausted n)
    · exact (nofun : Due.packets [numbered 1, numbered 2] ≠ .exhausted n)
  obtain ⟨hpredicts, hregular, -⟩ := keepsSchedule brisk rfl threeSent 700 hsorted hongoing
  exact ⟨rfl, hsorted, hongoing, hpredicts, hregular, by decide +kernel⟩

end NarrowLink.Connection.InFlight

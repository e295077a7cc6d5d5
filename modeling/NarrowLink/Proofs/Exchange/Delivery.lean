import NarrowLink.Proofs.Exchange.Invariant
import NarrowLink.Proofs.Session.Intake

/-!
# What is sent is handed out in order

An end that hands out what is in sequence after each packet hands out what its peer was asked to send,
in order and without gaps, from the first packet on (`handed_prefix`).

The inbound queue holds what was taken beyond a gap (`Awaits`).  It orders packets by the bytes of
their numbers, which are those of counts in one window (`Stock.add`), so that what comes before the
number that is expected next is a run without gaps (`pieces_takeWhile`).
-/

namespace NarrowLink.Connection

open Wire

/-- A packet in an inbound queue, and the number that it was taken under. -/
structure Arrival where
  number : Nat
  packet : Packet

/-- The packet shows an application what the peer was asked to send. -/
def Arrival.Carries (gy : Ledger) (a : Arrival) : Prop :=
  a.packet.header.relSeq = Serial.forward 0 a.number ∧
    ∃ q, gy.sent[a.number]? = some q ∧ Piece.of a.packet = Piece.of q

/-- The inbound queue of an end. -/
structure Stock (t : Terms) (x : Role) (s : Session) (gy : Ledger) (as : List Arrival) : Prop where
  holds : s.inbound.Holds (t.port x) (as.map Arrival.packet)
  sorted : as.Pairwise fun a b => a.number < b.number
  carries : ∀ a ∈ as, a.Carries gy

variable {t : Terms} {x : Role} {s s' : Session} {g g' gy gy' : Ledger} {out back : List Parcel}
  {as : List Arrival} {handed : List Piece}

/-! ## The inbound queue -/

/-- A packet goes to its place among others in the same window. -/
theorem Stock.add (h : Stock t x s gy as) {a : Arrival} (ha : a.Carries gy)
    (hport : a.packet.port = t.port x) (hnew : ∀ b ∈ as, b.number ≠ a.number)
    (hnear : ∀ b ∈ as, a.number < b.number + 128 ∧ b.number < a.number + 128) (q : Queue)
    (hq : q = s.inbound.add a.packet) (hs : s'.inbound = q) :
    ∃ as', Stock t x s' gy as' ∧ ∀ b, b ∈ as' ↔ b ∈ as ∨ b = a := by
  obtain ⟨front', rear', hsplit, hins, hrear, hfront⟩ :=
    Order.reliability.insert_split a.packet (as.map Arrival.packet)
  obtain ⟨front, rear, rfl, rfl, rfl⟩ := List.map_eq_append_iff.1 hsplit
  have hprec : ∀ b ∈ front ++ rear, Order.reliability.precedes a.packet b.packet = true ↔
      a.number < b.number := by
    intro b hb
    have := hnear b hb
    rw [Order.precedes, ha.1, (h.carries b hb).1]
    exact Serial.precedes_forward_iff _ (by simp only [Serial.half]; omega)
      (by simp only [Serial.half]; omega)
  obtain ⟨hsf, hsr, hsfr⟩ := List.pairwise_append.1 h.sorted
  have hbefore : ∀ b ∈ front, b.number < a.number := by
    intro b hb
    rcases List.eq_nil_or_concat' front with rfl | ⟨init, z, rfl⟩
    · cases hb
    have hz := hfront z.packet (by simp)
    have hznot : ¬ a.number < z.number := by
      rw [← hprec z (by simp), hz]
      exact Bool.false_ne_true
    have hzne := hnew z (by simp)
    rcases List.mem_append.1 hb with hb | hb
    · have := (List.pairwise_append.1 hsf).2.2 b hb z (by simp)
      omega
    · rw [List.mem_singleton.1 hb]
      omega
  have hbehind : ∀ b ∈ rear, a.number < b.number := by
    intro b hb
    exact (hprec b (by simp [hb])).1 (hrear b.packet (List.mem_map_of_mem hb))
  refine ⟨front ++ a :: rear, ⟨?_, ?_, ?_⟩, fun b => by simp [or_left_comm, or_comm]⟩
  · have := h.holds.add hport
    rw [hins] at this
    rw [hs, hq]
    simpa using this
  · refine List.pairwise_append.2 ⟨hsf, List.pairwise_cons.2 ⟨hbehind, hsr⟩, ?_⟩
    intro b hb c hc
    rcases List.mem_cons.1 hc with rfl | hc
    · exact hbefore b hb
    · exact hsfr b hb c hc
  · intro b hb
    rcases List.mem_append.1 hb with hb | hb
    · exact h.carries b (List.mem_append_left _ hb)
    rcases List.mem_cons.1 hb with rfl | hb
    · exact ha
    · exact h.carries b (List.mem_append_right _ hb)

/-- Handing out takes from the queue what comes before the number that is expected next. -/
theorem fetchInbound_counts {r : Nat}
    (hq : s.inbound.Holds s.localPort (as.map Arrival.packet))
    (hrel : ∀ a ∈ as, a.packet.header.relSeq = Serial.forward 0 a.number)
    (hexpected : s.expected = Serial.forward 0 r)
    (hnear : ∀ a ∈ as, a.number < r + 128 ∧ r < a.number + 128) :
    ∃ q, s.fetchInbound =
        ((as.takeWhile fun a => a.number < r).map Arrival.packet, { s with inbound := q }) ∧
      q.Holds s.localPort ((as.dropWhile fun a => a.number < r).map Arrival.packet) := by
  obtain ⟨q, he, hq'⟩ := fetchInbound_spec hq
  have hbefore : ∀ a ∈ as, (comesBefore s.expected ∘ Arrival.packet) a = decide (a.number < r) := by
    intro a ha
    have hn := hnear a ha
    rw [Bool.eq_iff_iff, decide_eq_true_eq, Function.comp_apply, comesBefore, hrel a ha, hexpected]
    exact Serial.precedes_forward_iff _ (by simp only [Serial.half]; omega)
      (by simp only [Serial.half]; omega)
  obtain ⟨htake, hdrop⟩ := takeWhile_dropWhile_congr hbefore
  rw [List.takeWhile_map, htake] at he
  rw [List.dropWhile_map, hdrop] at hq'
  exact ⟨q, he, hq'⟩

/-- If everything from `h` on up to `r` has arrived, then what comes before `r` is what the peer sent
under these numbers. -/
theorem pieces_takeWhile {h r : Nat} (hsorted : as.Pairwise fun a b => a.number < b.number)
    (hcarries : ∀ a ∈ as, a.Carries gy) (hall : ∀ n < r, (∃ a ∈ as, a.number = n) ↔ h ≤ n) :
    (as.takeWhile fun a => a.number < r).map (Piece.of ∘ Arrival.packet) =
      ((gy.sent.take r).drop h).map Piece.of := by
  induction as generalizing h with
  | nil =>
    have hrh : r ≤ h := by
      by_contra hlt
      obtain ⟨a, ha, -⟩ := (hall h (by omega)).2 (Nat.le_refl h)
      cases ha
    rw [List.drop_eq_nil_of_le (by simp; omega)]
    rfl
  | cons a as ih =>
    obtain ⟨hhead, htail⟩ := List.pairwise_cons.1 hsorted
    by_cases hlt : a.number < r
    · have hle := (hall a.number hlt).1 ⟨a, List.mem_cons_self, rfl⟩
      -- the first packet is the one with the first number
      have he : a.number = h := by
        obtain ⟨b, hb, hbn⟩ := (hall h (by omega)).2 (Nat.le_refl h)
        rcases List.mem_cons.1 hb with rfl | hb
        · exact hbn
        · have := hhead b hb
          omega
      obtain ⟨-, q, hq, hpiece⟩ := hcarries a List.mem_cons_self
      have hrest := ih (h := h + 1) htail (fun b hb => hcarries b (List.mem_cons_of_mem _ hb)) (by
        intro n hn
        constructor
        · rintro ⟨b, hb, rfl⟩
          have := hhead b hb
          omega
        · intro hn'
          obtain ⟨b, hb, hbn⟩ := (hall n hn).2 (by omega)
          rcases List.mem_cons.1 hb with rfl | hb
          · omega
          · exact ⟨b, hb, hbn⟩)
      have hget : (gy.sent.take r)[h]? = some q := by
        rw [List.getElem?_take_of_lt (by omega), ← he, hq]
      obtain ⟨hlen, hval⟩ := List.getElem?_eq_some_iff.1 hget
      rw [List.takeWhile_cons_of_pos (by simpa using hlt), List.map_cons, hrest,
        List.drop_eq_getElem_cons hlen, List.map_cons, hval]
      exact congrArg (· :: _) hpiece
    · have hrh : r ≤ h := by
        by_contra hlt'
        obtain ⟨b, hb, hbn⟩ := (hall h (by omega)).2 (Nat.le_refl h)
        rcases List.mem_cons.1 hb with rfl | hb
        · omega
        · have := hhead b hb
          omega
      rw [List.takeWhile_cons_of_neg (by simpa using hlt), List.drop_eq_nil_of_le (by simp; omega)]
      rfl

theorem mem_dropWhile_sorted {r : Nat} (hsorted : as.Pairwise fun a b => a.number < b.number)
    {a : Arrival} : a ∈ (as.dropWhile fun a => a.number < r) ↔ a ∈ as ∧ r ≤ a.number := by
  induction as with
  | nil => simp
  | cons b as ih =>
    obtain ⟨hhead, htail⟩ := List.pairwise_cons.1 hsorted
    by_cases hlt : b.number < r
    · rw [List.dropWhile_cons_of_pos (by simpa using hlt), ih htail, List.mem_cons]
      constructor
      · exact fun ⟨ha, hr⟩ => ⟨.inr ha, hr⟩
      · rintro ⟨rfl | ha, hr⟩
        · omega
        · exact ⟨ha, hr⟩
    · rw [List.dropWhile_cons_of_neg (by simpa using hlt), iff_self_and]
      intro ha
      rcases List.mem_cons.1 ha with rfl | ha
      · omega
      · have := hhead a ha
        omega

/-! ## What an end has handed out -/

/-- The end has handed out what it took before number `h`, and what it took since waits in its inbound
queue. -/
structure Awaits (t : Terms) (x : Role) (s : Session) (handed : List Piece) (g gy : Ledger)
    (h : Nat) : Prop where
  stock : ∃ as, Stock t x s gy as ∧ (g.alive = false → as = []) ∧
    (g.alive = true → ∀ n, (∃ a ∈ as, a.number = n) ↔ h ≤ n ∧ g.intake.took n)
  handed : handed = gy.pieces.take (h - 1)
  le : h ≤ g.intake.reached
  near : g.intake.reached ≤ h + 127
  behind : h < g.intake.reached → 0 < h ∧ g.alive = true

/-- The end has handed out everything that it has passed. -/
def UpToDate (t : Terms) (x : Role) (s : Session) (handed : List Piece) (g gy : Ledger) : Prop :=
  Awaits t x s handed g gy g.intake.reached

theorem pieces_take (g : Ledger) {r : Nat} (hr : r ≤ g.bulk) :
    g.pieces.take (r - 1) = ((g.sent.take r).drop 1).map Piece.of := by
  rcases Nat.eq_zero_or_pos r with rfl | hpos
  · rfl
  unfold Ledger.pieces
  rw [← List.map_take, List.take_drop, List.take_take, show min (1 + (r - 1)) g.bulk = r by omega]

/-- What is handed out continues what was handed out before. -/
theorem pieces_take_append (g : Ledger) {h r : Nat} (hpos : 0 < h) (hle : h ≤ r) (hr : r ≤ g.bulk) :
    g.pieces.take (r - 1) = g.pieces.take (h - 1) ++ ((g.sent.take r).drop h).map Piece.of := by
  have htake : g.sent.take h = (g.sent.take r).take h := by
    rw [List.take_take, Nat.min_eq_left hle]
  have hdrop : (g.sent.take r).drop h = ((g.sent.take r).drop 1).drop (h - 1) := by
    rw [List.drop_drop, Nat.add_sub_cancel' hpos]
  have hfirst : ((g.sent.take r).take h).drop 1 = ((g.sent.take r).drop 1).take (h - 1) :=
    List.drop_take
  rw [pieces_take g hr, pieces_take g (Nat.le_trans hle hr), htake, hdrop, hfirst,
    ← List.map_append, List.take_append_drop]

/-- The peer goes on sending. -/
theorem Awaits.grow {h : Nat} (ha : Awaits t x s handed g gy h) {more : List Packet}
    (hsent : gy'.sent = gy.sent ++ more) {new : List Piece} (hpieces : gy'.pieces = gy.pieces ++ new)
    (hroom : new = [] ∨ h - 1 ≤ gy.pieces.length) : Awaits t x s handed g gy' h := by
  obtain ⟨⟨as, hstock, hnumbers⟩, hhanded, hle, hnear, hbehind⟩ := ha
  refine ⟨⟨as, ⟨hstock.holds, hstock.sorted, fun a ha => ?_⟩, hnumbers⟩, ?_, hle, hnear, hbehind⟩
  · obtain ⟨hrel, q, hq, hpiece⟩ := hstock.carries a ha
    refine ⟨hrel, q, ?_, hpiece⟩
    rw [hsent, List.getElem?_append_left (List.getElem?_eq_some_iff.1 hq).1, hq]
  · rw [hhanded, hpieces]
    rcases hroom with rfl | hroom
    · rw [List.append_nil]
    · rw [List.take_append_of_le_length hroom]

/-- Handing out brings an end up to date. -/
theorem Awaits.hand {h : Nat} (ha : Awaits t x s handed g gy h) (hs : Stands t x s g gy out back)
    (hwindow : t.config.window ≤ 127) :
    UpToDate t x s.fetchInbound.2 (handed ++ s.fetchInbound.1.map Piece.of) g gy := by
  obtain ⟨⟨as, hstock, hdead, halive⟩, hhanded, hle, hnear, hbehind⟩ := ha
  have hholds := hstock.holds
  rw [← hs.books.localPort] at hholds
  have hnumbers : ∀ a ∈ as, g.alive = true ∧ h ≤ a.number ∧ g.intake.took a.number := by
    intro a ha
    cases hlive : g.alive with
    | false =>
      rw [hdead hlive] at ha
      cases ha
    | true => exact ⟨rfl, (halive hlive a.number).1 ⟨a, ha, rfl⟩⟩
  have hvalid := hs.sound.flow_peer.valid _ hs.sound.flow_peer.current
  have hspan : ∀ a ∈ as, a.number < g.intake.reached + 128 ∧ g.intake.reached < a.number + 128 := by
    intro a ha
    obtain ⟨-, hlow, hlt | hearly⟩ := hnumbers a ha
    · omega
    · have := hvalid _ hearly
      omega
  obtain ⟨q, hfetch, hq⟩ := fetchInbound_counts hholds (fun a ha => (hstock.carries a ha).1)
    hs.books.expected hspan
  rw [hfetch, List.map_map]
  refine ⟨⟨as.dropWhile fun a => a.number < g.intake.reached, ⟨?_, ?_, ?_⟩, ?_, ?_⟩, ?_,
    Nat.le_refl _, Nat.le_add_right _ _, fun e => absurd e (Nat.lt_irrefl _)⟩
  · rw [← hs.books.localPort]
    exact hq
  · exact hstock.sorted.sublist (List.dropWhile_sublist _)
  · exact fun a ha => hstock.carries a ((List.dropWhile_sublist _).subset ha)
  · intro e
    rw [hdead e]
    rfl
  · intro hlive n
    constructor
    · rintro ⟨a, ha, rfl⟩
      obtain ⟨ha, hr⟩ := (mem_dropWhile_sorted hstock.sorted).1 ha
      exact ⟨hr, (hnumbers a ha).2.2⟩
    · rintro ⟨hr, htook⟩
      obtain ⟨a, ha, rfl⟩ := (halive hlive n).2 ⟨Nat.le_trans hle hr, htook⟩
      exact ⟨a, (mem_dropWhile_sorted hstock.sorted).2 ⟨ha, hr⟩, rfl⟩
  · rw [hhanded]
    rcases Nat.eq_or_lt_of_le hle with heq | hlt
    · have hnone : (as.takeWhile fun a => a.number < g.intake.reached) = [] := by
        cases as with
        | nil => rfl
        | cons a as =>
          have := (hnumbers a List.mem_cons_self).2.1
          exact List.takeWhile_cons_of_neg (by rw [decide_eq_true_eq]; omega)
      rw [hnone, heq]
      exact List.append_nil _
    · obtain ⟨hpos, hlive⟩ := hbehind hlt
      have hbulk := Intake.reached_le_of_took (hs.sound.flow_peer.took_bulk hlive)
      rw [pieces_take_append gy hpos hle hbulk, pieces_takeWhile hstock.sorted hstock.carries]
      intro n hn
      rw [halive hlive n, and_iff_left (.inl hn)]

/-- Nothing waits, and nothing has to. -/
theorem Awaits.of_empty (hq : s.inbound.Holds (t.port x) [])
    (hnone : g.alive = true → ∀ n, ¬ (g.intake.reached ≤ n ∧ g.intake.took n))
    (hhanded : handed = gy.pieces.take (g.intake.reached - 1)) :
    Awaits t x s handed g gy g.intake.reached := by
  refine ⟨⟨[], ⟨hq, .nil, fun a ha => nomatch ha⟩, fun _ => rfl, fun ha n => ?_⟩, hhanded,
    Nat.le_refl _, Nat.le_add_right _ _, fun e => absurd e (Nat.lt_irrefl _)⟩
  exact iff_of_false (fun ⟨a, ha, _⟩ => nomatch ha) (hnone ha n)

/-- Nothing waits if nothing was taken beyond what was passed. -/
theorem UpToDate.holds_nil (h : UpToDate t x s handed g gy)
    (hnone : g.alive = true → ∀ n, ¬ (g.intake.reached ≤ n ∧ g.intake.took n)) :
    s.inbound.Holds (t.port x) [] := by
  obtain ⟨⟨as, hstock, hdead, halive⟩, -, -, -, -⟩ := h
  have hnil : as = [] := by
    cases ha : g.alive with
    | false => exact hdead ha
    | true =>
      refine List.eq_nil_iff_forall_not_mem.2 fun b hb => ?_
      exact hnone ha b.number ((halive ha b.number).1 ⟨b, hb, rfl⟩)
  rw [hnil] at hstock
  exact hstock.holds

/-- New data in the window waits with what waits already. -/
theorem UpToDate.add (h : UpToDate t x s handed g gy) (hs : Stands t x s g gy out back)
    (hwindow : t.config.window ≤ 127) {a : Arrival} (ha : g.alive = true) (ha' : g'.alive = true)
    (hcarries : a.Carries gy) (hport : a.packet.port = s.localPort)
    (hq : s'.inbound = s.inbound.add a.packet) (hpos : 0 < a.number)
    (hnew : ¬ g.intake.took a.number) (hw : a.number < g.intake.reached + t.config.window)
    (hlow : g.intake.reached ≤ g'.intake.reached)
    (hhigh : g'.intake.reached ≤ g.intake.reached + t.config.window)
    (htook : ∀ n, g'.intake.took n ↔ g.intake.took n ∨ n = a.number) :
    Awaits t x s' handed g' gy g.intake.reached := by
  obtain ⟨⟨as, hstock, -, halive⟩, hhanded, -, -, -⟩ := h
  have hvalid := hs.sound.flow_peer.valid _ hs.sound.flow_peer.current
  have hle : g.intake.reached ≤ a.number := by
    by_contra hlt
    exact hnew (.inl (by omega))
  have hnumbers : ∀ b ∈ as, g.intake.reached ≤ b.number ∧ g.intake.took b.number :=
    fun b hb => (halive ha b.number).1 ⟨b, hb, rfl⟩
  have hspan : ∀ b ∈ as, b.number < g.intake.reached + t.config.window := by
    intro b hb
    obtain ⟨hb, hlt | hearly⟩ := hnumbers b hb
    · omega
    · exact (hvalid _ hearly).2
  have hother : ∀ b ∈ as, b.number ≠ a.number := by
    intro b hb e
    have htaken := (hnumbers b hb).2
    rw [e] at htaken
    exact hnew htaken
  have hnear : ∀ b ∈ as, a.number < b.number + 128 ∧ b.number < a.number + 128 := by
    intro b hb
    have hlow := (hnumbers b hb).1
    have hhigh := hspan b hb
    omega
  obtain ⟨as', hstock', hmem⟩ :=
    hstock.add hcarries (hport.trans hs.books.localPort) hother hnear _ rfl hq
  refine ⟨⟨as', hstock', fun e => ?_, fun _ m => ?_⟩, hhanded, hlow, by omega, fun hlt => ⟨?_, ha'⟩⟩
  · rw [ha'] at e
    cases e
  · rw [htook]
    constructor
    · rintro ⟨b, hb, rfl⟩
      rcases (hmem b).1 hb with hb | rfl
      · exact ⟨(hnumbers b hb).1, .inl (hnumbers b hb).2⟩
      · exact ⟨hle, .inr rfl⟩
    · rintro ⟨hm, htm | rfl⟩
      · obtain ⟨b, hb, hbm⟩ := (halive ha m).2 ⟨hm, htm⟩
        exact ⟨b, (hmem b).2 (.inl hb), hbm⟩
      · exact ⟨_, (hmem _).2 (.inr rfl), rfl⟩
  · -- no data carries number zero
    by_contra hzero
    rcases (htook 0).1 (.inl (by omega)) with (hlt | hearly) | hn
    · omega
    · have := (hvalid 0 hearly).1
      omega
    · omega

/-- Whatever an end takes goes to its inbound queue, or ends what it takes. -/
theorem UpToDate.intakes (h : UpToDate t x s handed g gy) (hs : Stands t x s g gy out back)
    (hin : Intakes t gy s s' g g') (hwindow : t.config.window ≤ 127) :
    ∃ n, g.intake.reached ≤ n ∧ Awaits t x s' handed g' gy n := by
  have hmono := hin.reached_le
  have hhanded := h.handed
  cases hin with
  | none hi ha hq =>
    obtain ⟨⟨as, hstock, hdead, halive⟩, -, -, -, -⟩ := h
    refine ⟨g'.intake.reached, hmono, ⟨as, ⟨hq ▸ hstock.holds, hstock.sorted, hstock.carries⟩, ?_, ?_⟩,
      ?_, Nat.le_refl _, Nat.le_add_right _ _, fun e => absurd e (Nat.lt_irrefl _)⟩
    · exact fun e => hdead (ha ▸ e)
    · rw [hi]
      exact fun e => halive (ha ▸ e)
    · rw [hi]
      exact hhanded
  | woken hi ha hnone hq =>
    have hnil := h.holds_nil fun hlive => by
      rw [ha] at hlive
      cases hlive
    refine ⟨_, hmono, .of_empty (hq ▸ hnil) (fun _ n hn => ?_) (by rw [hi]; exact hhanded)⟩
    rw [hi] at hn
    rcases hn.2 with hlt | hearly
    · omega
    · exact hnone n hearly
  | dropped hi ha hq =>
    obtain ⟨⟨as, hstock, -, -⟩, -, -, -, -⟩ := h
    refine ⟨_, hmono, .of_empty (hq ▸ hstock.holds.clear) (fun e => ?_) (by rw [hi]; exact hhanded)⟩
    rw [ha] at e
    cases e
  | data p n q ha ha' hq hport hrel hsent hpiece hpos hbulk hnew hw hlow hhigh htook =>
    exact ⟨_, Nat.le_refl _, h.add hs hwindow (a := ⟨n, p⟩) ha ha' ⟨hrel, q, hsent, hpiece⟩ hport hq
      hpos hnew hw hlow hhigh htook⟩
  | opening hi hnone hi' htook hq =>
    have hnil := h.holds_nil fun _ n hn => by
      rcases hn.2 with hlt | hearly
      · omega
      · exact hnone n hearly
    refine ⟨_, hmono, .of_empty (hq ▸ hnil) (fun _ n hn => ?_) (by rw [hhanded, hi, hi'])⟩
    have := (htook n).1 hn.2
    omega
  | closing _ hi hi' htook ha hq =>
    have hnil := h.holds_nil fun hlive n hn => by
      have := hs.sound.flow_peer.took_bulk hlive n hn.2
      omega
    refine ⟨_, hmono, .of_empty (hq ▸ hnil) (fun e => ?_) ?_⟩
    · rw [ha] at e
      cases e
    · have hlength := gy.length_pieces_le
      rw [hhanded, hi, hi', List.take_of_length_le hlength, List.take_of_length_le (by omega)]

/-! ## Every run -/

/-- The connection is accounted for, and the end `x` has handed out everything that it has passed. -/
structure InOrder (t : Terms) (x : Role) (e : Exchange) (gs : Role → Ledger)
    (ls : Role → List Parcel) : Prop where
  accounts : Accounts t e gs ls
  accepted : (e.ends x.peer).accepted = (gs x.peer).pieces
  upToDate : UpToDate t x (e.ends x).session (e.ends x).handed (gs x) (gs x.peer)

/-- What can become of the books of both ends in one step: those of the peer list what it was asked to
send, or those of the end itself list what it has taken. -/
inductive Proceeds (t : Terms) (x : Role) (gs gs' : Role → Ledger) : Prop where
  | sends (hself : gs' x = gs x) (more : List Packet)
      (hsent : (gs' x.peer).sent = (gs x.peer).sent ++ more)
  | takes (hpeer : gs' x.peer = gs x.peer) (s s' : Session)
      (hin : Intakes t (gs x.peer) s s' (gs x) (gs' x))

variable {e e' : Exchange} {gs : Role → Ledger} {ls : Role → List Parcel}

theorem Proceeds.refl (t : Terms) (x : Role) (gs : Role → Ledger) : Proceeds t x gs gs :=
  .sends rfl [] (List.append_nil _).symm

theorem Proceeds.self {s s' : Session} (hin : Intakes t (gs x.peer) s s' (gs x) g') :
    Proceeds t x gs (Function.update gs x g') :=
  .takes (Function.update_of_ne x.peer_ne _ _) s s' (by rwa [Function.update_self])

theorem Proceeds.peer {more : List Packet} (hsent : g'.sent = (gs x.peer).sent ++ more) :
    Proceeds t x gs (Function.update gs x.peer g') :=
  .sends (Function.update_of_ne x.peer_ne.symm _ _) more (by rwa [Function.update_self])

theorem Proceeds.acted {y : Role} {new : List Piece} (ha : Acted t y e e' gs ls g' new) :
    Proceeds t x gs (Function.update gs y g') := by
  by_cases hy : y = x
  · subst hy
    exact .self ha.intakes
  · obtain rfl := Role.eq_peer_of_ne hy
    obtain ⟨more, hsent⟩ := ha.sent
    exact .peer hsent

theorem inOrder_start (t : Terms) (x : Role) :
    InOrder t x t.start (fun _ => .start) fun _ => [] where
  accounts := accounts_start t
  accepted := rfl
  upToDate := .of_empty (Queue.holds_empty _ _) (fun e => nomatch e) rfl

/-- An end that hands out after each packet that it is given. -/
def Act.HandsOut (x : Role) (a : Act) : Prop :=
  ∀ hands now, a = .deliver x hands now → hands = true

/-- Something happens to the end itself, by which it takes nothing. -/
theorem InOrder.self (h : InOrder t x e gs ls) (hwindow : t.config.window ≤ 127)
    {ls' : Role → List Parcel} (haccounts : Accounts t e' (Function.update gs x g') ls')
    (hin : Intakes t (gs x.peer) (e.ends x).session (e'.ends x).session (gs x) g')
    (hi : g'.intake = (gs x).intake) (hhanded : (e'.ends x).handed = (e.ends x).handed)
    (hpeer : e'.ends x.peer = e.ends x.peer) : InOrder t x e' (Function.update gs x g') ls' := by
  refine ⟨haccounts, ?_, ?_⟩
  · rw [hpeer, Function.update_of_ne x.peer_ne]
    exact h.accepted
  · obtain ⟨n, hle, ha⟩ := h.upToDate.intakes (h.accounts.stands x) hin hwindow
    have hn : n = g'.intake.reached := by
      have := ha.le
      rw [hi] at this ⊢
      omega
    rw [Function.update_self, Function.update_of_ne x.peer_ne, hhanded, UpToDate, ← hn]
    exact ha

/-- Something happens to the peer. -/
theorem InOrder.peer (h : InOrder t x e gs ls) {ls' : Role → List Parcel}
    (haccounts : Accounts t e' (Function.update gs x.peer g') ls') {more : List Packet}
    (hsent : g'.sent = (gs x.peer).sent ++ more) {new : List Piece}
    (hpieces : g'.pieces = (gs x.peer).pieces ++ new)
    (hroom : new = [] ∨ (gs x.peer).sent.length = (gs x.peer).bulk)
    (haccepted : (e'.ends x.peer).accepted = (e.ends x.peer).accepted ++ new)
    (hself : e'.ends x = e.ends x) : InOrder t x e' (Function.update gs x.peer g') ls' := by
  refine ⟨haccounts, ?_, ?_⟩
  · rw [haccepted, Function.update_self, hpieces, h.accepted]
  · rw [Function.update_self, Function.update_of_ne x.peer_ne.symm, hself]
    refine Awaits.grow h.upToDate hsent hpieces (hroom.imp_right fun hopen => ?_)
    have hs := (h.accounts.stands x).sound
    have := hs.flow_peer.reached_le_gone
    have := hs.tidy_peer.gone_le
    rw [Ledger.length_pieces (Nat.le_of_eq hopen.symm)]
    omega

theorem InOrder.acted (h : InOrder t x e gs ls) (hwindow : t.config.window ≤ 127) {y : Role}
    {new : List Piece} (ha : Acted t y e e' gs ls g' new) :
    InOrder t x e' (Function.update gs y g') ls := by
  obtain ⟨more, hsent⟩ := ha.sent
  by_cases hy : y = x
  · subst hy
    exact h.self hwindow ha.accounts ha.intakes ha.intake ha.handed ha.peer
  · obtain rfl := Role.eq_peer_of_ne hy
    have hself := ha.peer
    rw [Role.peer_peer] at hself
    exact h.peer ha.accounts hsent ha.pieces ha.room ha.accepted hself

/-- A packet arrives at the end itself, which hands out what it can. -/
theorem InOrder.deliver (h : InOrder t x e gs ls) (hvalid : t.config.Valid)
    (hwindow : t.config.window ≤ 127) {p : Parcel} {rest : List Parcel} (hls : ls x = p :: rest)
    (now : Nat) : ∃ gs' ls', InOrder t x
      (((e.relink x (rest.map Parcel.packet)).arrive x p.packet now).hand x) gs' ls' ∧
      Proceeds t x gs gs' := by
  obtain ⟨g', hb, -, -, haccounts⟩ := h.accounts.arrive hls hvalid.window_pos hvalid.window_le now
  obtain ⟨n, -, ha⟩ := h.upToDate.intakes (h.accounts.stands x) hb.intakes hwindow
  refine ⟨_, _, ⟨haccounts.hand hvalid.window_le x, ?_, ?_⟩, .self hb.intakes⟩
  · rw [Exchange.ends_hand_peer, Exchange.ends_arrive_peer, Function.update_of_ne x.peer_ne]
    exact h.accepted
  · rw [Function.update_self, Function.update_of_ne x.peer_ne, Exchange.ends_hand,
      Exchange.ends_arrive]
    exact ha.hand hb.stands hwindow

/-- A packet arrives at the peer. -/
theorem InOrder.deliver_peer (h : InOrder t x e gs ls) (hvalid : t.config.Valid) {p : Parcel}
    {rest : List Parcel} (hls : ls x.peer = p :: rest) (hands : Bool) (now : Nat) :
    ∃ gs' ls', InOrder t x
      (let e' := (e.relink x.peer (rest.map Parcel.packet)).arrive x.peer p.packet now
       if hands then e'.hand x.peer else e') gs' ls' ∧ Proceeds t x gs gs' := by
  obtain ⟨g', hb, hpieces, -, haccounts⟩ :=
    h.accounts.arrive hls hvalid.window_pos hvalid.window_le now
  have hself : ((e.relink x.peer (rest.map Parcel.packet)).arrive x.peer p.packet now).ends x =
      e.ends x := by
    have := Exchange.ends_arrive_peer (e.relink x.peer (rest.map Parcel.packet)) x.peer p.packet now
    rwa [Role.peer_peer] at this
  have hsent := hb.sent
  rw [← List.append_nil (gs x.peer).pieces] at hpieces
  have harrived := h.peer haccounts hsent hpieces (.inl rfl)
    (by rw [Exchange.ends_arrive, List.append_nil]; rfl) hself
  cases hands with
  | false => exact ⟨_, _, harrived, .peer hsent⟩
  | true =>
    refine ⟨_, _, ⟨harrived.accounts.hand hvalid.window_le x.peer, ?_, ?_⟩, .peer hsent⟩
    · have := harrived.accepted
      simp only [if_true]
      rw [Exchange.ends_hand]
      exact this
    · have := Exchange.ends_hand_peer
        ((e.relink x.peer (rest.map Parcel.packet)).arrive x.peer p.packet now) x.peer
      rw [Role.peer_peer] at this
      simp only [if_true]
      rw [this]
      exact harrived.upToDate

theorem InOrder.apply (h : InOrder t x e gs ls) (hvalid : t.config.Valid) (htame : ∀ y, t.Tame y)
    {a : Act} (ha : a.HandsOut x) : ∃ gs' ls', InOrder t x (e.apply a) gs' ls' ∧ Proceeds t x gs gs' := by
  have hwindow : t.config.window ≤ 127 := Nat.le_trans (Nat.le_add_right _ _) (htame x)
  have hle := hvalid.window_le
  cases a with
  | connect now =>
    cases ho : e.opened with
    | false =>
      obtain ⟨g', h'⟩ := h.accounts.connect ho hle now
      exact ⟨_, _, h.acted hwindow h', .acted h'⟩
    | true =>
      refine ⟨gs, ls, ?_, .refl t x gs⟩
      unfold Exchange.apply
      rw [ho]
      exact h
  | send y ps numbers now =>
    obtain ⟨g', new, h'⟩ := h.accounts.send (htame y) hvalid.window_pos ps numbers now
    exact ⟨_, _, h.acted hwindow h', .acted h'⟩
  | close y now =>
    obtain ⟨g', h'⟩ := h.accounts.close hle y now
    exact ⟨_, _, h.acted hwindow h', .acted h'⟩
  | reset y =>
    obtain ⟨g', h'⟩ := h.accounts.reset hle y
    exact ⟨_, _, h.acted hwindow h', .acted h'⟩
  | tick y now =>
    obtain ⟨g', h'⟩ := h.accounts.tick hle y now
    exact ⟨_, _, h.acted hwindow h', .acted h'⟩
  | take y =>
    obtain ⟨hb, haccounts⟩ := h.accounts.take hle y
    by_cases hy : y = x
    · subst hy
      refine ⟨_, _, h.self hwindow haccounts ?_ rfl ?_ ?_, .self hb.intakes⟩
      · simp only [Exchange.apply]
        rw [Exchange.ends_relink, Exchange.ends_update]
        exact hb.intakes
      · simp [Exchange.apply, End.observe]
      · simp [Exchange.apply]
    · obtain rfl := Role.eq_peer_of_ne hy
      refine ⟨_, _, h.peer haccounts (List.append_nil _).symm (List.append_nil _).symm (.inl rfl)
        ?_ ?_, .peer (List.append_nil _).symm⟩
      · simp [Exchange.apply, End.observe]
      · have := Exchange.ends_update_peer e x.peer (e.ends x.peer).session.fetchOutbound.2
        rwa [Role.peer_peer] at this
  | lose y =>
    have h' := h.accounts.drop (x := y) _ (List.tail_sublist (ls y))
    rw [List.map_tail, ← h.accounts.link] at h'
    exact ⟨_, _, ⟨h', h.accepted, h.upToDate⟩, .refl t x gs⟩
  | deliver y hands now =>
    have hlink := h.accounts.link y
    cases hls : ls y with
    | nil =>
      rw [hls, List.map_nil] at hlink
      refine ⟨gs, ls, ?_, .refl t x gs⟩
      simp only [Exchange.apply, hlink]
      exact h
    | cons p rest =>
      rw [hls, List.map_cons] at hlink
      simp only [Exchange.apply, hlink]
      by_cases hy : y = x
      · subst hy
        rw [ha hands now rfl]
        exact h.deliver hvalid hwindow hls now
      · obtain rfl := Role.eq_peer_of_ne hy
        exact h.deliver_peer hvalid hls hands now

theorem InOrder.after (h : InOrder t x e gs ls) (hvalid : t.config.Valid) (htame : ∀ y, t.Tame y)
    {acts : List Act} (ha : ∀ a ∈ acts, a.HandsOut x) :
    ∃ gs' ls', InOrder t x (e.after acts) gs' ls' := by
  induction acts generalizing e gs ls with
  | nil => exact ⟨gs, ls, h⟩
  | cons a acts ih =>
    obtain ⟨gs', ls', h', -⟩ := h.apply hvalid htame (ha a List.mem_cons_self)
    exact ih h' fun b hb => ha b (List.mem_cons_of_mem _ hb)

/-- Whatever happens to a connection, and whatever the link loses, an end that hands out after each
packet hands out a beginning of what its peer was asked to send. -/
theorem handed_prefix (hvalid : t.config.Valid) (hwindow : t.config.window ≤ 64) (x : Role)
    (acts : List Act) (ha : ∀ a ∈ acts, a.HandsOut x) :
    ((t.start.after acts).ends x).handed <+: ((t.start.after acts).ends x.peer).accepted := by
  obtain ⟨gs, ls, h⟩ := (inOrder_start t x).after hvalid (Terms.tame_of_window hwindow) ha
  rw [h.accepted, h.upToDate.handed]
  exact List.take_prefix _ _

/-- The first of two messages is lost, and sent again. -/
def resending : List Act :=
  handshake ++ messages 2 ++
    [.lose .responder, .deliver .responder true 0, .tick .initiator 5000, .take .initiator,
      .deliver .responder true 0]

theorem handed_prefix_of_resending :
    (((Terms.withWindow 64 true).start.after resending).ends .responder).handed =
        [Piece.of message, Piece.of message] ∧
      (((Terms.withWindow 64 true).start.after resending).ends .responder).handed <+:
        (((Terms.withWindow 64 true).start.after resending).ends Role.responder.peer).accepted := by
  have hhands : ∀ a ∈ resending, a.HandsOut .responder := by
    intro a ha hands now e
    subst e
    have : hands = true ∧ now = 0 := by simpa [resending, handshake, messages] using ha
    exact this.1
  refine ⟨by decide +kernel, ?_⟩
  exact handed_prefix (valid_withWindow (by decide) (by decide) true) (Nat.le_refl 64) .responder
    resending hhands

end NarrowLink.Connection

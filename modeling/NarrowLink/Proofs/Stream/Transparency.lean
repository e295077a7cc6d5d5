import NarrowLink.Proofs.Stream.Reading
import NarrowLink.Stream.Link

/-!
# A stream link is transparent

What a sender writes to a stream is a record and a body for each frame (`sendAll_eq`).  On the way to
the receiver the stream may wear: up to two of the copies in each record change (`Worn`), it breaks off
somewhere, and it arrives in any pieces with any interruptions.  Of all that the receiver only notices
where it broke off.  It is told the frames that came through whole, in order, between the link's going up
and its going down, and it fails exactly if the stream ended inside a record (`receive_of_worn`).
-/

namespace NarrowLink.Stream

open Wire

/-- A channel and the bytes that are sent on it. -/
abbrev Frame := UInt8 × List UInt8

namespace Frame

/-- The bytes of a frame behind its record. -/
def body (f : Frame) : List UInt8 := f.1 :: f.2

/-- The length that is announced for a frame. -/
def announced (f : Frame) : UInt32 := UInt32.ofNat f.body.length

/-- The bytes that a frame takes on a stream. -/
def span (f : Frame) : Nat := LengthRecord.size + f.body.length

/-- What the receiver is told of a frame. -/
def notice (f : Frame) : Notice := .frame f.1 f.2

theorem toNat_announced {f : Frame} {maxFrame : Nat} (hmax : maxFrame < UInt32.size - 1)
    (h : f.2.length ≤ maxFrame) : f.announced.toNat = f.body.length := by
  rw [announced, UInt32.toNat_ofNat']
  simp only [body, List.length_cons, UInt32.size] at *
  omega

end Frame

/-! ## What is sent -/

/-- Sends frames one after the other. -/
def sendAll (maxFrame : Nat) (s : Sink) : List Frame → List (Except LinkError Unit) × Sink
  | [] => ([], s)
  | f :: fs =>
    let (answer, s') := send maxFrame s f.1 f.2
    let (answers, s'') := sendAll maxFrame s' fs
    (answer :: answers, s'')

/-- The stream that carries frames. -/
def carrier (fs : List Frame) : List UInt8 := fs.flatMap fun f => framed f.body

theorem length_carrier_nil : (carrier []).length = 0 := rfl

theorem length_carrier_cons (f : Frame) (fs : List Frame) :
    (carrier (f :: fs)).length = f.span + (carrier fs).length := by
  rw [carrier, List.flatMap_cons, List.length_append, framed, List.length_append,
    LengthRecord.length_encode]
  rfl

variable {maxFrame cut : Nat} {f : Frame} {fs : List Frame} {sent received : List UInt8}

/-- A sink that takes everything takes every frame that is not too long. -/
theorem sendAll_eq (hfits : ∀ f ∈ fs, f.2.length ≤ maxFrame) (taken : List UInt8) :
    sendAll maxFrame ⟨taken, none⟩ fs =
      (List.replicate fs.length (.ok ()), ⟨taken ++ carrier fs, none⟩) := by
  induction fs generalizing taken with
  | nil => rw [carrier, List.flatMap_nil, List.append_nil]; rfl
  | cons f fs ih =>
    have hsend : send maxFrame ⟨taken, none⟩ f.1 f.2 = (.ok (), ⟨taken ++ framed f.body, none⟩) := by
      rw [send, if_neg (Nat.not_lt.2 (hfits f List.mem_cons_self))]
      rfl
    have hlater := ih (fun g hg => hfits g (List.mem_cons_of_mem f hg)) (taken ++ framed f.body)
    simp only [sendAll, hsend, hlater, carrier, List.flatMap_cons, List.append_assoc]
    rfl

/-! ## What becomes of it -/

/-- A stream of frames whose records were damaged, next to the stream that was sent. -/
inductive Worn : List Frame → List UInt8 → List UInt8 → Prop where
  | nil : Worn [] [] []
  | cons {f : Frame} {fs : List Frame} {sent received record record' : List UInt8}
      (size : record.length = LengthRecord.size) (damaged : LengthRecord.Damaged record record')
      (later : Worn fs sent received) :
      Worn (f :: fs) (record ++ (f.body ++ sent)) (record' ++ (f.body ++ received))

/-- A stream may arrive as it was sent. -/
theorem Worn.refl (fs : List Frame) : Worn fs (carrier fs) (carrier fs) := by
  induction fs with
  | nil => exact .nil
  | cons f fs ih =>
    rw [carrier, List.flatMap_cons, framed, List.append_assoc]
    exact .cons (LengthRecord.length_encode _) (.refl _) ih

/-- The records of a worn stream are what the encoded lengths have become. -/
theorem Worn.cons_inv (h : Worn (f :: fs) (carrier (f :: fs)) received) :
    ∃ record' received', LengthRecord.Damaged (LengthRecord.encode f.announced) record' ∧
      received = record' ++ (f.body ++ received') ∧ Worn fs (carrier fs) received' := by
  generalize hsent : carrier (f :: fs) = sent at h
  cases h with
  | @cons _ _ sent' received' record record' hsize hdamaged hlater =>
    rw [carrier, List.flatMap_cons, framed, List.append_assoc] at hsent
    obtain ⟨rfl, hrest⟩ := List.append_inj hsent (by rw [LengthRecord.length_encode, hsize])
    have hlater' : carrier fs = sent' := List.append_cancel_left hrest
    exact ⟨record', received', hdamaged, rfl, hlater' ▸ hlater⟩

/-- The frames whose records and bodies lie before a cut. -/
def wholeBefore : Nat → List Frame → List Frame
  | _, [] => []
  | cut, f :: fs => if f.span ≤ cut then f :: wholeBefore (cut - f.span) fs else []

/-- A cut lies where a frame ends, or behind all frames. -/
def OnBoundary (cut : Nat) (fs : List Frame) : Prop :=
  (carrier (wholeBefore cut fs)).length = cut ∨ (carrier fs).length ≤ cut

instance (cut : Nat) (fs : List Frame) : Decidable (OnBoundary cut fs) :=
  inferInstanceAs (Decidable (_ ∨ _))

theorem onBoundary_cons_of_le (h : f.span ≤ cut) :
    OnBoundary cut (f :: fs) ↔ OnBoundary (cut - f.span) fs := by
  simp only [OnBoundary, wholeBefore, if_pos h, length_carrier_cons]
  omega

theorem onBoundary_cons_of_lt (h : cut < f.span) : OnBoundary cut (f :: fs) ↔ cut = 0 := by
  simp only [OnBoundary, wholeBefore, if_neg (Nat.not_le.2 h), length_carrier_cons, length_carrier_nil]
  omega

/-! ## What is received -/

/-- A receiver that is not cancelled goes on until a read finds no frame. -/
theorem frames_eq (maxFrame : Nat) (s : Source) :
    frames maxFrame none s =
      match s.readFrame (maxFrame + 1) with
      | (.error e, _) => ([], .error (.ofError e))
      | (.ok none, _) => ([], .ok ())
      | (.ok (some []), s') => frames maxFrame none s'
      | (.ok (some (channel :: content)), s') =>
        (.frame channel content :: (frames maxFrame none s').1, (frames maxFrame none s').2) := by
  rw [frames, if_neg (by decide)]
  split <;> (rename_i hread; rw [hread])
  rfl

/-- A receiver ends well if the stream breaks off between two frames, and fails otherwise. -/
def ending (cut : Nat) (fs : List Frame) : Except ReceiveError Unit :=
  if OnBoundary cut fs then .ok () else .error (.failed (.io .unexpectedEof))

/-- The receiver takes one frame after the other off a worn stream, up to the cut. -/
theorem frames_of_worn {s : Source} (hmax : maxFrame < UInt32.size - 1)
    (hfits : ∀ f ∈ fs, f.2.length ≤ maxFrame)
    (hworn : Worn fs (carrier fs) received) (hs : s.Steady) (hcut : s.content = received.take cut) :
    frames maxFrame none s = ((wholeBefore cut fs).map Frame.notice, ending cut fs) := by
  induction fs generalizing received cut s with
  | nil =>
    cases hworn
    rw [List.take_nil] at hcut
    obtain ⟨s', hread⟩ := s.readFrame_of_nil hs hcut
    rw [frames_eq, hread, ending, if_pos (.inr (Nat.zero_le cut))]
    rfl
  | cons f fs ih =>
    obtain ⟨record, rest, hrecord, rfl, hrest⟩ := hworn.cons_inv
    have hlength := f.toNat_announced hmax (hfits f List.mem_cons_self)
    have hlimit : f.body.length ≤ maxFrame + 1 := Nat.succ_le_succ (hfits f List.mem_cons_self)
    have hspan : f.span = record.length + f.body.length := by
      rw [hrecord.length_eq, LengthRecord.length_encode, Frame.span]
    by_cases hwhole : f.span ≤ cut
    · have hfront : s.content = record ++ (f.body ++ rest.take (cut - f.span)) := by
        rw [hcut, ← List.append_assoc, List.take_append, List.length_append, ← hspan,
          List.take_of_length_le (by rw [List.length_append]; omega), List.append_assoc]
      obtain ⟨s', hread, hs', hcut'⟩ := s.readFrame_of_record hs hfront hrecord hlength hlimit
      have hlater := ih (fun g hg => hfits g (List.mem_cons_of_mem f hg)) hrest hs' hcut'
      rw [frames_eq, hread, wholeBefore, if_pos hwhole, ending]
      simp only [Frame.body, hlater, ending, onBoundary_cons_of_le hwhole]
      rfl
    · rw [Nat.not_le] at hwhole
      rw [wholeBefore, if_neg (Nat.not_le.2 hwhole), ending]
      by_cases hnone : cut = 0
      · subst hnone
        obtain ⟨s', hread⟩ := s.readFrame_of_nil hs hcut
        rw [frames_eq, hread, if_pos ((onBoundary_cons_of_lt hwhole).2 rfl)]
        rfl
      · have hpart : s.content = (record ++ f.body).take cut := by
          rw [hcut, ← List.append_assoc, List.take_append_of_le_length (by
            rw [List.length_append]; omega)]
        obtain ⟨s', hread⟩ := s.readFrame_of_cut hs hpart hrecord hlength hlimit
          (Nat.pos_of_ne_zero hnone) (hspan ▸ hwhole)
        rw [frames_eq, hread, if_neg (fun h => hnone ((onBoundary_cons_of_lt hwhole).1 h))]
        rfl

/-- All frames of a stream that has worn and broken off are received up to where it broke off. -/
theorem receive_of_worn {source : Source} (hmax : maxFrame < UInt32.size - 1)
    (hfits : ∀ f ∈ fs, f.2.length ≤ maxFrame)
    (hworn : Worn fs (sendAll maxFrame {} fs).2.taken received) (hsteady : source.Steady)
    (hcut : source.content = received.take cut) :
    (sendAll maxFrame {} fs).1 = List.replicate fs.length (.ok ()) ∧
    receive maxFrame none source =
      (.link true :: (wholeBefore cut fs).map Frame.notice ++ [.link false], ending cut fs) := by
  have hsend := sendAll_eq hfits []
  rw [show sendAll maxFrame {} fs = _ from hsend] at hworn ⊢
  rw [receive, frames_of_worn hmax hfits hworn hsteady hcut]
  exact ⟨rfl, rfl⟩

/-- Two frames, the second of them empty. -/
def twoFrames : List Frame := [(3, [0x61, 0x62]), (9, [])]

/-- The record of the first frame of `twoFrames`, with its second and its fourth copy damaged. -/
def damagedRecord : List UInt8 :=
  [0, 0, 0, 3, 0xff, 0, 0, 3, 0, 0, 0, 3, 0, 0, 0, 0, 0, 0, 0, 3]

/-- The damaged stream of `twoFrames` in pieces, broken off in the second record. -/
def brokenOff : Source :=
  [.fault .interrupted, .bytes (damagedRecord.take 7), .fault .interrupted,
    .bytes (damagedRecord.drop 7 ++ [3, 0x61]), .bytes [0x62, 0, 0], .fault .interrupted, .bytes [0]]

theorem receive_of_worn_twoFrames :
    (sendAll 2 {} twoFrames).1 = [.ok (), .ok ()] ∧
    receive 2 none brokenOff =
      ([.link true, .frame 3 [0x61, 0x62], .link false], .error (.failed (.io .unexpectedEof))) := by
  have hdamaged : LengthRecord.Damaged (LengthRecord.encode 3) damagedRecord := ⟨rfl, by decide⟩
  have hworn : Worn twoFrames (sendAll 2 {} twoFrames).2.taken
      (damagedRecord ++ ([3, 0x61, 0x62] ++ (LengthRecord.encode 1 ++ ([9] ++ [])))) :=
    .cons rfl hdamaged (.cons rfl (.refl _) .nil)
  have hsteady : brokenOff.Steady := fun f hf => by simpa [brokenOff] using hf
  have hcut : brokenOff.content = List.take 26
      (damagedRecord ++ ([3, 0x61, 0x62] ++ (LengthRecord.encode 1 ++ ([9] ++ [])))) := by decide
  exact receive_of_worn (by decide) (by decide) hworn hsteady hcut

end NarrowLink.Stream

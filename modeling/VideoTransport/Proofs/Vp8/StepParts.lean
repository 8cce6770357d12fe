import VideoTransport.Vp8.Assembly

/-!
# Parts of a Step

The steps of an assembly, taken apart where their proofs are taken apart.

A packet first breaks the stream off if it has to. Then a frame may begin, which
settles what is told of losses, and what is left is either data of a frame or is
skipped. A packet that is skipped ends the time for which losses are held, and
tells of one that is due.

A part about losses changes four fields at most, and leaves no loss held. The
lemmas say so once for each part, without saying what it tells.

## Main definitions

* `Assembly.arrive`: The assembly when a packet arrives.
* `Assembly.settleLosses`: What is told where a frame begins.
* `Assembly.stopHolding`, `Assembly.tellDue`: What is told where a packet is skipped.
* `Assembly.takeRest`: What a packet does behind the beginning of its frame.

## Theorems

* `Assembly.step_of_ok`, `Assembly.step_of_error`: A packet that can be read, and one that cannot.
* `Assembly.openFrame_eq`, `Assembly.skipPacket_eq`, `Assembly.takePart_eq`: Steps by their parts.
* `Assembly.exists_settleLosses`, `Assembly.exists_stopHolding`: What the parts leave behind.
-/

namespace VideoTransport

namespace Vp8

namespace Assembly

/-- The assembly when a packet arrives, before that is looked at. -/
def arrive (s : Settings) (p : Packet) (a : Assembly) : Assembly :=
  if p.discontinuous then breakOff s a else a

theorem step_of_error (s : Settings) (p : Packet) (a : Assembly) (e : DescriptorError)
    (hparse : Descriptor.parse p.payload = .error e) :
    step s a (.packet p) = ((arrive s p a).abandonFrame, []) := by
  rw [step, takePacket, hparse]
  rfl

theorem step_of_ok (s : Settings) (p : Packet) (a : Assembly) (d : Descriptor)
    (hparse : Descriptor.parse p.payload = .ok d) :
    step s a (.packet p) = takePart s p d (arrive s p a) := by
  rw [step, takePacket, hparse]
  rfl

/-- What is told of losses where a frame begins: first those that are due, then
    what the identifiers show, unless a loss is known of by then. -/
def settleLosses (s : Settings) (next : Option PictureId) (pts : Option Duration) (a : Assembly) :
    Assembly × List Output :=
  if a.reportDue then
    andThen (ensureReported pts a) fun a =>
      if a.lossReported then (a, []) else checkContinuity s next pts a
  else checkContinuity s next pts a

theorem openFrame_eq (s : Settings) (next : Option PictureId) (pts : Option Duration)
    (a : Assembly) :
    openFrame s next pts a
      = ({ (settleLosses s next pts a.abandonFrame).1 with
          partialFrame := some []
          holdsLosses := false },
        (settleLosses s next pts a.abandonFrame).2) := by
  rw [← List.append_nil (settleLosses s next pts a.abandonFrame).2]
  rfl

/-- Lets a loss that is held pass, and holds no other. -/
def stopHolding (a : Assembly) : Assembly × List Output :=
  if a.holdsLosses then
    andThen (releaseHeld a) fun a => ({ a with holdsLosses := false }, [])
  else (a, [])

/-- Tells of a loss that is due. -/
def tellDue (pts : Option Duration) (a : Assembly) : Assembly × List Output :=
  if a.reportDue then ensureReported pts a else (a, [])

theorem skipPacket_eq (pts : Option Duration) (a : Assembly) :
    skipPacket pts a = andThen (stopHolding a) (tellDue pts) := rfl

/-- What a packet does behind the beginning of its frame. -/
def takeRest (p : Packet) (d : Descriptor) (a : Assembly) : Assembly × List Output :=
  match a.partialFrame with
  | some collected => extendFrame p d collected a
  | none => skipPacket p.pts a

theorem takePart_eq (s : Settings) (p : Packet) (d : Descriptor) (a : Assembly) :
    takePart s p d a
      = andThen (if d.startsFrame then openFrame s d.pictureId p.pts a else (a, []))
        (takeRest p d) := rfl

theorem takeRest_of_none (p : Packet) (d : Descriptor) (a : Assembly) (h : a.partialFrame = none) :
    takeRest p d a = skipPacket p.pts a := by
  rw [takeRest, h]

theorem releaseHeld_of_none (a : Assembly) (hheld : a.withheld = none) :
    releaseHeld a = (a, []) := by
  rw [releaseHeld, hheld]

theorem releaseHeld_of_some (a : Assembly) (r : LossReport) (hheld : a.withheld = some r) :
    releaseHeld a
      = ({ a with withheld := none, lossReported := true }, [.packetLost .transport r]) := by
  rw [releaseHeld, hheld]
  rfl

theorem ensureReported_of_some (pts : Option Duration) (a : Assembly) (r : LossReport)
    (hheld : a.withheld = some r) :
    ensureReported pts a = releaseHeld { a with reportDue := false } := by
  simp only [ensureReported, hheld, Option.isSome_some, if_true]

-- Each step about losses leaves none held, and changes nothing else but what is
-- known of losses that were reported or are due.
theorem exists_releaseHeld (a : Assembly) :
    ∃ reported, (releaseHeld a).1 = { a with withheld := none, lossReported := reported } := by
  rcases a.withheld.eq_none_or_eq_some with hheld | ⟨r, hheld⟩
  · refine ⟨a.lossReported, ?_⟩
    rw [releaseHeld_of_none a hheld, ← hheld]
  · rw [releaseHeld_of_some a r hheld]
    exact ⟨true, rfl⟩

theorem exists_ensureReported (pts : Option Duration) (a : Assembly) :
    ∃ reported, (ensureReported pts a).1
      = { a with withheld := none, reportDue := false, lossReported := reported } := by
  unfold ensureReported
  cases hheld : a.withheld with
  | some r =>
      simp only [Option.isSome_some, if_true]
      rcases exists_releaseHeld { a with reportDue := false } with ⟨reported, hrelease⟩
      rw [hheld] at hrelease
      exact ⟨reported, hrelease⟩
  | none =>
      simp only [Option.isSome_none, Bool.false_eq_true, if_false]
      by_cases hreported : a.lossReported = true
      · rw [if_pos hreported]
        exact ⟨a.lossReported, rfl⟩
      · rw [if_neg hreported]
        cases pts with
        | none => exact ⟨a.lossReported, rfl⟩
        | some time => exact ⟨true, rfl⟩

theorem exists_checkContinuity (s : Settings) (next : Option PictureId) (pts : Option Duration)
    (a : Assembly) (hdue : a.reportDue = false) (hlast : a.lastId = none → a.withheld = none) :
    ∃ reported, (checkContinuity s next pts a).1
      = { a with withheld := none, lossReported := reported } := by
  unfold checkContinuity
  cases hid : a.lastId with
  | none =>
      refine ⟨a.lossReported, ?_⟩
      simp only
      rw [← hlast hid, ← hid]
  | some last =>
      simp only
      rw [← hid]
      cases last.continuity next with
      | follows => exact ⟨a.lossReported, rfl⟩
      | undecided => exact exists_releaseHeld a
      | gap =>
          simp only
          by_cases hrelease : (a.withheld.isSome || s.hideIdGaps) = true
          · rw [if_pos hrelease]
            exact exists_releaseHeld a
          · rw [if_neg hrelease]
            rcases exists_ensureReported pts a with ⟨reported, hensure⟩
            refine ⟨reported, ?_⟩
            rw [hensure, ← hdue]

theorem exists_settleLosses (s : Settings) (next : Option PictureId) (pts : Option Duration)
    (a : Assembly) (hlast : a.lastId = none → a.withheld = none) :
    ∃ reported, (settleLosses s next pts a).1
      = { a with withheld := none, reportDue := false, lossReported := reported } := by
  unfold settleLosses
  by_cases hdue : a.reportDue = true
  · rw [if_pos hdue]
    rcases a.exists_ensureReported pts with ⟨known, hensure⟩
    simp only [andThen, hensure]
    cases known with
    | true => exact ⟨true, rfl⟩
    | false => exact exists_checkContinuity s next pts _ rfl fun _ => rfl
  · rw [if_neg hdue]
    rcases a.exists_checkContinuity s next pts (eq_false_of_ne_true hdue) hlast with
      ⟨reported, hcheck⟩
    refine ⟨reported, ?_⟩
    rw [hcheck, ← eq_false_of_ne_true hdue]

theorem exists_stopHolding (a : Assembly) (hheld : a.holdsLosses = false → a.withheld = none) :
    ∃ reported, (stopHolding a).1
      = { a with withheld := none, holdsLosses := false, lossReported := reported } := by
  unfold stopHolding
  by_cases hholds : a.holdsLosses = true
  · rw [if_pos hholds]
    rcases a.exists_releaseHeld with ⟨reported, hrelease⟩
    refine ⟨reported, ?_⟩
    rw [andThen, hrelease]
  · have hnot := eq_false_of_ne_true hholds
    rw [if_neg hholds]
    refine ⟨a.lossReported, ?_⟩
    rw [← hheld hnot, ← hnot]

theorem exists_tellDue (pts : Option Duration) (a : Assembly) (hheld : a.withheld = none) :
    ∃ reported, (tellDue pts a).1 = { a with reportDue := false, lossReported := reported } := by
  unfold tellDue
  by_cases hdue : a.reportDue = true
  · rw [if_pos hdue]
    rcases a.exists_ensureReported pts with ⟨reported, hensure⟩
    refine ⟨reported, ?_⟩
    rw [hensure, ← hheld]
  · rw [if_neg hdue]
    refine ⟨a.lossReported, ?_⟩
    rw [← eq_false_of_ne_true hdue]

-- The last packet of a frame makes the holding begin if the frame is complete and
-- has an identifier, and leaves a loss that is due if it is not complete.
theorem exists_closeFrame (p : Packet) (id : Option PictureId) (data : List UInt8) (a : Assembly) :
    (closeFrame p id data a).1 = { a with partialFrame := none, reportDue := true }
      ∨ ∃ reported awaits format, (closeFrame p id data a).1 = { a with
        partialFrame := none
        holdsLosses := a.holdsLosses || id.isSome
        lossReported := reported
        awaitsKeyframe := awaits
        currentFormat := format } := by
  unfold closeFrame
  cases FrameHeader.parse data with
  | error err => exact Or.inl rfl
  | ok header =>
      apply Or.inr
      have hannounce : ∃ awaits format, (announce header.format { a with partialFrame := none }).1
          = { a with partialFrame := none, awaitsKeyframe := awaits, currentFormat := format } := by
        cases header.format with
        | none => exact ⟨a.awaitsKeyframe, a.currentFormat, rfl⟩
        | some f => exact ⟨false, some f, rfl⟩
      rcases hannounce with ⟨awaits, format, hannounce⟩
      simp only [andThen, hannounce]
      cases awaits with
      | true => exact ⟨a.lossReported, true, format, rfl⟩
      | false => exact ⟨false, false, format, rfl⟩

end Assembly

end Vp8

end VideoTransport

import VideoTransport.Vp8.Descriptor
import VideoTransport.Vp8.Settings
import VideoTransport.Vp8.Stream

/-!
# Assembly of Frames

Packets of a VP8 stream come in order, each with a part of a frame. An assembly
joins the parts of each frame, passes on complete frames, and tells those
downstream when something is missing.

The transport may report losses of its own. Such a report is passed on at once
unless the last frame was complete and had an identifier: then it is held until
the next frame shows whether a picture is missing. If the identifiers follow on
each other, what was lost did not matter, and the report is dropped. Otherwise
it is passed on in place of one that would have been made up here.

The functions below describe one step each. A step takes an `Assembly` to the
next one and gives the outputs that it causes, in order. `Assembly.step` handles
one event, and `Assembly.run` a list of them.

## Main definitions

* `Assembly`: What is kept in mind between two events.
* `Assembly.ensureReported`: Makes sure that a loss has been reported.
* `Assembly.checkContinuity`: Compares the identifier of the next frame with the last one.
* `Assembly.openFrame`, `Assembly.closeFrame`: The first and the last packet of a frame.
* `Assembly.step`, `Assembly.run`: One event, and a list of events.

## Theorems

* `Assembly.run_append`: A run over two lists of events in a row.
-/

namespace VideoTransport

namespace Vp8

/-- What is kept in mind between two events. -/
structure Assembly where
  /-- The data of the frame in progress, if there is one. -/
  partialFrame : Option (List UInt8) := none
  /-- The identifier that the last packet of a frame carried. -/
  lastId : Option PictureId := none
  /-- A loss reported by the transport and not yet passed on. -/
  withheld : Option LossReport := none
  /-- Losses reported by the transport are held for now. -/
  holdsLosses : Bool := false
  /-- A loss has been reported since the last frame. -/
  lossReported : Bool := false
  /-- A frame was given up, and no loss has been reported for it. -/
  reportDue : Bool := false
  /-- Only a keyframe is of use. -/
  awaitsKeyframe : Bool := true
  /-- What the last keyframe announced. -/
  currentFormat : Option Format := none
deriving DecidableEq

namespace Assembly

/-- Goes on from where a step left off, and keeps what it has given. -/
def andThen (done : Assembly × List Output) (next : Assembly → Assembly × List Output) :
    Assembly × List Output :=
  ((next done.1).1, done.2 ++ (next done.1).2)

/-- Passes a loss on. -/
def reportLoss (origin : LossOrigin) (r : LossReport) (a : Assembly) :
    Assembly × List Output :=
  ({ a with lossReported := true }, [.packetLost origin r])

/-- Passes on the loss that is held, if there is one. -/
def releaseHeld (a : Assembly) : Assembly × List Output :=
  match a.withheld with
  | some r => reportLoss .transport r { a with withheld := none }
  | none => (a, [])

/-- Makes sure that a loss has been reported. A report that is held is preferred
    to a new one, and one that is out already is enough. Without a time no
    report can be made. After the step `lossReported` tells whether the loss is
    known downstream. -/
def ensureReported (pts : Option Duration) (a : Assembly) : Assembly × List Output :=
  let a := { a with reportDue := false }
  if a.withheld.isSome then releaseHeld a
  else if a.lossReported then (a, [])
  else match pts with
    | some time => reportLoss .stream (.inferred time) a
    | none => (a, [])

/-- Compares the identifier of the next frame with the last one. A held loss is
    dropped if they follow on each other, and passed on if not. If there is a
    gap and no loss is held, the loss is signalled, unless the settings say that
    a gap alone is no reason to. -/
def checkContinuity (s : Settings) (next : Option PictureId) (pts : Option Duration)
    (a : Assembly) : Assembly × List Output :=
  match a.lastId with
  | none => (a, [])
  | some last =>
    match last.continuity next with
    | .follows => ({ a with withheld := none }, [])
    | .undecided => releaseHeld a
    | .gap =>
      if a.withheld.isSome || s.hideIdGaps then releaseHeld a
      else ensureReported pts a

/-- Gives up the frame in progress. The loss is signalled later, when there is
    a packet to take the time from. -/
def abandonFrame (a : Assembly) : Assembly :=
  { a with partialFrame := none, reportDue := a.reportDue || a.partialFrame.isSome }

/-- The first packet of a frame. A frame that was not finished is lost. If no
    loss was signalled for that, the identifiers are compared. -/
def openFrame (s : Settings) (next : Option PictureId) (pts : Option Duration)
    (a : Assembly) : Assembly × List Output :=
  let a := abandonFrame a
  let checked :=
    if a.reportDue then
      -- Once the loss is known downstream, a gap would tell nothing new.
      andThen (ensureReported pts a) fun a =>
        if a.lossReported then (a, []) else checkContinuity s next pts a
    else checkContinuity s next pts a
  andThen checked fun a => ({ a with partialFrame := some [], holdsLosses := false }, [])

/-- Takes note of what a keyframe announces. A format other than the last one
    is told, and inter frames are of use from now on. -/
def announce (format : Option Format) (a : Assembly) : Assembly × List Output :=
  match format with
  | none => (a, [])
  | some f =>
    ({ a with currentFormat := some f, awaitsKeyframe := false },
      if a.currentFormat = some f then [] else [.formatChanged f])

/-- The last packet of a frame, of which `data` is all there is. If the frame
    has an identifier, the next frame will show whether anything between them
    is missing, so losses are held until then. -/
def closeFrame (p : Packet) (id : Option PictureId) (data : List UInt8)
    (a : Assembly) : Assembly × List Output :=
  let a := { a with partialFrame := none }
  match FrameHeader.parse data with
  | .error _ => ({ a with reportDue := true }, [])
  | .ok header =>
    andThen (announce header.format a) fun a =>
      let a := { a with holdsLosses := a.holdsLosses || id.isSome }
      -- A keyframe has ended the waiting by now, so only inter frames are dropped.
      if a.awaitsKeyframe then (a, [.keyframeRequest])
      else
        ({ a with lossReported := false },
          [.frame ⟨data, header.keyframe, header.format, p.rtpTime, p.pts, id⟩])

/-- A packet without a frame to belong to: its first part is missing. A held
    loss is passed on, and the loss of a dropped frame is signalled. -/
def skipPacket (pts : Option Duration) (a : Assembly) : Assembly × List Output :=
  let forwarded :=
    if a.holdsLosses then
      andThen (releaseHeld a) fun a => ({ a with holdsLosses := false }, [])
    else (a, [])
  andThen forwarded fun a =>
    if a.reportDue then ensureReported pts a else (a, [])

/-- Adds the data of a packet to the frame in progress, and finishes the frame
    if the packet is its last one. -/
def extendFrame (p : Packet) (d : Descriptor) (collected : List UInt8)
    (a : Assembly) : Assembly × List Output :=
  let data := collected ++ p.payload.drop d.length
  let a := { a with partialFrame := some data, lastId := d.pictureId }
  if p.marker then closeFrame p d.pictureId data a else (a, [])

/-- Breaks off the frame in progress where the stream is broken. -/
def breakOff (s : Settings) (a : Assembly) : Assembly :=
  let a := abandonFrame a
  { a with awaitsKeyframe := a.awaitsKeyframe || s.keyframeAfterBreak }

/-- The part of a packet behind its descriptor, once that has been read. -/
def takePart (s : Settings) (p : Packet) (d : Descriptor) (a : Assembly) :
    Assembly × List Output :=
  let opened := if d.startsFrame then openFrame s d.pictureId p.pts a else (a, [])
  andThen opened fun a =>
    match a.partialFrame with
    | some collected => extendFrame p d collected a
    | none => skipPacket p.pts a

/-- One packet. A payload that cannot be read ends the frame in progress. -/
def takePacket (s : Settings) (p : Packet) (a : Assembly) : Assembly × List Output :=
  let a := if p.discontinuous then breakOff s a else a
  match Descriptor.parse p.payload with
  -- The loss is signalled with the next packet that can be read.
  | .error _ => (abandonFrame a, [])
  | .ok d => takePart s p d a

/-- A loss reported by the transport. Of several that are held only the last
    one is kept. -/
def takeLoss (r : LossReport) (a : Assembly) : Assembly × List Output :=
  if a.holdsLosses then ({ a with withheld := some r }, []) else reportLoss .transport r a

/-- Forgets all but whether a keyframe is awaited. -/
def flush (a : Assembly) : Assembly :=
  { awaitsKeyframe := a.awaitsKeyframe }

/-- One event. -/
def step (s : Settings) (a : Assembly) : Event → Assembly × List Output
  | .packet p => takePacket s p a
  | .loss r => takeLoss r a
  | .flush => (flush a, [])
  | .reset => ({}, [])

/-- A list of events, with all that they cause. -/
def run (s : Settings) (a : Assembly) : List Event → Assembly × List Output
  | [] => (a, [])
  | e :: rest => andThen (step s a e) fun a => run s a rest

/-- A run over two lists of events is the run over the second one from where
    the run over the first one ends. -/
theorem run_append (s : Settings) (a : Assembly) (first rest : List Event) :
    run s a (first ++ rest) = andThen (run s a first) fun a => run s a rest := by
  induction first generalizing a with
  | nil => simp [run, andThen]
  | cons e more ih => simp [run, andThen, ih, List.append_assoc]

end Assembly

end Vp8

end VideoTransport

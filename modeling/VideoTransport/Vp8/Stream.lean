import VideoTransport.SeqNum
import VideoTransport.Vp8.Frame

/-!
# Streams of Frames

What goes into the reassembly of a VP8 stream, and what comes out of it. In go
packets, losses that the transport reports, and two calls that break the stream
off. Out come frames, and what those downstream should know about them.

## Main definitions

* `Packet`: One packet of the media stream.
* `LossReport`: A report that data is missing.
* `Event`: What happens to a stream.
* `Output`: What those downstream are told.
-/

namespace VideoTransport

namespace Vp8

/-- One packet of the media stream. -/
structure Packet where
  payload : List UInt8
  /-- The packet is the last one of its frame. -/
  marker : Bool
  seq : SeqNum
  rtpTime : UInt32
  /-- The presentation time, if it is known. -/
  pts : Option Duration
  /-- The packet does not follow on the one before it. -/
  discontinuous : Bool
deriving DecidableEq

/-- A report that data is missing. -/
structure LossReport where
  time : Duration
  duration : Duration
  /-- It is not known that a packet was lost in transport. -/
  noPacketLoss : Bool
deriving DecidableEq

/-- The report of a frame that should have come before a time. That it is
    missing follows from the stream alone, so no lost packet is claimed. -/
def LossReport.inferred (time : Duration) : LossReport :=
  ⟨time, ⟨0⟩, true⟩

/-- Who has noticed a loss. -/
inductive LossOrigin where
  /-- The transport has reported it. -/
  | transport
  /-- It shows in the stream itself. -/
  | stream
deriving DecidableEq

/-- What happens to a stream. -/
inductive Event where
  | packet (p : Packet)
  /-- The transport reports a loss. -/
  | loss (r : LossReport)
  /-- The stream is flushed, and the frame in progress with it. -/
  | flush
  /-- The stream begins anew. -/
  | reset
deriving DecidableEq

/-- What those downstream are told. -/
inductive Output where
  | frame (f : Frame)
  /-- The next frame is a keyframe of a new format. -/
  | formatChanged (f : Format)
  /-- A frame was dropped, and only a keyframe can help. -/
  | keyframeRequest
  /-- Data is missing. -/
  | packetLost (origin : LossOrigin) (r : LossReport)
deriving DecidableEq

end Vp8

end VideoTransport

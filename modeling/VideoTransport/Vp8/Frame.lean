import VideoTransport.Duration
import VideoTransport.Vp8.FrameHeader
import VideoTransport.Vp8.PictureId

/-!
# Frames

A complete VP8 frame, with what its packets said about it.

`Frame.describe` prints a frame as a record on one line. Of the data it tells
only the length.

## Main definitions

* `Frame`: Data, kind, times and identifier of one picture.
* `Frame.describe`: The frame as a record.
-/

namespace VideoTransport

namespace Vp8

/-- A complete frame, all payload descriptors removed. -/
structure Frame where
  data : List UInt8
  keyframe : Bool
  /-- Size and profile, which only keyframes tell. -/
  format : Option Format
  /-- The media clock of the last packet. -/
  rtpTime : UInt32
  /-- The presentation time of the last packet. -/
  pts : Option Duration
  /-- The identifier that the last packet carried. -/
  pictureId : Option PictureId
deriving DecidableEq

/-- The format as a record. -/
def Format.describe (f : Format) : String :=
  "Vp8Format \x7b width: " ++ toString f.width.toNat ++ ", height: " ++ toString f.height.toNat
    ++ ", profile: " ++ toString f.profile.toNat ++ " \x7d"

/-- A value that may be absent, printed as `Some(..)` or `None`. -/
def describeOption {α : Type} (describe : α → String) : Option α → String
  | none => "None"
  | some v => "Some(" ++ describe v ++ ")"

/-- The frame as a record on one line, with the length of its data. -/
def Frame.describe (f : Frame) : String :=
  "Vp8Frame \x7b data: " ++ toString f.data.length
    ++ ", keyframe: " ++ toString f.keyframe
    ++ ", format: " ++ describeOption Format.describe f.format
    ++ ", rtp_time: " ++ toString f.rtpTime.toNat
    ++ ", pts: " ++ describeOption Duration.text f.pts
    ++ ", picture_id: " ++ describeOption PictureId.describe f.pictureId ++ " \x7d"

end Vp8

end VideoTransport

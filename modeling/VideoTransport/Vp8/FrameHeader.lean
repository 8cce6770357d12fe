/-!
# Frame Headers

The first bytes of a complete VP8 frame. Bit zero of the first byte is clear in
a keyframe, and the three bits above it give the profile. A keyframe also tells
its size, in two fields of 14 bits that have the less significant byte first.

A frame of less than ten bytes cannot hold the header of a keyframe, and is
refused whatever its kind.

## Main definitions

* `Format`: Size and profile of a stream.
* `FrameHeader`: Kind, profile and size of a frame.
* `FrameHeader.parse`: Reads the header of a complete frame.
* `FrameHeader.format`: The format that a keyframe announces.
* `FrameError`: The frame ended too early.
-/

namespace VideoTransport

namespace Vp8

/-- Size in pixels and profile of a stream, as keyframes tell them. -/
structure Format where
  width : UInt16
  height : UInt16
  profile : UInt8
deriving DecidableEq

/-- What the first bytes of a frame say. Only keyframes have a size. -/
structure FrameHeader where
  keyframe : Bool
  profile : UInt8
  width : UInt16
  height : UInt16
deriving DecidableEq

/-- A frame that is too short for a header, with its length. -/
structure FrameError where
  length : Nat
deriving DecidableEq

/-- The error in words. -/
def FrameError.message (e : FrameError) : String :=
  "Frame is too short: " ++ toString e.length ++ " bytes"

namespace FrameHeader

/-- Fourteen bits, the less significant byte first. The two bits on top are a
    scaling hint and not part of the size. -/
def sizeField (low high : UInt8) : UInt16 :=
  UInt16.ofNat ((high.toNat * 256 + low.toNat) % 16384)

/-- Reads the header of a complete frame. -/
def parse (frame : List UInt8) : Except FrameError FrameHeader :=
  match frame with
  | first :: _ :: _ :: _ :: _ :: _ :: w0 :: w1 :: h0 :: h1 :: _ =>
    let keyframe := !first.toNat.testBit 0
    .ok {
      keyframe
      profile := UInt8.ofNat (first.toNat / 2 % 8)
      width := if keyframe then sizeField w0 w1 else 0
      height := if keyframe then sizeField h0 h1 else 0
    }
  | _ => .error ⟨frame.length⟩

/-- The format that the frame announces, if it is a keyframe. -/
def format (h : FrameHeader) : Option Format :=
  if h.keyframe then some ⟨h.width, h.height, h.profile⟩ else none

end FrameHeader

end Vp8

end VideoTransport

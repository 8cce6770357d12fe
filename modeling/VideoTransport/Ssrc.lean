import VideoTransport.BigEndian

/-!
# Synchronization Sources

The 32 bit identifier of one sender of media or feedback.

## Main definitions

* `Ssrc`: The identifier.
* `Ssrc.bytes`: Its four bytes on the wire.
* `Ssrc.text`: Its decimal digits.
-/

namespace VideoTransport

/-- The identifier of a synchronization source. -/
structure Ssrc where
  value : UInt32
deriving DecidableEq

namespace Ssrc

/-- The identifier as it goes on the wire. -/
def bytes (s : Ssrc) : List UInt8 :=
  BigEndian.bytes32 s.value

/-- The identifier read from four bytes, the most significant first. -/
def ofBytes (a b c d : UInt8) : Ssrc :=
  ⟨BigEndian.join32 a b c d⟩

/-- The identifier in decimal digits. -/
def text (s : Ssrc) : String :=
  toString s.value.toNat

end Ssrc

end VideoTransport

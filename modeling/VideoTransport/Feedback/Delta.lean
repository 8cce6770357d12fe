import VideoTransport.BigEndian
import VideoTransport.Feedback.Status

/-!
# Receive Deltas

The time of an arrival is sent as the difference from the arrival before it, in
units of 250 microseconds. From 0 to 255 units take one byte, and all else that
can be sent takes two.

## Main definitions

* `Delta`: A difference of one or of two bytes.
* `Delta.units`: The difference itself.
* `Delta.ofUnits?`: The shortest form of a difference, if it can be sent.
* `Delta.bytes`: The delta on the wire.

## Theorems

* `Delta.length_bytes`: A delta takes as many bytes as its size says.
-/

namespace VideoTransport

namespace Feedback

/-- The microseconds in one unit of a delta. -/
def deltaUnit : Nat :=
  250

/-- The microseconds in one unit of reference time. -/
def referenceUnit : Nat :=
  64000

/-- The difference of two arrivals in units of 250 microseconds. -/
inductive Delta where
  | small (units : UInt8)
  | large (units : Int16)
deriving DecidableEq

namespace Delta

/-- The number of units, which only a large delta can have below zero. -/
def units : Delta → Int
  | small u => u.toNat
  | large u => u.toInt

/-- The bytes that a delta takes. -/
def size : Delta → Nat
  | small _ => 1
  | large _ => 2

/-- The status that announces a delta of this size. -/
def status : Delta → Status
  | small _ => .smallDelta
  | large _ => .largeDelta

/-- A large delta read from two bytes. -/
def ofBytes (high low : UInt8) : Delta :=
  large (BigEndian.join16 high low).toInt16

/-- The delta on the wire. -/
def bytes : Delta → List UInt8
  | small u => [u]
  | large u => BigEndian.bytes16 u.toUInt16

/-- The shortest form of a number of units. None if it has more than 16 bits. -/
def ofUnits? (units : Int) : Option Delta :=
  if 0 ≤ units ∧ units ≤ 255 then some (small (UInt8.ofNat units.toNat))
  else if -32768 ≤ units ∧ units ≤ 32767 then some (large (Int16.ofInt units))
  else none

theorem length_bytes (d : Delta) : d.bytes.length = d.size := by
  cases d <;> rfl

end Delta

end Feedback

end VideoTransport

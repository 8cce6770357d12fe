/-!
# Picture Identifiers

A VP8 stream may number its pictures, with 7 bits or with 15. The number wraps
at its width, and a stream may change from the narrow form to the wide one.

How far one identifier is from the next is counted in the width of the next
one, since that is the width in which the sender counted when it produced it.

## Main definitions

* `PictureId`: A number of 7 or of 15 bits.
* `PictureId.bits`: How many bits that are.
* `PictureId.distance`: Steps from one picture to the next, the short way round.
* `PictureId.distanceInWord`: The same steps, worked out in a word.
* `PictureId.isJustBefore`: The next identifier is one step ahead.
* `PictureId.continuity`: What the next identifier says about pictures between.
* `PictureId.text`: The identifier in hexadecimal.

## Theorems

* `PictureId.value_lt_span`: An identifier is below the number of values of its width.
-/

namespace VideoTransport

namespace Vp8

/-- The number of a picture, in one of two widths. -/
inductive PictureId where
  | narrow (value : Fin 128)
  | wide (value : Fin 32768)
deriving DecidableEq

namespace PictureId

/-- A narrow identifier, of the seven low bits of a byte. -/
def ofByte (b : UInt8) : PictureId :=
  narrow (Fin.ofNat 128 b.toNat)

/-- A wide identifier, of the fifteen low bits of a word. -/
def ofWord (w : UInt16) : PictureId :=
  wide (Fin.ofNat 32768 w.toNat)

/-- The number itself, whatever its width. -/
def value : PictureId → Nat
  | narrow v => v.val
  | wide v => v.val

/-- Whether the identifier has 15 bits. -/
def isWide : PictureId → Bool
  | narrow _ => false
  | wide _ => true

/-- How many bits an identifier of this width has. -/
def bits : PictureId → Nat
  | narrow _ => 7
  | wide _ => 15

/-- How many identifiers there are of this width, which has 7 bits or 15. -/
def span : PictureId → Nat
  | narrow _ => 128
  | wide _ => 32768

/-- Steps from one identifier to the next, the short way round the circle of
    the next one's width. Positive if the next one is ahead. -/
def distance (last next : PictureId) : Int :=
  Int.bmod (next.value - last.value) next.span

/-- The same steps, worked out in a word. Both numbers are moved to its top, so
    that what is left of a wider one fits the circle, the difference wraps, and
    its sign tells the shorter way. -/
def distanceInWord (last next : PictureId) : Int :=
  let shift := 16 - next.bits
  let way := BitVec.ofNat 16 next.value <<< shift - BitVec.ofNat 16 last.value <<< shift
  (way.sshiftRight shift).toInt

/-- Whether the next identifier is one step ahead, with no picture between. -/
def isJustBefore (last next : PictureId) : Bool :=
  distance last next == 1

/-- What an identifier says about the pictures between it and the last one. -/
inductive Continuity where
  /-- No picture is missing. -/
  | follows
  /-- At least one picture is missing. -/
  | gap
  /-- The two cannot be compared. -/
  | undecided
deriving DecidableEq

/-- What the next picture's identifier, if it has one, says about the pictures
    after the last. A narrow number after a wide one says nothing: the sender
    has begun to count anew. -/
def continuity (last : PictureId) : Option PictureId → Continuity
  | none => .undecided
  | some next =>
    if last.isWide && !next.isWide then .undecided
    else if last.isJustBefore next then .follows
    else .gap

/-- The hexadecimal digits of a number, with zeros in front up to a length. -/
def hexDigits (length n : Nat) : String :=
  let digits := Nat.toDigits 16 n
  String.ofList (List.replicate (length - digits.length) '0' ++ digits)

/-- The identifier in hexadecimal, in two digits or in four. -/
def text (p : PictureId) : String :=
  "0x" ++ hexDigits (if p.isWide then 4 else 2) p.value

/-- The identifier as a record of its number and its width. -/
def describe (p : PictureId) : String :=
  "PictureId \x7b value: " ++ toString p.value ++ ", wide: " ++ toString p.isWide ++ " \x7d"

theorem value_lt_span (p : PictureId) : p.value < p.span := by
  cases p with
  | narrow v => exact v.isLt
  | wide v => exact v.isLt

end PictureId

end Vp8

end VideoTransport

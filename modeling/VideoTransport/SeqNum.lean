/-!
# Sequence Numbers

Packets are numbered with 16 bits, and after 65535 comes zero. Two numbers are
therefore compared on a circle: `distance a b` is the shortest way from `a` to
`b`, forward counted positive, and `b` is newer than `a` if the way there leads
forward.

The two numbers that lie exactly opposite each other are at distance -32768 in
both directions, so neither of them is newer.

## Main definitions

* `SeqNum`: A sequence number.
* `SeqNum.distance`: Steps from one number to another, the short way round.
* `SeqNum.order`: The circular order of two numbers.
* `SeqNum.precedes`: The second number is newer than the first.
* `SeqNum.advance`: The number some steps ahead.

## Theorems

* `SeqNum.distance_self`: A number is at distance zero from itself.
* `SeqNum.distance_lt`, `SeqNum.le_distance`: A distance is at most half the circle.
-/

namespace VideoTransport

/-- A sequence number, counting modulo 65536. -/
abbrev SeqNum := UInt16

namespace SeqNum

/-- Steps from `a` to `b`, the short way round. Positive if `b` is ahead. -/
def distance (a b : SeqNum) : Int :=
  Int.bmod (b.toNat - a.toNat) 65536

/-- The circular order of two numbers: `lt` if the second is newer. -/
def order (a b : SeqNum) : Ordering :=
  compare 0 (distance a b)

/-- Whether `b` is newer than `a`. -/
def precedes (a b : SeqNum) : Bool :=
  0 < distance a b

/-- The number `n` steps ahead. -/
def advance (a : SeqNum) (n : Nat) : SeqNum :=
  a + UInt16.ofNat n

/-- The number that follows. -/
def next (a : SeqNum) : SeqNum :=
  a.advance 1

/-- The number in decimal digits. -/
def text (a : SeqNum) : String :=
  toString a.toNat

/-- Steps from `a` forward to `b`, never counted backward. -/
def stepsTo (a b : SeqNum) : Nat :=
  (b - a).toNat

theorem distance_self (a : SeqNum) : distance a a = 0 := by
  simp [distance]

theorem distance_lt (a b : SeqNum) : distance a b < 32768 := by
  have := Int.bmod_lt (x := (b.toNat : Int) - a.toNat) (m := 65536) (by decide)
  simpa [distance] using this

theorem le_distance (a b : SeqNum) : -32768 ≤ distance a b := by
  have := Int.le_bmod (x := (b.toNat : Int) - a.toNat) (m := 65536) (by decide)
  simpa [distance] using this

end SeqNum

end VideoTransport

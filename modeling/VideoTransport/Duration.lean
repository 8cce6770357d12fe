/-!
# Durations

A span of time, counted in whole nanoseconds. Times of packets are durations
since an origin that the caller chooses.

`Duration.text` prints a duration in the largest of the units seconds,
milliseconds, microseconds and nanoseconds in which it is at least one. What
is left over follows as decimals, without trailing zeros, and zero is printed
in nanoseconds.

## Main definitions

* `Duration`: A number of nanoseconds.
* `Duration.micros`: Whole microseconds, the rest cut off.
* `Duration.text`: The duration in its largest fitting unit.

## Theorems

* `Duration.micros_ofMicros`: Microseconds survive the way into a duration.
-/

namespace VideoTransport

/-- A span of time in nanoseconds. -/
structure Duration where
  nanos : Nat
deriving DecidableEq

namespace Duration

/-- A duration of whole microseconds. -/
def ofMicros (n : Nat) : Duration :=
  ⟨n * 1000⟩

/-- The whole microseconds of a duration. -/
def micros (d : Duration) : Nat :=
  d.nanos / 1000

@[simp] theorem micros_ofMicros (n : Nat) : (ofMicros n).micros = n := by
  simp [ofMicros, micros]

/-- The decimals of `part`, of which there are up to `places`, with the point in
    front and without trailing zeros. Nothing when there are none. -/
def decimals (part places : Nat) : String :=
  let digits := (toString part).toList
  let padded := List.replicate (places - digits.length) '0' ++ digits
  let kept := (padded.reverse.dropWhile (· == '0')).reverse
  if kept.isEmpty then "" else String.ofList ('.' :: kept)

/-- The duration in units of `scale` nanoseconds, which is 1 with `places` zeros. -/
def inUnit (d : Duration) (scale places : Nat) (unit : String) : String :=
  toString (d.nanos / scale) ++ decimals (d.nanos % scale) places ++ unit

/-- The duration in the largest unit in which it is at least one. -/
def text (d : Duration) : String :=
  if 1000000000 ≤ d.nanos then d.inUnit 1000000000 9 "s"
  else if 1000000 ≤ d.nanos then d.inUnit 1000000 6 "ms"
  else if 1000 ≤ d.nanos then d.inUnit 1000 3 "µs"
  else d.inUnit 1 0 "ns"

end Duration

end VideoTransport

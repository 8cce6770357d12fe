import VideoTransport.Duration
import VideoTransport.Feedback.ChunkBuilder
import VideoTransport.Feedback.Message

/-!
# Batches of Arrivals

Arrivals are reported in batches. To be reported, a batch is put in the order of
sequence numbers, with only the earliest recorded arrival of each number, and
cut into windows. A window is what one feedback can tell: each arrival in it is
a delta from the one before.

Deltas are counted from the time that a reader of the feedback will have worked
out, not from the true one. So what is lost in rounding one delta is made up
for in the next, and errors do not add up.

A new window is begun only where a delta cannot be sent. The first arrival of a
window always fits, since its reference time is the nearest one before it.

## Main definitions

* `Arrival`: One arrival.
* `span`: How many sequence numbers a list of them covers.
* `inOrder`: A batch in the order of sequence numbers, each number once.
* `Window`: The arrivals of one feedback.
* `Window.extend?`: Adds an arrival to a window, if its delta can be sent.
* `windows`: The windows of a sorted batch.
* `Window.message`: The feedback that tells a window.

## Theorems

* `span_singleton`: One number spans one.
-/

namespace VideoTransport

namespace Feedback

/-- The arrival of one packet. -/
structure Arrival where
  seq : SeqNum
  time : Duration
deriving DecidableEq

namespace Arrival

/-- The whole microseconds of the arrival, of which 64 bits are kept. -/
def micros (r : Arrival) : UInt64 :=
  UInt64.ofNat r.time.micros

/-- The 64 bits read as a signed number, the way in which deltas are counted. -/
def signedMicros (r : Arrival) : Int :=
  r.micros.toInt64.toInt

end Arrival

/-- How many sequence numbers are covered from the lowest to the highest of
    some, as seen from the first one. -/
def span : List SeqNum → Nat
  | [] => 0
  | anchor :: rest =>
    let offsets := rest.map anchor.distance
    (offsets.foldl max 0 - offsets.foldl min 0 + 1).toNat

/-- A batch in the order of sequence numbers, as seen from its first arrival.
    Of several arrivals of one number the one recorded first is kept, which the
    stability of the sorting puts in front. -/
def inOrder : List Arrival → List Arrival
  | [] => []
  | first :: rest =>
    -- As long as no more than half the circle is covered, this is the order on it.
    let sorted := (first :: rest).mergeSort fun a b =>
      first.seq.distance a.seq ≤ first.seq.distance b.seq
    sorted.eraseRepsBy fun a b => a.seq == b.seq

/-- The arrivals of one feedback, told as deltas. -/
structure Window where
  /-- The first sequence number. -/
  base : SeqNum
  /-- The reference time in units of 64 milliseconds. -/
  reference : Nat
  /-- The delta of the first arrival. -/
  firstDelta : Delta
  /-- The arrivals after the first one, the latest in front. -/
  later : List (SeqNum × Delta)
  /-- The microseconds of the last arrival, as a reader will work them out. -/
  clock : Int
deriving DecidableEq

namespace Window

/-- A window that begins with an arrival. What the reference time leaves of it
    is below 256 units, so the delta is small. -/
def start (r : Arrival) : Window :=
  let reference := r.micros.toNat / referenceUnit
  let units := r.micros.toNat % referenceUnit / deltaUnit
  {
    base := r.seq
    reference
    firstDelta := .small (UInt8.ofNat units)
    later := []
    clock := reference * referenceUnit + units * deltaUnit
  }

/-- Adds the next arrival, if the time since the last one can be sent. -/
def extend? (w : Window) (r : Arrival) : Option Window :=
  -- Rounding is toward zero, so the clock never passes the arrival.
  let units := (r.signedMicros - w.clock).tdiv deltaUnit
  (Delta.ofUnits? units).map fun d =>
    { w with later := (r.seq, d) :: w.later, clock := w.clock + units * deltaUnit }

/-- The deltas of all arrivals, in order. -/
def deltas (w : Window) : List Delta :=
  w.firstDelta :: w.later.reverse.map (·.2)

/-- The statuses of the numbers after `last` up to the last arrival. What lies
    between two arrivals has not been received. -/
def fillFrom (last : SeqNum) : List (SeqNum × Delta) → List Status
  | [] => []
  | (seq, d) :: rest =>
    List.replicate (last.stepsTo seq - 1) .notReceived ++ d.status :: fillFrom seq rest

/-- The statuses of all numbers from the first arrival to the last. -/
def statuses (w : Window) : List Status :=
  w.firstDelta.status :: fillFrom w.base w.later.reverse

/-- The feedback that tells the window. The reference time is cut to the 24 bits
    that it has on the wire. -/
def message (w : Window) (sender media : Ssrc) (count : UInt8) : Message where
  senderSsrc := sender
  mediaSsrc := media
  baseSeq := w.base
  statusCount := UInt16.ofNat w.statuses.length
  referenceTime := UInt32.ofNat (w.reference % 16777216)
  feedbackCount := count
  chunks := Chunk.encode .oneBit w.statuses
  deltas := w.deltas

/-- Fills a window with arrivals, and begins a new one with each that does not
    fit. -/
def fill (w : Window) : List Arrival → List Window
  | [] => [w]
  | r :: rest =>
    match w.extend? r with
    | some w => fill w rest
    | none => w :: fill (start r) rest

end Window

/-- The windows of a sorted batch. -/
def windows : List Arrival → List Window
  | [] => []
  | first :: rest => (Window.start first).fill rest

theorem span_singleton (s : SeqNum) : span [s] = 1 := rfl

end Feedback

end VideoTransport

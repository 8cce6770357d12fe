import VideoTransport.Feedback.Error
import VideoTransport.Feedback.Message
import VideoTransport.Feedback.SendHistory

/-!
# Reports on Sent Packets

The sender of a media stream reads the feedback on it, and joins what it says
about each sequence number with the packet that was sent under it.

Feedback may be lost on its way. Numbers between the end of the last feedback
and the beginning of the next one are therefore reported too, as not received.

Nothing in the control information has to be true. A report ends where the
bytes run out: with the last status that a chunk describes, or before the first
one whose delta is missing.

## Main definitions

* `Reception`: What feedback says about one sequence number.
* `Reception.ofStatuses`: Joins statuses with deltas to times of arrival.
* `PacketReport`, `Report`: What is known about packets after a feedback.
* `ReportReader`: The sequence number from which the next feedback is expected.
* `ReportReader.read`: Reads one feedback.

## Theorems

* `ReportReader.read_short`: What is shorter than any feedback is refused.
-/

namespace VideoTransport

namespace Feedback

/-- What feedback says about one sequence number. -/
structure Reception where
  seq : SeqNum
  status : Status
  /-- The time of arrival, on the clock of the receiver. -/
  arrival : Option Duration
deriving DecidableEq

namespace Reception

/-- The statuses that the chunks at the start of some bytes describe, but no
    more than `count`, behind those that were found before. Gives the bytes that
    are left, too: what follows the last chunk, or half a chunk at the end. -/
def describedStatuses (count : Nat) (found : Array Status) :
    List UInt8 → List Status × List UInt8
  | high :: low :: rest =>
    if count ≤ found.size then (found.toList, high :: low :: rest)
    else
      let c := Chunk.ofWire (BigEndian.join16 high low)
      describedStatuses count (found ++ c.firstStatuses (count - found.size)) rest
  | short => (found.toList, short)

/-- The units of the delta that a status announces, if it does, and the bytes
    behind it. None if the delta is missing. -/
def readUnits : Status → List UInt8 → Option (Option Int × List UInt8)
  | .smallDelta, b :: rest => some (some (Delta.small b).units, rest)
  | .smallDelta, [] => none
  | .largeDelta, high :: low :: rest => some (some (Delta.ofBytes high low).units, rest)
  | .largeDelta, _ => none
  | _, bytes => some (none, bytes)

/-- A time on the clock of the receiver. There is none before its origin. -/
def timeOf (micros : Int) : Option Duration :=
  if micros < 0 then none else some (.ofMicros micros.toNat)

/-- Joins statuses with the deltas in some bytes, up to the first one whose delta
    is missing, behind those that were joined before. The clock is moved on by
    each delta, also where it points before its origin. -/
def ofStatuses (found : Array Reception) (clock : Int) :
    List (SeqNum × Status) → List UInt8 → List Reception
  | [], _ => found.toList
  | (seq, status) :: rest, bytes =>
    match readUnits status bytes with
    | none => found.toList
    | some (none, bytes) => ofStatuses (found.push ⟨seq, status, none⟩) clock rest bytes
    | some (some units, bytes) =>
      let clock := clock + units * deltaUnit
      ofStatuses (found.push ⟨seq, status, timeOf clock⟩) clock rest bytes

end Reception

/-- What is known about one packet after a feedback. -/
structure PacketReport extends Reception where
  /-- The time of sending, if the packet is in the history. -/
  sentAt : Option Duration
  /-- The time at which the socket sent the packet. -/
  socketTime : Option Duration
  /-- The size in bytes, if the packet is in the history. -/
  size : Option Nat
deriving DecidableEq

/-- What a feedback says, joined with the history of sent packets. -/
structure Report where
  /-- The first sequence number that the feedback itself covers. -/
  baseSeq : SeqNum
  /-- The number of statuses that the feedback declares. -/
  declaredCount : UInt16
  referenceTime : Duration
  /-- The running number of the feedback. -/
  feedbackCount : UInt8
  /-- One entry for each sequence number, beginning with those that were passed
      over since the last feedback. -/
  packets : List PacketReport
deriving DecidableEq

/-- Adds what a feedback says to the history of sent packets. -/
def SendHistory.applyAll (h : SendHistory) (receptions : List Reception) : SendHistory :=
  receptions.foldl (fun h r => h.apply r.seq r.status r.arrival) h

/-- Joins what a feedback says about one number with the packet of that number. -/
def SendHistory.join (h : SendHistory) (r : Reception) : PacketReport :=
  let sent := h.get? r.seq
  { r with
    sentAt := sent.map (·.sentAt)
    socketTime := sent.bind (·.socketTime)
    size := sent.map (·.size) }

/-- What a reader of feedback keeps in mind between one feedback and the next. -/
structure ReportReader where
  /-- The number behind the highest one that has been covered. -/
  expected : Option SeqNum := none
deriving DecidableEq

namespace ReportReader

/-- The numbers passed over since the last feedback, if the next one begins at
    `base`. None of them has been received. -/
def skipped (r : ReportReader) (base : SeqNum) : List (SeqNum × Status) :=
  match r.expected with
  | none => []
  | some expected =>
    Message.number expected (List.replicate (expected.distance base).toNat .notReceived)

/-- The reader after a feedback that ends before `stop`. The expected number
    never moves back. -/
def moveTo (r : ReportReader) (stop : SeqNum) : ReportReader :=
  match r.expected with
  | none => ⟨some stop⟩
  | some expected => if expected.precedes stop then ⟨some stop⟩ else r

/-- What the control information of a feedback says about each number. -/
def receptions (r : ReportReader) (base : SeqNum) (count : UInt16) (reference : UInt32)
    (bytes : List UInt8) : List Reception :=
  let (statuses, rest) := Reception.describedStatuses count.toNat #[] bytes
  Reception.ofStatuses #[] (reference.toNat * referenceUnit)
    (r.skipped base ++ Message.number base statuses) rest

/-- Reads the control information of a feedback, which has at least the fixed
    fields and one chunk. -/
def read (r : ReportReader) (h : SendHistory) :
    List UInt8 → Except Error (Report × ReportReader × SendHistory)
  | b0 :: b1 :: n0 :: n1 :: t0 :: t1 :: t2 :: feedbackCount :: c0 :: c1 :: rest =>
    let baseSeq := BigEndian.join16 b0 b1
    let declaredCount := BigEndian.join16 n0 n1
    let reference := BigEndian.join24 t0 t1 t2
    let receptions := r.receptions baseSeq declaredCount reference (c0 :: c1 :: rest)
    let h := h.applyAll receptions
    let report := {
      baseSeq
      declaredCount
      referenceTime := .ofMicros (reference.toNat * referenceUnit)
      feedbackCount
      packets := receptions.map h.join
    }
    .ok (report, r.moveTo (baseSeq + declaredCount), h)
  | short => .error (.shortControlInfo short.length)

/-- What is shorter than the fixed fields and one chunk is refused. -/
theorem read_short (r : ReportReader) (h : SendHistory) (info : List UInt8)
    (short : info.length < 10) : r.read h info = .error (.shortControlInfo info.length) := by
  unfold read
  split
  · simp only [List.length_cons] at short
    omega
  · rfl

end ReportReader

end Feedback

end VideoTransport

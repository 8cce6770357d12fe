import VideoTransport.Feedback.Batch
import VideoTransport.Feedback.Capacity

/-!
# Log of Arrivals

The receiving side of feedback. The arrival of each packet is recorded, and the
arrivals are reported in batches. A batch is reported

* before an arrival that would make it cover more numbers than fit in a feedback;
* after an arrival that carries the marker;
* after an arrival that makes it cover 30 numbers or more, if that is more than
  there are arrivals in it, repetitions included;
* when asked for.

An arrival of the number recorded last is a repetition and is passed over. So is
one that is not newer than all that has been reported: it comes too late. But an
arrival that is 2048 numbers or more behind does not come late: the sender has
begun to count anew.

## Main definitions

* `ArrivalLog`: What is known about arrivals.
* `ArrivalLog.record`: One arrival.
* `ArrivalLog.report`: Turns the batch into feedback.
* `ArrivalLog.poll`: Takes the oldest feedback.
* `ArrivalLog.reset`: Forgets all but the running number of feedback.
* `ArrivalLog.step`, `ArrivalLog.run`: One call, and a list of calls.

## Theorems

* `ArrivalLog.run_append`: A run over two lists of calls in a row.
* `ArrivalLog.batch_report`: No arrival is left behind by a report.
-/

namespace VideoTransport

namespace Feedback

/-- What is known about arrivals. -/
structure ArrivalLog where
  /-- The greatest number of statuses in one feedback. -/
  limit : Nat
  /-- The source that feedback is sent from. -/
  sender : Ssrc
  /-- The source of the first arrival, which feedback is about. -/
  media : Option Ssrc := none
  /-- Arrivals that have not been reported, in the order of recording. -/
  batch : List Arrival := []
  /-- The number recorded last. -/
  latest : Option SeqNum := none
  /-- The highest number that has been reported. -/
  reportedTo : Option SeqNum := none
  /-- The running number of the next feedback. -/
  feedbackCount : UInt8 := 0
  /-- Feedback that has not been asked for yet, the oldest first. -/
  ready : List Message := []

/-- How far behind the last report an arrival counts as late. -/
def restartDistance : Int :=
  2048

/-- How many numbers a batch with losses covers before it is reported. -/
def lossySpan : Nat :=
  30

namespace ArrivalLog

/-- A log for feedback in packets of `mtu` bytes. -/
def start (mtu : Nat) (sender : Ssrc) : Except Error ArrivalLog :=
  (statusLimit mtu).map fun limit => { limit, sender }

/-- Whether there are arrivals that have not been reported. -/
def hasPending (log : ArrivalLog) : Bool :=
  !log.batch.isEmpty

/-- The sequence numbers of the batch. -/
def pending (log : ArrivalLog) : List SeqNum :=
  log.batch.map Arrival.seq

/-- Whether an arrival comes too late to be reported. -/
def isLate (log : ArrivalLog) (seq : SeqNum) : Bool :=
  match log.reportedTo with
  | none => false
  | some reported =>
    let d := reported.distance seq
    d ≤ 0 && -restartDistance < d

/-- Whether an arrival is passed over, as a repetition or as too late. -/
def ignores (log : ArrivalLog) (seq : SeqNum) : Bool :=
  log.latest == some seq || log.isLate seq

/-- Adds the feedback of a window to those that wait. What has been reported
    never moves back. -/
def addWindow (log : ArrivalLog) (w : Window) : ArrivalLog :=
  let m := w.message log.sender (log.media.getD ⟨0⟩) log.feedbackCount
  let last := m.baseSeq.advance (m.statusCount.toNat - 1)
  let newer := match log.reportedTo with
    | none => true
    | some reported => reported.precedes last
  { log with
    reportedTo := if newer then some last else log.reportedTo
    feedbackCount := log.feedbackCount + 1
    ready := log.ready ++ [m] }

/-- Turns the batch into feedback, if there is anything in it. -/
def report (log : ArrivalLog) : ArrivalLog :=
  (windows (inOrder log.batch)).foldl addWindow { log with batch := [] }

/-- Whether an arrival would make the batch cover too many numbers. -/
def overflows (log : ArrivalLog) (seq : SeqNum) : Bool :=
  log.hasPending && log.limit < span (log.pending ++ [seq])

/-- Whether the batch covers many numbers, and more of them than it has arrivals.
    A number that has arrived twice counts twice, and can hide one that is missing. -/
def isLossy (log : ArrivalLog) : Bool :=
  let covered := span log.pending
  lossySpan ≤ covered && log.batch.length < covered

/-- Adds an arrival to the batch. -/
def append (log : ArrivalLog) (r : Arrival) (ssrc : Ssrc) : ArrivalLog :=
  { log with
    media := some (log.media.getD ssrc)
    batch := log.batch ++ [r]
    latest := some r.seq }

/-- Records the arrival of a packet. -/
def record (log : ArrivalLog) (r : Arrival) (ssrc : Ssrc) (marker : Bool) : ArrivalLog :=
  if log.ignores r.seq then log
  else
    -- An arrival that does not fit beside the batch begins a new one.
    let log := if log.overflows r.seq then log.report else log
    let log := log.append r ssrc
    if marker || log.isLossy then log.report else log

/-- Takes the oldest feedback. -/
def poll (log : ArrivalLog) : Option Message × ArrivalLog :=
  (log.ready.head?, { log with ready := log.ready.tail })

/-- Forgets all arrivals and feedback. Only the running number goes on. -/
def reset (log : ArrivalLog) : ArrivalLog :=
  { limit := log.limit, sender := log.sender, feedbackCount := log.feedbackCount }

/-- What can be asked of a log. -/
inductive Call where
  | record (r : Arrival) (ssrc : Ssrc) (marker : Bool)
  | report
  | poll
  | reset

/-- One call. -/
def step (log : ArrivalLog) : Call → ArrivalLog
  | .record r ssrc marker => log.record r ssrc marker
  | .report => log.report
  | .poll => log.poll.2
  | .reset => log.reset

/-- A list of calls. -/
def run (log : ArrivalLog) (calls : List Call) : ArrivalLog :=
  calls.foldl step log

/-- A run over two lists of calls is the run over the second one from where the
    run over the first one ends. -/
theorem run_append (log : ArrivalLog) (first rest : List Call) :
    log.run (first ++ rest) = (log.run first).run rest := by
  simp [run, List.foldl_append]

/-- A report leaves no arrival behind. -/
theorem batch_report (log : ArrivalLog) : log.report.batch = [] := by
  have keep (ws : List Window) (log : ArrivalLog) : (ws.foldl addWindow log).batch = log.batch := by
    induction ws generalizing log with
    | nil => rfl
    | cons w rest ih => rw [List.foldl_cons, ih]; rfl
  rw [report, keep]

end ArrivalLog

end Feedback

end VideoTransport

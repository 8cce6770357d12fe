import VideoTransport.Feedback.ArrivalLog
import VideoTransport.Feedback.Framing
import VideoTransport.Feedback.Report
import VideoTransport.Feedback.Settings

/-!
# Feedback Endpoints

One end of a transport that both sends and receives media. It gives feedback on
the packets that arrive, and reads the feedback on the packets that it sends.

## Main definitions

* `Endpoint`: The log of arrivals, the history of sent packets, and the reader.
* `Endpoint.record`, `Endpoint.report`, `Endpoint.poll`: The receiving side.
* `Endpoint.send`, `Endpoint.attach`, `Endpoint.sent?`: The sending side.
* `Endpoint.readControlInfo`, `Endpoint.readPacket`: Feedback from the other end.
-/

namespace VideoTransport

namespace Feedback

/-- One end of a transport. -/
structure Endpoint where
  settings : Settings
  arrivals : ArrivalLog
  history : SendHistory
  reader : ReportReader := {}

namespace Endpoint

/-- An endpoint that has seen nothing yet. The packets have to be large enough
    for feedback. -/
def start (s : Settings) : Except Error Endpoint :=
  (ArrivalLog.start s.mtu s.sender).map fun arrivals =>
    { settings := s, arrivals, history := .start s.historySize }

/-- Records the arrival of a packet. -/
def record (e : Endpoint) (r : Arrival) (ssrc : Ssrc) (marker : Bool) : Endpoint :=
  { e with arrivals := e.arrivals.record r ssrc marker }

/-- Makes feedback of all arrivals that have not been reported. -/
def report (e : Endpoint) : Endpoint :=
  { e with arrivals := e.arrivals.report }

/-- Takes the oldest feedback, as a packet. -/
def poll (e : Endpoint) : Option (List UInt8) × Endpoint :=
  let (message, arrivals) := e.arrivals.poll
  (message.map Message.bytes, { e with arrivals })

/-- Adds a packet to the history under the next number, which is given. -/
def send (e : Endpoint) (sentAt : Duration) (size : Nat) : SeqNum × Endpoint :=
  (e.history.nextSeq, { e with history := e.history.send sentAt size })

/-- Adds a packet to the history under a number of the caller's choice. -/
def sendAs (e : Endpoint) (seq : SeqNum) (sentAt : Duration) (size : Nat) : Endpoint :=
  { e with history := e.history.record seq sentAt size }

/-- Notes when the socket sent the packet of a number. Tells whether there is
    one. -/
def attach (e : Endpoint) (seq : SeqNum) (time : Duration) : Bool × Endpoint :=
  let (found, history) := e.history.attach seq time
  (found, { e with history })

/-- The packet that was sent under a number, if it is remembered. -/
def sent? (e : Endpoint) (seq : SeqNum) : Option SentPacket :=
  e.history.get? seq

/-- Reads the control information of a feedback. -/
def readControlInfo (e : Endpoint) (info : List UInt8) : Except Error (Report × Endpoint) :=
  (e.reader.read e.history info).map fun (report, reader, history) =>
    (report, { e with reader, history })

/-- Reads a feedback packet. -/
def readPacket (e : Endpoint) (packet : List UInt8) : Except Error (Report × Endpoint) := do
  let info ← controlInfo packet
  e.readControlInfo info

/-- Forgets everything but the settings, the running number of feedback and the
    next number to send under. -/
def reset (e : Endpoint) : Endpoint :=
  { e with arrivals := e.arrivals.reset, history := e.history.reset, reader := {} }

end Endpoint

end Feedback

end VideoTransport

import VideoTransport.Document
import VideoTransport.Ssrc

/-!
# Settings of a Feedback Endpoint

The size of packets, the source that feedback is sent from, and how many sent
packets are remembered.

Sequence numbers have 16 bits, and a history is only unambiguous if it covers
less than half of them. A history size that is set is therefore kept between 1
and 32767. One that is read from a document is taken as it is.

## Main definitions

* `Settings`: The settings.
* `Settings.standard`: What they are unless set.
* `Settings.withHistorySize`: Sets the number of packets to remember.
* `Settings.ofDocument?`: The settings in a document.
* `Settings.json`: The settings as a document in JSON.
-/

namespace VideoTransport

namespace Feedback

/-- The settings of a feedback endpoint. -/
structure Settings where
  /-- The greatest number of bytes in a feedback packet. -/
  mtu : Nat
  /-- The source that feedback is sent from. -/
  sender : Ssrc
  /-- How many sent packets are remembered. -/
  historySize : Nat
deriving DecidableEq

namespace Settings

/-- The greatest number of packets that can be set to be remembered. -/
def maxHistorySize : Nat :=
  32767

/-- What the settings are unless set. A source has no standard and is given. -/
def standard (sender : Ssrc) : Settings :=
  { mtu := 1200, sender, historySize := 4096 }

/-- Sets the number of packets to remember, to the nearest one that is allowed. -/
def withHistorySize (s : Settings) (n : Nat) : Settings :=
  { s with historySize := max 1 (min n maxHistorySize) }

/-- The settings in a document. What is missing is taken from `defaults`. None if
    a setting is anything but a number of its range: 64 bits for sizes, 32 for the
    source. -/
def ofDocument? (defaults : Settings) (d : Document) : Option Settings :=
  match d.settings? ["mtu", "sender_ssrc", "send_history"] with
  | some [mtu, sender, historySize] => do
    let size := Document.orDefault (Document.natBelow? UInt64.size)
    let source := Document.orDefault (Document.natBelow? UInt32.size)
    let mtu ← size defaults.mtu mtu
    let sender ← source defaults.sender.value.toNat sender
    let historySize ← size defaults.historySize historySize
    return { mtu, sender := ⟨UInt32.ofNat sender⟩, historySize }
  | _ => none

/-- The settings as a document in JSON. -/
def json (s : Settings) : String :=
  jsonObject [
    ("mtu", toString s.mtu),
    ("sender_ssrc", s.sender.text),
    ("send_history", toString s.historySize)]

end Settings

end Feedback

end VideoTransport

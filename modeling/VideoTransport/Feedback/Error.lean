/-!
# Errors of Feedback Handling

The causes for which feedback cannot be made or understood.

## Main definitions

* `Error`: The causes.
* `Error.message`: A cause in words.
-/

namespace VideoTransport

namespace Feedback

/-- Why feedback cannot be made or understood. -/
inductive Error where
  /-- The control information has fewer bytes than any feedback. -/
  | shortControlInfo (length : Nat)
  /-- The packet is shorter than its header says, or than any feedback. -/
  | shortPacket (length : Nat)
  /-- The packet is something other than transport-wide feedback. -/
  | notFeedback
  /-- The number of padding bytes is zero, or more than there is room for. -/
  | invalidPadding
  /-- No feedback fits in a packet of this size. -/
  | noRoom (mtu : Nat)
deriving DecidableEq

/-- The error in words. -/
def Error.message : Error → String
  | shortControlInfo n => "TWCC FCI too short: " ++ toString n ++ " bytes"
  | shortPacket n => "RTCP packet too short: " ++ toString n ++ " bytes"
  | notFeedback => "RTCP packet is not TWCC feedback"
  | invalidPadding => "Bad RTCP padding"
  | noRoom mtu => "MTU too small for TWCC feedback: " ++ toString mtu

end Feedback

end VideoTransport

import VideoTransport.Feedback.Error

/-!
# Capacity of a Feedback

How many statuses a feedback may hold so that it is sure to fit in a packet of
a given size, whatever the statuses are.

In the worst case seven statuses take one chunk and seven deltas of two bytes,
16 bytes together. Twenty bytes are fixed, and five are kept free: up to three
of padding, and one chunk more than the statuses would need.

## Main definitions

* `statusLimit`: The greatest number of statuses.
-/

namespace VideoTransport

namespace Feedback

/-- The greatest number of statuses in a feedback for packets of `mtu` bytes.
    There has to be room for seven at least. -/
def statusLimit (mtu : Nat) : Except Error Nat :=
  let limit := (mtu - 25) / 16 * 7
  if limit = 0 then .error (.noRoom mtu) else .ok limit

end Feedback

end VideoTransport

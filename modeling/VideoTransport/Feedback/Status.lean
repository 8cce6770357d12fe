/-!
# Reception Statuses

What a feedback says about one packet. A status is a symbol of two bits, and a
received packet also has a time, which is sent as a delta of one or two bytes.

## Main definitions

* `Status`: What became of one packet.
* `Status.code`, `Status.ofCode`: The two bits.
* `Status.isReceived`: A delta is sent along with the status.

## Theorems

* `Status.ofCode_code`, `Status.code_ofCode`: A status and its bits tell each other.
* `Status.code_lt`: A status has two bits.
* `Status.eq_of_isReceived`: A received packet has a delta of one of two sizes.
-/

namespace VideoTransport

namespace Feedback

/-- What became of one packet. -/
inductive Status where
  /-- The packet has not arrived, or not yet. -/
  | notReceived
  /-- The packet has arrived, and its delta has one byte. -/
  | smallDelta
  /-- The packet has arrived, and its delta has two bytes. -/
  | largeDelta
  /-- A symbol without a meaning. -/
  | unknown
deriving DecidableEq

namespace Status

/-- The symbol of a status. -/
def code : Status → Nat
  | notReceived => 0
  | smallDelta => 1
  | largeDelta => 2
  | unknown => 3

/-- The status of a symbol. Whatever is not assigned has no meaning. -/
def ofCode : Nat → Status
  | 0 => notReceived
  | 1 => smallDelta
  | 2 => largeDelta
  | _ => unknown

/-- The name of a status. -/
def name : Status → String
  | notReceived => "NotReceived"
  | smallDelta => "ReceivedSmallDelta"
  | largeDelta => "ReceivedLargeOrNegativeDelta"
  | unknown => "Unknown"

/-- Whether a delta is sent along with the status. -/
def isReceived : Status → Bool
  | smallDelta | largeDelta => true
  | notReceived | unknown => false

theorem ofCode_code (s : Status) : ofCode s.code = s := by
  cases s <;> rfl

theorem code_lt (s : Status) : s.code < 4 := by
  cases s <;> decide

-- Every two bits are the symbol of some status.
theorem code_ofCode (n : Nat) (h : n < 4) : (ofCode n).code = n := by
  rcases n with _ | _ | _ | _ | n
  · rfl
  · rfl
  · rfl
  · rfl
  · omega

theorem eq_of_isReceived (s : Status) (h : s.isReceived = true) :
    s = smallDelta ∨ s = largeDelta := by
  cases s with
  | notReceived => cases h
  | smallDelta => exact Or.inl rfl
  | largeDelta => exact Or.inr rfl
  | unknown => cases h

end Status

end Feedback

end VideoTransport

import VideoTransport.Feedback.Error
import VideoTransport.Rtcp.Header

/-!
# Framing

Control packets may come several in a row, and each may end in padding. Before
the control information of a feedback can be read, it has to be cut out: behind
the header and the two sources, up to the length that the header declares, less
the padding.

## Main definitions

* `isPadded`: The packet says that it ends in padding.
* `removePadding`: Cuts off the padding at the end of some bytes.
* `controlInfo`: The control information of a feedback packet.

## Theorems

* `removePadding_append`: What comes before well-formed padding is what is kept.
-/

namespace VideoTransport

namespace Feedback

/-- The bytes before the control information: a header and two sources. -/
def controlInfoStart : Nat :=
  12

/-- Whether the third bit of the packet is set, which announces padding. -/
def isPadded : List UInt8 → Bool
  | [] => false
  | flags :: _ => flags.toNat.testBit 5

/-- Cuts off the padding, of which the last byte tells the length. None if the
    length is zero, or greater than what there is. -/
def removePadding (bytes : List UInt8) : Option (List UInt8) :=
  match bytes.getLast? with
  | none => none
  | some last =>
    if last = 0 ∨ bytes.length < last.toNat then none
    else some (bytes.take (bytes.length - last.toNat))

/-- The control information of the feedback at the start of some bytes. -/
def controlInfo (packet : List UInt8) : Except Error (List UInt8) :=
  if packet.length < controlInfoStart then .error (.shortPacket packet.length)
  else match Rtcp.Header.parse packet with
    | .error _ => .error .notFeedback
    | .ok header =>
      if header.type ≠ .transportLayerFeedback ∨ header.format ≠ .transport .transportWide then
        .error .notFeedback
      else if header.byteCount < controlInfoStart ∨ packet.length < header.byteCount then
        .error (.shortPacket packet.length)
      else
        -- What follows the declared length belongs to another packet.
        let body := (packet.take header.byteCount).drop controlInfoStart
        if isPadded packet then
          match removePadding body with
          | some info => .ok info
          | none => .error .invalidPadding
        else .ok body

/-- What comes before well-formed padding is what is kept. -/
theorem removePadding_append (info fill : List UInt8) (n : UInt8) (h : n.toNat = fill.length + 1) :
    removePadding (info ++ (fill ++ [n])) = some info := by
  have hn : n ≠ 0 := by
    rintro rfl
    simp at h
  rw [removePadding, ← List.append_assoc, List.getLast?_append]
  simp only [List.getLast?_singleton, Option.some_or, List.length_append, List.length_cons,
    List.length_nil, hn, false_or]
  rw [if_neg (by omega)]
  have : info.length + fill.length + (0 + 1) - n.toNat = info.length := by omega
  rw [this, List.append_assoc, List.take_left]

end Feedback

end VideoTransport

import VideoTransport.Feedback.Message

/-!
# Reading Feedback Messages

Reads a feedback from what follows the header of its packet: the two sources,
the fixed fields, then chunks until they describe as many statuses as declared,
then one delta for each status that says so. Bytes behind the last delta are
padding and are not looked at.

## Main definitions

* `MessageError`: Where a message ended too early.
* `Message.takeChunks`: Chunks for a number of statuses.
* `Message.takeDeltas`: The deltas of some statuses.
* `Message.parse`: The message in some bytes.
-/

namespace VideoTransport

namespace Feedback

/-- Where a message ended too early. -/
inductive MessageError where
  | fixedFields
  | chunk
  | smallDelta
  | largeDelta
deriving DecidableEq

/-- The error in words. -/
def MessageError.message : MessageError → String
  | .fixedFields => "Less than 16 bytes for start of Twcc"
  | .chunk => "Less than 2 bytes for PacketChunk"
  | .smallDelta => "Not enough buf for small delta"
  | .largeDelta => "Not enough buf for large delta"

namespace Message

/-- Reads chunks until they describe `todo` statuses or more. Gives them behind
    those that were read before, with the bytes that are left. -/
def takeChunks (found : Array Chunk) (todo : Nat) :
    List UInt8 → Except MessageError (List Chunk × List UInt8)
  | high :: low :: rest =>
    if todo = 0 then .ok (found.toList, high :: low :: rest)
    else
      let c := Chunk.ofWire (BigEndian.join16 high low)
      takeChunks (found.push c) (todo - c.capacity) rest
  | short => if todo = 0 then .ok (found.toList, short) else .error .chunk

/-- Reads the deltas that some statuses announce. Gives them behind those that
    were read before. -/
def takeDeltas (found : Array Delta) :
    List Status → List UInt8 → Except MessageError (List Delta)
  | [], _ => .ok found.toList
  | .smallDelta :: statuses, bytes =>
    match bytes with
    | b :: rest => takeDeltas (found.push (.small b)) statuses rest
    | [] => .error .smallDelta
  | .largeDelta :: statuses, bytes =>
    match bytes with
    | high :: low :: rest => takeDeltas (found.push (.ofBytes high low)) statuses rest
    | _ => .error .largeDelta
  | _ :: statuses, bytes => takeDeltas found statuses bytes

/-- Reads the message that follows the header of a packet. -/
def parse : List UInt8 → Except MessageError Message
  | s0 :: s1 :: s2 :: s3 :: m0 :: m1 :: m2 :: m3 :: b0 :: b1 :: n0 :: n1 ::
      t0 :: t1 :: t2 :: count :: rest => do
    let statusCount := BigEndian.join16 n0 n1
    let (chunks, rest) ← takeChunks #[] statusCount.toNat rest
    let deltas ← takeDeltas #[] (Chunk.decode chunks statusCount.toNat) rest
    return {
      senderSsrc := .ofBytes s0 s1 s2 s3
      mediaSsrc := .ofBytes m0 m1 m2 m3
      baseSeq := BigEndian.join16 b0 b1
      statusCount
      referenceTime := BigEndian.join24 t0 t1 t2
      feedbackCount := count
      chunks
      deltas
    }
  | _ => .error .fixedFields

end Message

end Feedback

end VideoTransport

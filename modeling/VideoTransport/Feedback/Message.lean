import VideoTransport.Feedback.Chunk
import VideoTransport.Feedback.Delta
import VideoTransport.Rtcp.Header
import VideoTransport.SeqNum
import VideoTransport.Ssrc

/-!
# Feedback Messages

A feedback tells the sender of a media stream which of its packets have arrived,
and when. It covers a range of sequence numbers, with one status each, packed in
chunks. Each status that says so is joined by a delta, and the deltas add up to
arrival times, beginning at a reference time in units of 64 milliseconds.

On the wire the message is a control packet: a header, two sources, the fixed
fields, the chunks, the deltas, and zero to three bytes of padding that make it
a whole number of words. The last byte of padding tells how many there are.

Nothing here demands that chunks, deltas and the declared count agree.

## Main definitions

* `Message`: The fields of a feedback.
* `Message.statuses`: The status of each sequence number.
* `Message.wordCount`: The length on the wire, in words of four bytes.
* `Message.header`: The header that the message has on the wire.
* `Message.controlInfo`: The part behind the two sources, without padding.
* `Message.bytes`: The whole packet.
* `Message.overwrite`: The packet put at the start of a buffer.
* `Message.describe`: The message as a record.

## Theorems

* `Message.length_controlInfo`: The control information has the declared length.
-/

namespace VideoTransport

namespace Feedback

/-- The fields of a feedback. -/
structure Message where
  /-- The source that sends the feedback. -/
  senderSsrc : Ssrc
  /-- The source that the feedback is about. -/
  mediaSsrc : Ssrc
  /-- The first sequence number. -/
  baseSeq : SeqNum
  /-- How many sequence numbers are covered. -/
  statusCount : UInt16
  /-- The time that the first delta counts from, in units of 64 milliseconds. -/
  referenceTime : UInt32
  /-- The running number of the feedback. -/
  feedbackCount : UInt8
  chunks : List Chunk
  deltas : List Delta
deriving DecidableEq

namespace Message

/-- Sequence numbers in a row, each with its status. -/
def number (base : SeqNum) (statuses : List Status) : List (SeqNum × Status) :=
  statuses.zipIdx.map fun (s, i) => (base.advance i, s)

/-- The status of each sequence number that the message covers. Symbols beyond
    the declared count mean nothing. -/
def statuses (m : Message) : List (SeqNum × Status) :=
  number m.baseSeq (Chunk.decode m.chunks m.statusCount.toNat)

/-- The bytes that all deltas take. -/
def deltaSize (m : Message) : Nat :=
  m.deltas.foldr (fun d n => d.size + n) 0

/-- The bytes that chunks and deltas take, which have no fixed length. -/
def variableSize (m : Message) : Nat :=
  m.chunks.length * 2 + m.deltaSize

/-- The length of the control information, without padding. -/
def controlInfoSize (m : Message) : Nat :=
  8 + m.variableSize

/-- The length of the whole packet in words: the header, the two sources, two
    words of fixed fields, and as many as chunks and deltas begin. -/
def wordCount (m : Message) : Nat :=
  5 + (m.variableSize + 3) / 4

/-- The header of the packet. A length of more than 16 bits wraps. -/
def header (m : Message) : Rtcp.Header where
  type := .transportLayerFeedback
  format := .transport .transportWide
  lengthField := UInt16.ofNat (m.wordCount - 1)

/-- The part behind the two sources: fixed fields, chunks and deltas. -/
def controlInfo (m : Message) : List UInt8 :=
  BigEndian.bytes16 m.baseSeq ++ BigEndian.bytes16 m.statusCount
    ++ BigEndian.bytes24 m.referenceTime ++ [m.feedbackCount]
    ++ m.chunks.flatMap (fun c => BigEndian.bytes16 c.wire)
    ++ m.deltas.flatMap Delta.bytes

/-- The bytes that fill up the last word. The last of them is their number. -/
def padding : Nat → List UInt8
  | 0 => []
  | n + 1 => List.replicate n 0 ++ [UInt8.ofNat (n + 1)]

/-- How many bytes are missing from the last word. -/
def paddingSize (m : Message) : Nat :=
  (4 - m.variableSize % 4) % 4

/-- The whole packet. -/
def bytes (m : Message) : List UInt8 :=
  m.header.bytes (m.paddingSize ≠ 0) ++ m.senderSsrc.bytes ++ m.mediaSsrc.bytes
    ++ m.controlInfo ++ padding m.paddingSize

/-- The packet put at the start of a buffer, of which the rest stays as it is.
    None if the buffer is too small. -/
def overwrite (m : Message) (buffer : List UInt8) : Option (List UInt8) :=
  if buffer.length < m.bytes.length then none
  else some (m.bytes ++ buffer.drop m.bytes.length)

/-- A chunk as a record. -/
def describeChunk : Chunk → String
  | .run s n => "Run(" ++ s.name ++ ", " ++ toString n.toNat ++ ")"
  | .single v => "VectorSingle(" ++ toString v.toNat ++ ")"
  | .double v => "VectorDouble(" ++ toString v.toNat ++ ")"

/-- The message as a record on one line, with the number of its deltas. -/
def describe (m : Message) : String :=
  "Twcc \x7b sender_ssrc: Ssrc(" ++ m.senderSsrc.text ++ "), ssrc: Ssrc(" ++ m.mediaSsrc.text
    ++ "), base_seq: " ++ toString m.baseSeq.toNat
    ++ ", status_count: " ++ toString m.statusCount.toNat
    ++ ", reference_time: " ++ toString m.referenceTime.toNat
    ++ ", feedback_count: " ++ toString m.feedbackCount.toNat
    ++ ", chunks: [" ++ String.intercalate ", " (m.chunks.map describeChunk)
    ++ "], delta: " ++ toString m.deltas.length ++ " \x7d"

theorem length_controlInfo (m : Message) : m.controlInfo.length = m.controlInfoSize := by
  have chunks (l : List Chunk) :
      (l.flatMap fun c => BigEndian.bytes16 c.wire).length = l.length * 2 := by
    induction l with
    | nil => rfl
    | cons c rest ih => simp only [List.flatMap_cons, List.length_append, ih]; simp; omega
  have deltas (l : List Delta) : (l.flatMap Delta.bytes).length = l.foldr (fun d n => d.size + n) 0 := by
    induction l with
    | nil => rfl
    | cons d rest ih => simp [ih, Delta.length_bytes]
  simp only [controlInfo, List.length_append, chunks, deltas, controlInfoSize, variableSize,
    deltaSize]
  simp
  omega

end Message

end Feedback

end VideoTransport

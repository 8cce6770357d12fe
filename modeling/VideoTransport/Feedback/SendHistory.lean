import VideoTransport.Duration
import VideoTransport.Feedback.Status
import VideoTransport.SeqNum
import VideoTransport.SlidingBuffer

/-!
# History of Sent Packets

The sending side of feedback keeps what it has sent, so that a report about a
sequence number can be joined with the packet that had it. Only the last packets
are kept.

A packet is found by counting from the oldest one that is kept, which works as
long as packets are recorded with consecutive numbers. If they are not, the
packet found there may have another number, and then there is none.

## Main definitions

* `SentPacket`: What is known about one packet.
* `SentPacket.apply`: What a report about the packet adds to that.
* `SendHistory`: The packets that are kept.
* `SendHistory.send`, `SendHistory.record`: Adds a packet.
* `SendHistory.get?`: The packet of a sequence number.
* `SendHistory.attach`, `SendHistory.apply`: Adds to what is known about one.

## Theorems

* `SendHistory.seq_get?`: What is found has the number that was looked for.
* `SendHistory.toList_record`: The last packets are kept.
-/

namespace VideoTransport

namespace Feedback

/-- What is known about a packet that was sent. -/
structure SentPacket where
  seq : SeqNum
  /-- The time of sending. -/
  sentAt : Duration
  /-- The size in bytes. -/
  size : Nat
  /-- The time at which the socket sent the packet. -/
  socketTime : Option Duration := none
  /-- The time of arrival, on the clock of the receiver. -/
  arrival : Option Duration := none
  /-- A report said that the packet has not arrived, before a time of arrival was
      known, and none has said since then that it has. -/
  lost : Bool := false
deriving DecidableEq

/-- What a report about the packet adds to what is known. Once a time of arrival is
    known, the packet is not lost, whatever other reports say. An arrival that is
    reported without a time only lasts until another report says otherwise. -/
def SentPacket.apply (status : Status) (arrival : Option Duration) (p : SentPacket) : SentPacket :=
  if status.isReceived then { p with arrival := arrival.or p.arrival, lost := false }
  else if p.arrival.isNone then { p with lost := true }
  else p

/-- The packets sent last, in the order of sending. -/
structure SendHistory where
  /-- How many packets are kept at most. -/
  capacity : Nat
  packets : SlidingBuffer SentPacket := .empty
  /-- The number of the next packet. -/
  nextSeq : SeqNum := 0

namespace SendHistory

/-- A history that keeps a number of packets. -/
def start (capacity : Nat) : SendHistory :=
  { capacity }

/-- The packets that are kept, the oldest first. -/
def toList (h : SendHistory) : List SentPacket :=
  h.packets.toList

/-- How many packets are kept. -/
def size (h : SendHistory) : Nat :=
  h.packets.size

/-- Adds a packet under a number of the caller's choice. Numbers given out after
    that follow on it. Of the older packets those are dropped that are too many. -/
def record (h : SendHistory) (seq : SeqNum) (sentAt : Duration) (size : Nat) : SendHistory :=
  let packets := h.packets.push { seq, sentAt, size }
  { h with packets := packets.dropFront (packets.size - h.capacity), nextSeq := seq.next }

/-- Adds a packet under the next number. -/
def send (h : SendHistory) (sentAt : Duration) (size : Nat) : SendHistory :=
  h.record h.nextSeq sentAt size

/-- The place of a number among the packets that are kept, if it has one. -/
def indexOf? (h : SendHistory) (seq : SeqNum) : Option Nat :=
  match h.packets.get? 0 with
  | none => none
  | some first =>
    let index := first.seq.stepsTo seq
    match h.packets.get? index with
    -- A different number means that the recorded numbers have gaps.
    | some p => if p.seq = seq then some index else none
    | none => none

/-- The packet of a number, if it is kept. -/
def get? (h : SendHistory) (seq : SeqNum) : Option SentPacket :=
  (h.indexOf? seq).bind h.packets.get?

/-- Changes the packet of a number, if it is kept. -/
def modify (h : SendHistory) (seq : SeqNum) (f : SentPacket → SentPacket) : SendHistory :=
  match h.indexOf? seq with
  | some index => { h with packets := h.packets.modify index f }
  | none => h

/-- Notes when the socket sent the packet of a number. Tells whether there is
    one. -/
def attach (h : SendHistory) (seq : SeqNum) (time : Duration) : Bool × SendHistory :=
  ((h.indexOf? seq).isSome, h.modify seq fun p => { p with socketTime := some time })

/-- Adds what a report says about the packet of a number. -/
def apply (h : SendHistory) (seq : SeqNum) (status : Status) (arrival : Option Duration) :
    SendHistory :=
  h.modify seq (SentPacket.apply status arrival)

/-- Forgets all packets. Numbers go on from where they are. -/
def reset (h : SendHistory) : SendHistory :=
  { h with packets := .empty }

/-- What is found has the number that was looked for. -/
theorem seq_get? {h : SendHistory} {seq : SeqNum} {p : SentPacket} (found : h.get? seq = some p) :
    p.seq = seq := by
  obtain ⟨index, hindex, hget⟩ := Option.bind_eq_some_iff.1 found
  unfold indexOf? at hindex
  split at hindex
  · simp at hindex
  · simp only at hindex
    split at hindex
    · rename_i hq
      split at hindex
      · rename_i q hseq
        cases hindex
        rw [hq] at hget
        cases hget
        exact hseq
      · simp at hindex
    · simp at hindex

/-- Of the packets with the new one at the end, the last ones are kept. -/
theorem toList_record (h : SendHistory) (seq : SeqNum) (sentAt : Duration) (size : Nat) :
    (h.record seq sentAt size).toList
      = (h.toList ++ [({ seq, sentAt, size } : SentPacket)]).drop (h.toList.length + 1 - h.capacity) := by
  have hsize (p : SentPacket) : (h.packets.push p).size = h.packets.toList.length + 1 := by
    rw [← SlidingBuffer.length_toList, SlidingBuffer.toList_push]
    simp
  simp only [toList, record, SlidingBuffer.toList_dropFront, SlidingBuffer.toList_push, hsize]

end SendHistory

end Feedback

end VideoTransport

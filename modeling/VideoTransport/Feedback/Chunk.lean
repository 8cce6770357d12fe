import VideoTransport.Feedback.Status

/-!
# Status Chunks

The statuses of a feedback are packed in chunks of 16 bits, of which there are
three kinds:

* a run: one status and how often it is repeated, in 13 bits;
* a vector of fourteen symbols of one bit;
* a vector of seven symbols of two bits.

The symbols of a vector stand from the more significant bit to the less
significant one, below the two bits that tell the kind.

A chunk can hold numbers that are wider than its place on the wire. `Chunk.wire`
cuts them off.

## Main definitions

* `SymbolSize`: The bits of one symbol of a vector.
* `Chunk`: A run or a vector of symbols.
* `Chunk.wire`, `Chunk.ofWire`: The 16 bits of a chunk.
* `Chunk.capacity`: How many statuses a chunk describes.
* `Chunk.nthStatus`, `Chunk.statuses`: The statuses that it describes.
* `Chunk.pack`: The vector of some statuses.
* `Chunk.decode`: The first statuses of a list of chunks.

## Theorems

* `Chunk.length_statuses`: A chunk describes as many statuses as its capacity says.
* `Chunk.decode_eq`: Decoding takes from the statuses of all chunks in a row.
-/

namespace VideoTransport

namespace Feedback

/-- The size of the symbols of a vector. -/
inductive SymbolSize where
  | oneBit
  | twoBits
deriving DecidableEq

namespace SymbolSize

/-- The size of a number of bits. There are symbols of one bit and of two. -/
def ofBits? : Nat → Option SymbolSize
  | 1 => some oneBit
  | 2 => some twoBits
  | _ => none

/-- The number of bits of one symbol. -/
def bits : SymbolSize → Nat
  | oneBit => 1
  | twoBits => 2

/-- How many symbols of this size there are. -/
def count : SymbolSize → Nat
  | oneBit => 2
  | twoBits => 4

/-- How many symbols a vector holds. -/
def perVector : SymbolSize → Nat
  | oneBit => 14
  | twoBits => 7

/-- Whether the symbol of a status has no more than this many bits. -/
def fits (size : SymbolSize) (s : Status) : Bool :=
  s.code < size.count

end SymbolSize

/-- Sixteen bits that describe the statuses of some packets in a row. -/
inductive Chunk where
  /-- One status, repeated. -/
  | run (status : Status) (length : UInt16)
  /-- Fourteen symbols of one bit each. -/
  | single (symbols : UInt16)
  /-- Seven symbols of two bits each. -/
  | double (symbols : UInt16)
deriving DecidableEq

namespace Chunk

/-- The longest run that one chunk can hold on the wire. -/
def maxRun : Nat :=
  8191

/-- The chunk as it goes on the wire. The top bit tells a vector from a run, and
    the bit below it the size of the symbols. -/
def wire : Chunk → UInt16
  | run s n => UInt16.ofNat (s.code * 8192 + n.toNat % 8192)
  | single v => UInt16.ofNat (32768 + v.toNat % 16384)
  | double v => UInt16.ofNat (49152 + v.toNat % 16384)

/-- The chunk of 16 bits. Every pattern of bits is a chunk. -/
def ofWire (w : UInt16) : Chunk :=
  if w.toNat < 32768 then run (.ofCode (w.toNat / 8192)) (UInt16.ofNat (w.toNat % 8192))
  else if w.toNat < 49152 then single (UInt16.ofNat (w.toNat % 16384))
  else double (UInt16.ofNat (w.toNat % 16384))

/-- How many statuses the chunk describes. -/
def capacity : Chunk → Nat
  | run _ n => n.toNat
  | single _ => 14
  | double _ => 7

/-- Symbol number `i` of 16 bits that hold a vector. The first symbol stands
    below the two bits of kind, and the place is counted modulo 16, so that past
    the last symbol the reading goes on from the top. -/
def symbolAt (size : SymbolSize) (w : UInt16) (i : Nat) : Status :=
  let place := ((14 - size.bits * (i + 1) : Int) % 16).toNat
  .ofCode (w.toNat >>> place % size.count)

/-- The status of packet number `i` of those that the chunk describes. -/
def nthStatus (c : Chunk) (i : Nat) : Status :=
  match c with
  | run s _ => s
  | single _ => symbolAt .oneBit c.wire i
  | double _ => symbolAt .twoBits c.wire i

/-- The first statuses of a chunk, as many as are asked for and as it has. -/
def firstStatuses (c : Chunk) (n : Nat) : List Status :=
  (List.range (min n c.capacity)).map c.nthStatus

/-- All statuses that the chunk describes. -/
def statuses (c : Chunk) : List Status :=
  (List.range c.capacity).map c.nthStatus

/-- The number whose digits are the symbols of some statuses, the first one in
    the most significant place. Of each symbol the low bits are taken. -/
def digits (size : SymbolSize) (statuses : List Status) : Nat :=
  statuses.foldl (fun n s => n * size.count + s.code % size.count) 0

/-- The vector of some statuses. Symbols that are left over say that a packet
    was not received. -/
def pack (size : SymbolSize) (statuses : List Status) : Chunk :=
  let unused := List.replicate (size.perVector - statuses.length) Status.notReceived
  let symbols := UInt16.ofNat (digits size (statuses ++ unused))
  match size with
  | .oneBit => single symbols
  | .twoBits => double symbols

/-- The first `count` statuses that some chunks describe, or all of them if
    there are fewer. -/
def decode (chunks : List Chunk) (count : Nat) : List Status :=
  (chunks.foldl (fun found c => found ++ c.firstStatuses (count - found.size)) #[]).toList

theorem length_statuses (c : Chunk) : c.statuses.length = c.capacity := by
  simp [statuses]

theorem firstStatuses_eq (c : Chunk) (n : Nat) : c.firstStatuses n = c.statuses.take n := by
  simp [firstStatuses, statuses, ← List.map_take, List.take_range]

/-- Decoding takes from the statuses of all chunks in a row. -/
theorem decode_eq (chunks : List Chunk) (count : Nat) :
    decode chunks count = (chunks.flatMap statuses).take count := by
  have step (found : Array Status) (h : found.size ≤ count) :
      (chunks.foldl (fun found c => found ++ c.firstStatuses (count - found.size)) found).toList
        = found.toList ++ (chunks.flatMap statuses).take (count - found.size) := by
    induction chunks generalizing found with
    | nil => simp
    | cons c rest ih =>
      have hsize : (found ++ c.firstStatuses (count - found.size)).size
          = found.size + min (count - found.size) c.statuses.length := by
        rw [← Array.length_toList, Array.toList_appendList]
        simp [firstStatuses_eq]
      rw [List.foldl_cons, ih _ (by omega), hsize]
      simp only [Array.toList_appendList, firstStatuses_eq, List.flatMap_cons, List.take_append,
        List.append_assoc]
      congr 3
      omega
  simpa [decode] using step #[] (Nat.zero_le _)

end Chunk

end Feedback

end VideoTransport

import VideoTransport.Feedback.ChunkBuilder

/-!
# Filling Vectors Bit by Bit

A chunk builder keeps the open vector as a list of statuses. Here it is kept as the 16
bits that it will be, and each status is put into its bits at once.

The word has its two bytes swapped. So the six symbol bits below the bits of kind come
first, in the low byte, and those of the high byte follow. A place is counted on the wire,
down from 13 for the first symbol, and where it is found in the word is worked out
modulo 16.

## Main definitions

* `swapBytes`: A word with its two bytes swapped.
* `VectorWriter`: The chunks so far, and the word that is being filled.
* `VectorWriter.shift`, `VectorWriter.target`: Where in the word the next symbol goes.
* `VectorWriter.add`, `VectorWriter.addRuns`: One status, and a stretch of them as runs.
* `VectorWriter.close`, `VectorWriter.finish`: Closing the open vector.

## Theorems

* `getElem_swapBytes`: A bit goes to the same place of the other byte.
* `swapBytes_swapBytes`: Swapping the bytes twice changes nothing.
-/

namespace VideoTransport

namespace Feedback

/-- A word with its two bytes swapped. -/
def swapBytes (w : UInt16) : UInt16 :=
  w <<< 8 ||| w >>> 8

-- A bit goes to the same place of the other byte.
theorem getElem_swapBytes (w : UInt16) (i : Nat) (hi : i < 16) :
    (swapBytes w).toBitVec[i] = w.toBitVec[(i + 8) % 16] := by
  have hshift : (8 : UInt16).toBitVec % 16 = 8#16 := by decide
  simp only [swapBytes, UInt16.toBitVec_or, UInt16.toBitVec_shiftLeft, UInt16.toBitVec_shiftRight,
    hshift]
  by_cases hlow : i < 8
  · have hplace : (i + 8) % 16 = 8 + i := by omega
    simp [hlow, hplace, BitVec.getLsbD_eq_getElem, show 8 + i < 16 by omega]
  · have hplace : (i + 8) % 16 = i - 8 := by omega
    have habove : w.toBitVec.getLsbD (8 + i) = false := BitVec.getLsbD_of_ge _ _ (by omega)
    simp [hlow, hplace, habove]

theorem swapBytes_or (v w : UInt16) : swapBytes (v ||| w) = swapBytes v ||| swapBytes w := by
  apply UInt16.toBitVec_inj.1
  ext i hi
  simp only [getElem_swapBytes, UInt16.toBitVec_or, BitVec.getElem_or]

theorem swapBytes_and (v w : UInt16) : swapBytes (v &&& w) = swapBytes v &&& swapBytes w := by
  apply UInt16.toBitVec_inj.1
  ext i hi
  simp only [getElem_swapBytes, UInt16.toBitVec_and, BitVec.getElem_and]

theorem swapBytes_swapBytes (w : UInt16) : swapBytes (swapBytes w) = w := by
  apply UInt16.toBitVec_inj.1
  ext i hi
  rw [getElem_swapBytes _ i hi, getElem_swapBytes _ _ (Nat.mod_lt _ (by decide))]
  congr 1
  omega

/-- The chunks so far, and the word of the vector that is open. -/
structure VectorWriter where
  size : SymbolSize
  /-- The open vector with its bytes swapped. -/
  word : UInt16
  /-- The place of the next symbol on the wire, that of its upper bit. -/
  place : Int
  chunks : Array Chunk := #[]

namespace VectorWriter

/-- The place of the first symbol. The two bits above it tell the kind of the chunk. -/
def firstPlace : Int :=
  13

/-- The word of a vector without symbols. -/
def emptyWord (size : SymbolSize) : UInt16 :=
  swapBytes ((1 : UInt16) <<< 15 ||| UInt16.ofNat (size.bits - 1) <<< 14)

/-- A writer for symbols of a size, with nothing in it yet. -/
def start (size : SymbolSize) : VectorWriter :=
  { size, word := emptyWord size, place := firstPlace }

/-- Whether the open vector has no symbols. -/
def isEmpty (w : VectorWriter) : Bool :=
  w.place == firstPlace

/-- How many symbols a vector holds. -/
def slots (w : VectorWriter) : Nat :=
  (firstPlace.tdiv w.size.bits + 1).toNat

/-- How many symbols the open vector has room for. -/
def freeSlots (w : VectorWriter) : Nat :=
  (w.place.tdiv w.size.bits + 1).toNat

/-- How far the next symbol is moved up in the word. The high byte of the word stands for
    the lower places, so a place in the low byte is beyond the top and wraps. -/
def shift (w : VectorWriter) : UInt16 :=
  let place := w.place + 8
  let place := if 15 < place then place - 16 else place
  UInt16.ofNat (place.tdiv w.size.bits * w.size.bits).toNat

/-- The bits of one symbol. -/
def mask (w : VectorWriter) : UInt16 :=
  UInt16.ofNat (w.size.count - 1)

/-- The bits of the word that the next symbol goes to. -/
def target (w : VectorWriter) : UInt16 :=
  w.mask <<< w.shift

/-- Closes the open vector, if there is anything in it. -/
def close (w : VectorWriter) : VectorWriter :=
  if w.place < firstPlace then
    { w with
      word := emptyWord w.size
      place := firstPlace
      chunks := w.chunks.push (.ofWire (swapBytes w.word)) }
  else w

/-- Puts one status into the open vector, which is closed once it is full. -/
def add (w : VectorWriter) (s : Status) : VectorWriter :=
  let w := { w with
    word := w.word ||| (UInt16.ofNat s.code &&& w.mask) <<< w.shift
    place := w.place - w.size.bits }
  if w.place < 0 then w.close else w

/-- Tells a stretch of equal statuses by runs, which come before the open vector. -/
def addRuns (w : VectorWriter) (s : Status) (n : Nat) : VectorWriter :=
  { w with chunks := w.chunks ++ ChunkBuilder.runChunks s n }

/-- Closes the open vector and gives all chunks. -/
def finish (w : VectorWriter) : List Chunk :=
  w.close.chunks.toList

end VectorWriter

end Feedback

end VideoTransport

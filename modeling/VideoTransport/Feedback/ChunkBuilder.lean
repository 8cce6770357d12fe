import VideoTransport.Feedback.Chunk
import VideoTransport.Runs

/-!
# Building Status Chunks

A builder collects statuses in an open vector and turns it into a chunk when it
is full. A long stretch of equal statuses can be told by runs instead, which
take one chunk for up to 8191 statuses.

`Chunk.encode` decides between the two. A stretch that begins at the edge of a
vector is told by runs if it is longer than a vector. One that begins inside an
open vector first fills it up, and is told by runs if what is then left is
longer than a vector. So a run never stands where a vector would have done.

## Main definitions

* `ChunkBuilder`: The chunks so far and the open vector.
* `ChunkBuilder.add`, `ChunkBuilder.addRuns`: One status, and a stretch of them as runs.
* `ChunkBuilder.close`, `ChunkBuilder.finish`: Closing the open vector.
* `ChunkBuilder.addStretch`: A stretch of equal statuses, in the shorter form.
* `Chunk.encode`: The chunks of a list of statuses.

## Theorems

* `ChunkBuilder.chunks_addRuns`, `ChunkBuilder.pending_addRuns`: Runs join the chunks, and the
  open vector is left alone.
-/

namespace VideoTransport

namespace Feedback

/-- The chunks so far, and the symbols of the vector that is open. -/
structure ChunkBuilder where
  size : SymbolSize
  pending : List Status := []
  chunks : Array Chunk := #[]

namespace ChunkBuilder

/-- A builder for symbols of a size, with nothing in it yet. -/
def start (size : SymbolSize) : ChunkBuilder :=
  { size }

/-- Whether the open vector has no symbols. -/
def isEmpty (b : ChunkBuilder) : Bool :=
  b.pending.isEmpty

/-- How many symbols a vector holds. -/
def slots (b : ChunkBuilder) : Nat :=
  b.size.perVector

/-- How many symbols the open vector has room for. -/
def freeSlots (b : ChunkBuilder) : Nat :=
  b.slots - b.pending.length

/-- Closes the open vector, if there is anything in it. -/
def close (b : ChunkBuilder) : ChunkBuilder :=
  if b.isEmpty then b
  else { b with pending := [], chunks := b.chunks.push (.pack b.size b.pending) }

/-- Puts one status into the open vector, which is closed once it is full. -/
def add (b : ChunkBuilder) (s : Status) : ChunkBuilder :=
  let b := { b with pending := b.pending ++ [s] }
  if b.freeSlots = 0 then b.close else b

/-- Puts some statuses into vectors, one after the other. -/
def addAll (b : ChunkBuilder) (statuses : List Status) : ChunkBuilder :=
  statuses.foldl add b

/-- The runs of a stretch of `n` equal statuses: as many of the greatest length
    as fit, and one for the rest. -/
def runChunks (s : Status) (n : Nat) : List Chunk :=
  List.replicate (n / Chunk.maxRun) (.run s (UInt16.ofNat Chunk.maxRun))
    ++ if n % Chunk.maxRun = 0 then [] else [.run s (UInt16.ofNat (n % Chunk.maxRun))]

/-- Tells a stretch of equal statuses by runs. They come before the open vector,
    so it had better be empty. -/
def addRuns (b : ChunkBuilder) (s : Status) (n : Nat) : ChunkBuilder :=
  { b with chunks := b.chunks ++ runChunks s n }

/-- Closes the open vector and gives all chunks. -/
def finish (b : ChunkBuilder) : List Chunk :=
  b.close.chunks.toList

/-- Adds a stretch of `n` equal statuses. If more than a vector would be left
    after filling up the open one, that is what is done, and runs take the rest.
    Otherwise all goes into vectors. -/
def addStretch (b : ChunkBuilder) (s : Status) (n : Nat) : ChunkBuilder :=
  -- An empty vector is not open, and needs no filling up.
  let free := if b.isEmpty then 0 else b.freeSlots
  if free + b.slots < n then
    (b.addAll (List.replicate free s)).addRuns s (n - free)
  else b.addAll (List.replicate n s)

@[simp] theorem chunks_addRuns (b : ChunkBuilder) (s : Status) (n : Nat) :
    (b.addRuns s n).chunks.toList = b.chunks.toList ++ runChunks s n := by
  simp [addRuns]

@[simp] theorem pending_addRuns (b : ChunkBuilder) (s : Status) (n : Nat) :
    (b.addRuns s n).pending = b.pending := rfl

end ChunkBuilder

/-- The chunks of some statuses. Vectors have symbols of the given size, or of
    two bits if a status does not fit. -/
def Chunk.encode (size : SymbolSize) (statuses : List Status) : List Chunk :=
  let size := if statuses.all size.fits then size else .twoBits
  ((runs statuses).foldl (fun b r => b.addStretch r.1 r.2) (ChunkBuilder.start size)).finish

end Feedback

end VideoTransport

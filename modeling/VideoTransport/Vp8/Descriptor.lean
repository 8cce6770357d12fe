import VideoTransport.BigEndian
import VideoTransport.Vp8.PictureId

/-!
# Payload Descriptors

Each packet of a VP8 stream begins with a descriptor that says which part of
which frame follows. Its first byte holds flags. One of them announces a second
byte of flags, and each flag of that byte announces one further field, in a
fixed order:

* `I`: a picture identifier, of one byte or, if the top bit of that byte is
  set, of two;
* `L`: the index of the temporal base layer;
* `T` or `K`: one byte with the temporal layer and the key index.

Reading stops at the first byte that is missing. The error then tells how many
bytes the descriptor is known to need at least, not counting the byte of video
data that has to follow it.

## Main definitions

* `Descriptor`: The fields of a descriptor.
* `Descriptor.parse`: Reads the descriptor at the start of a payload.
* `Descriptor.startsFrame`: The packet is the first one of a frame.
* `DescriptorError`: The payload ended too early.
-/

namespace VideoTransport

namespace Vp8

/-- What the start of a payload says about the data that follows it. -/
structure Descriptor where
  /-- No other frame refers to this one. -/
  nonReference : Bool
  /-- The data is the start of a partition. -/
  startsPartition : Bool
  /-- The number of the partition. -/
  partition : UInt8
  pictureId : Option PictureId
  /-- The running index of the temporal base layer. -/
  baseLayerIndex : Option UInt8
  /-- Temporal layer, layer synchronization and key index in one byte. -/
  layerByte : Option UInt8
  /-- Whether the temporal layer in `layerByte` is meant. -/
  hasTemporalLayer : Bool
  /-- How many bytes the descriptor takes. -/
  length : Nat
deriving DecidableEq

/-- A payload that is too short for its descriptor and a byte of data: it has
    `length` bytes and would need more than `needed`. -/
structure DescriptorError where
  needed : Nat
  length : Nat
deriving DecidableEq

/-- The error in words. -/
def DescriptorError.message (e : DescriptorError) : String :=
  "Packet is too short: needs more than " ++ toString e.needed ++ " bytes, got "
    ++ toString e.length

namespace Descriptor

/-- A reader of payload fields: from the payload and an offset, the value that
    is found there and the offset behind it. -/
abbrev Field (α : Type) :=
  List UInt8 → Nat → Except DescriptorError (α × Nat)

/-- A field of one byte. -/
def byte : Field UInt8 := fun payload pos =>
  match payload[pos]? with
  | some b => .ok (b, pos + 1)
  | none => .error ⟨pos + 1, payload.length⟩

/-- A picture identifier. The top bit of its first byte tells whether there is
    a second one. -/
def pictureIdField : Field PictureId := fun payload pos => do
  let (b, pos) ← byte payload pos
  if b.toNat.testBit 7 then
    let (low, pos) ← byte payload pos
    return (.ofWord (BigEndian.join16 b low), pos)
  else
    return (.ofByte b, pos)

/-- A field that is there only if a flag says so. -/
def optional {α : Type} (present : Bool) (field : Field α) : Field (Option α) :=
  fun payload pos =>
    if present then (field payload pos).map fun (v, pos) => (some v, pos)
    else .ok (none, pos)

/-- Reads the descriptor at the start of a payload. At least one byte of data
    has to follow it. -/
def parse (payload : List UInt8) : Except DescriptorError Descriptor := do
  if payload.length < 2 then
    throw ⟨1, payload.length⟩
  let (flags, pos) ← byte payload 0
  let (more, pos) ← optional (flags.toNat.testBit 7) byte payload pos
  let more := (more.getD 0).toNat
  let (pictureId, pos) ← optional (more.testBit 7) pictureIdField payload pos
  let (baseLayerIndex, pos) ← optional (more.testBit 6) byte payload pos
  let (layerByte, pos) ← optional (more.testBit 5 || more.testBit 4) byte payload pos
  if payload.length ≤ pos then
    throw ⟨pos, payload.length⟩
  return {
    nonReference := flags.toNat.testBit 5
    startsPartition := flags.toNat.testBit 4
    partition := UInt8.ofNat (flags.toNat % 8)
    pictureId
    baseLayerIndex
    layerByte
    hasTemporalLayer := more.testBit 5
    length := pos
  }

/-- Whether the packet is the first one of a frame, which begins with the start
    of partition zero. -/
def startsFrame (d : Descriptor) : Bool :=
  d.startsPartition && d.partition == 0

end Descriptor

end Vp8

end VideoTransport

import VideoTransport.BigEndian

/-!
# Headers of Control Packets

Every RTCP packet begins with the same four bytes: two bits of version, a bit
that tells whether padding follows, five bits of format, the packet type, and
the length of the packet in words of four bytes, less one.

What the format means depends on the type. Only for transport layer feedback
are formats told apart here.

## Main definitions

* `PacketType`: The kinds of control packets.
* `TransportFeedback`: The kinds of transport layer feedback.
* `Format`: The five bits of format, as far as they are understood.
* `Header`: Type, format and length of a packet.
* `Header.parse`, `Header.bytes`: Reading and writing the four bytes.
* `HeaderError`: Why four bytes are no header.

## Theorems

* `PacketType.ofCode?_code`: A type is read back from its code.
* `TransportFeedback.ofCode?_code`: A kind of feedback is read back from its code.
-/

namespace VideoTransport

namespace Rtcp

/-- The kinds of control packets. -/
inductive PacketType where
  | senderReport
  | receiverReport
  | sourceDescription
  | goodbye
  | applicationDefined
  | transportLayerFeedback
  | payloadSpecificFeedback
  | extendedReport
deriving DecidableEq

namespace PacketType

/-- The number of a type on the wire. -/
def code : PacketType → UInt8
  | senderReport => 200
  | receiverReport => 201
  | sourceDescription => 202
  | goodbye => 203
  | applicationDefined => 204
  | transportLayerFeedback => 205
  | payloadSpecificFeedback => 206
  | extendedReport => 207

/-- The type that a number stands for, if there is one. -/
def ofCode? : UInt8 → Option PacketType
  | 200 => some senderReport
  | 201 => some receiverReport
  | 202 => some sourceDescription
  | 203 => some goodbye
  | 204 => some applicationDefined
  | 205 => some transportLayerFeedback
  | 206 => some payloadSpecificFeedback
  | 207 => some extendedReport
  | _ => none

/-- The name of a type. -/
def name : PacketType → String
  | senderReport => "SenderReport"
  | receiverReport => "ReceiverReport"
  | sourceDescription => "SourceDescription"
  | goodbye => "Goodbye"
  | applicationDefined => "ApplicationDefined"
  | transportLayerFeedback => "TransportLayerFeedback"
  | payloadSpecificFeedback => "PayloadSpecificFeedback"
  | extendedReport => "ExtendedReport"

theorem ofCode?_code (t : PacketType) : ofCode? t.code = some t := by
  cases t <;> rfl

end PacketType

/-- The kinds of transport layer feedback that are told apart. -/
inductive TransportFeedback where
  /-- Lost packets are named. -/
  | nack
  /-- The arrival of every packet is reported. -/
  | transportWide
deriving DecidableEq

namespace TransportFeedback

/-- The format number of a kind. -/
def code : TransportFeedback → UInt8
  | nack => 1
  | transportWide => 15

/-- The kind that a format number stands for, if it is known. -/
def ofCode? : UInt8 → Option TransportFeedback
  | 1 => some nack
  | 15 => some transportWide
  | _ => none

/-- The name of a kind. -/
def name : TransportFeedback → String
  | nack => "Nack"
  | transportWide => "TransportWide"

theorem ofCode?_code (k : TransportFeedback) : ofCode? k.code = some k := by
  cases k <;> rfl

end TransportFeedback

/-- The format of a packet. What is not understood is kept as a number, of
    which the five low bits count. -/
inductive Format where
  | transport (kind : TransportFeedback)
  | other (value : UInt8)
deriving DecidableEq

namespace Format

/-- The five bits of format. -/
def code : Format → UInt8
  | transport kind => kind.code
  | other value => UInt8.ofNat (value.toNat % 32)

/-- The meaning of the five bits in a packet of a type. -/
def ofCode (type : PacketType) (bits : UInt8) : Format :=
  if type = .transportLayerFeedback then
    match TransportFeedback.ofCode? bits with
    | some kind => transport kind
    | none => other bits
  else other bits

/-- The name of a format. -/
def name : Format → String
  | transport kind => kind.name
  | other _ => "Other"

end Format

/-- What the first four bytes of a packet say. -/
structure Header where
  type : PacketType
  format : Format
  /-- The length of the whole packet in words of four bytes, less one. -/
  lengthField : UInt16
deriving DecidableEq

/-- Why some bytes are not the header of a packet. -/
inductive HeaderError where
  | tooShort
  | wrongVersion
  | unknownType
deriving DecidableEq

/-- The error in words. -/
def HeaderError.message : HeaderError → String
  | .tooShort => "Less than 4 bytes for RTCP header"
  | .wrongVersion => "RTCP version is not 2"
  | .unknownType => "Unknown RTCP type"

namespace Header

/-- The length of the whole packet in words. -/
def wordCount (h : Header) : Nat :=
  h.lengthField.toNat + 1

/-- The length of the whole packet in bytes. -/
def byteCount (h : Header) : Nat :=
  h.wordCount * 4

/-- The four bytes of a header. The version is always two. -/
def bytes (h : Header) (padded : Bool) : List UInt8 :=
  UInt8.ofNat (128 + (if padded then 32 else 0) + h.format.code.toNat) :: h.type.code
    :: BigEndian.bytes16 h.lengthField

/-- Reads the header at the start of a packet. -/
def parse : List UInt8 → Except HeaderError Header
  | flags :: type :: high :: low :: _ =>
    if flags.toNat / 64 ≠ 2 then .error .wrongVersion
    else match PacketType.ofCode? type with
      | none => .error .unknownType
      | some type =>
        .ok ⟨type, .ofCode type (UInt8.ofNat (flags.toNat % 32)), BigEndian.join16 high low⟩
  | _ => .error .tooShort

end Header

end Rtcp

end VideoTransport

import VideoTransport.Feedback.Framing
import VideoTransport.Feedback.Message

/-!
# Framing of Written Messages

A message that is written as a packet is cut out of it again, whatever comes
behind the packet.

The number of padding bytes is worked out from the part of the packet that has
no fixed length, and so is the length in the header. That both agree is
`length_bytes`, and all that framing looks at follows from it: the header tells
the true length as long as it fits in 16 bits, and what is cut off at the end
is the padding and nothing else.

## Theorems

* `BigEndian.join16_bytes16`, `BigEndian.join24_bytes24`: A field is read as it was written.
* `Message.length_bytes`: A packet is as long as its number of words says.
* `Message.parse_header`: The header is read back from the packet.
* `Message.removePadding_padding`: What is written as padding is removed.
* `Message.controlInfo_bytes_append`: The control information is what was written.
* `Message.exists_front`: The padding fills up what is in front of it.
* `Message.cut_bytes_append`: A packet is cut out of whatever it is followed by.
-/

namespace VideoTransport

namespace BigEndian

theorem join16_bytes16 (v : UInt16) :
    join16 (UInt8.ofNat (v.toNat / 256)) (UInt8.ofNat v.toNat) = v := by
  have hv := v.toNat_lt
  apply UInt16.toNat_inj.1
  rw [toNat_join16, UInt8.toNat_ofNat', UInt8.toNat_ofNat']
  omega

/-- Three bytes hold a number of 24 bits. Of a wider one they lose the top. -/
theorem join24_bytes24 (v : UInt32) (h : v.toNat < 16777216) :
    join24 (UInt8.ofNat (v.toNat / 65536)) (UInt8.ofNat (v.toNat / 256)) (UInt8.ofNat v.toNat)
      = v := by
  apply UInt32.toNat_inj.1
  simp only [join24, UInt32.toNat_ofNat', UInt8.toNat_ofNat']
  omega

end BigEndian

namespace Feedback

namespace Message

theorem length_padding (n : Nat) : (padding n).length = n := by
  cases n with
  | zero => rfl
  | succ n => rw [padding, List.length_append, List.length_replicate, List.length_singleton]

/-- A packet is as long as its number of words says. -/
theorem length_bytes (m : Message) : m.bytes.length = 4 * m.wordCount := by
  have hheader (padded : Bool) : (m.header.bytes padded).length = 4 := rfl
  have hsender : m.senderSsrc.bytes.length = 4 := rfl
  have hmedia : m.mediaSsrc.bytes.length = 4 := rfl
  simp only [bytes, List.length_append, hheader, hsender, hmedia, length_controlInfo,
    length_padding, controlInfoSize, paddingSize, wordCount]
  omega

-- A packet begins with its header, of which the first byte also tells whether
-- there is padding.
theorem bytes_eq_cons (m : Message) :
    ∃ tail, m.bytes = UInt8.ofNat (if m.paddingSize ≠ 0 then 175 else 143) :: 205
        :: UInt8.ofNat (m.header.lengthField.toNat / 256)
        :: UInt8.ofNat m.header.lengthField.toNat :: tail := by
  refine ⟨m.senderSsrc.bytes ++ m.mediaSsrc.bytes ++ m.controlInfo ++ padding m.paddingSize, ?_⟩
  by_cases h : m.paddingSize ≠ 0
  · simp [bytes, Rtcp.Header.bytes, BigEndian.bytes16, header, Rtcp.Format.code,
      Rtcp.TransportFeedback.code, Rtcp.PacketType.code, h]
  · simp [bytes, Rtcp.Header.bytes, BigEndian.bytes16, header, Rtcp.Format.code,
      Rtcp.TransportFeedback.code, Rtcp.PacketType.code, h]

/-- The header is read back from the packet, also if more follows behind it. -/
theorem parse_header (m : Message) (rest : List UInt8) :
    Rtcp.Header.parse (m.bytes ++ rest) = .ok m.header := by
  rcases m.bytes_eq_cons with ⟨tail, hbytes⟩
  rw [hbytes]
  simp only [List.cons_append, Rtcp.Header.parse]
  rw [BigEndian.join16_bytes16]
  by_cases h : m.paddingSize ≠ 0
  · rw [if_pos h]
    rfl
  · rw [if_neg h]
    rfl

theorem isPadded_bytes (m : Message) (rest : List UInt8) :
    isPadded (m.bytes ++ rest) = decide (m.paddingSize ≠ 0) := by
  rcases m.bytes_eq_cons with ⟨tail, hbytes⟩
  rw [hbytes]
  simp only [List.cons_append, isPadded]
  by_cases h : m.paddingSize ≠ 0
  · rw [if_pos h, decide_eq_true h]
    decide
  · rw [if_neg h, decide_eq_false h]
    decide

/-- What is written as padding is removed, and nothing else. -/
theorem removePadding_padding (info : List UInt8) (n : Nat) (hpos : n ≠ 0) (hn : n < 256) :
    removePadding (info ++ padding n) = some info := by
  cases n with
  | zero => exact absurd rfl hpos
  | succ k =>
      rw [padding]
      apply removePadding_append
      rw [UInt8.toNat_ofNat', List.length_replicate]
      omega

-- The length in the header is the true one if it fits there.
theorem byteCount_header (m : Message) (h : m.wordCount ≤ 65536) :
    m.header.byteCount = m.bytes.length := by
  have hpos : 5 ≤ m.wordCount := Nat.le_add_right 5 _
  rw [length_bytes, Rtcp.Header.byteCount, Rtcp.Header.wordCount, header, UInt16.toNat_ofNat']
  omega

/-- The control information that is cut out of a packet is what was written,
    without the padding and without what comes behind the packet. -/
theorem controlInfo_bytes_append (m : Message) (h : m.wordCount ≤ 65536) (rest : List UInt8) :
    Feedback.controlInfo (m.bytes ++ rest) = .ok m.controlInfo := by
  have hlen : 20 ≤ m.bytes.length := by
    rw [length_bytes, wordCount]
    omega
  have hbody : ((m.bytes ++ rest).take m.header.byteCount).drop controlInfoStart
      = m.controlInfo ++ padding m.paddingSize := by
    rw [byteCount_header m h, List.take_left, bytes, List.append_assoc _ m.controlInfo]
    exact List.drop_left' rfl
  rw [Feedback.controlInfo, if_neg, parse_header]
  · simp only
    rw [if_neg, if_neg, hbody, isPadded_bytes]
    · by_cases hpad : m.paddingSize ≠ 0
      · have hlt : m.paddingSize < 256 := by
          rw [paddingSize]
          omega
        rw [decide_eq_true hpad, if_pos rfl, removePadding_padding _ _ hpad hlt]
      · rw [decide_eq_false hpad, Decidable.not_not.1 hpad, padding, List.append_nil]
        rfl
    · rw [byteCount_header m h, List.length_append, controlInfoStart]
      omega
    · simp [header]
  · rw [List.length_append, controlInfoStart]
    omega

-- A buffer of as many words as the packet has is filled by it.
theorem overwrite_replicate (m : Message) :
    m.overwrite (List.replicate (4 * m.wordCount) 0) = some m.bytes := by
  rw [overwrite, length_bytes, List.length_replicate, if_neg (Nat.lt_irrefl _),
    List.drop_eq_nil_of_le (Nat.le_of_eq List.length_replicate), List.append_nil]

-- The padding fills up the last word of what has been written up to there, although it
-- is worked out from chunks and deltas only: all else is a whole number of words.
theorem exists_front (m : Message) :
    ∃ front, front.length = controlInfoStart + m.controlInfoSize
      ∧ front.drop controlInfoStart = m.controlInfo
      ∧ m.bytes = front ++ padding ((4 - front.length % 4) % 4) := by
  have hlength : (m.header.bytes (m.paddingSize ≠ 0) ++ m.senderSsrc.bytes ++ m.mediaSsrc.bytes
      ++ m.controlInfo).length = controlInfoStart + m.controlInfoSize := by
    rw [List.length_append, length_controlInfo]
    rfl
  refine ⟨_, hlength, List.drop_left' rfl, ?_⟩
  have hpadding : (4 - (controlInfoStart + m.controlInfoSize) % 4) % 4 = m.paddingSize := by
    rw [controlInfoStart, controlInfoSize, paddingSize]
    omega
  rw [hlength, hpadding, bytes]

/-- A packet is cut out of whatever it is followed by, no matter if its fields agree with
    each other.

    It has as many words as are worked out for it, and fills a buffer of that length.
    Its header is read back from it, and tells this length. The control information
    that is cut out has the length that is declared for it, and is all that was written:
    eight bytes of fixed fields, the chunks and the deltas. The padding that fills up the
    last word is cut off, and so is what follows. -/
theorem cut_bytes_append (m : Message) (h : m.wordCount ≤ 65536) (rest : List UInt8) :
    m.bytes.length = 4 * m.wordCount
      ∧ m.overwrite (List.replicate (4 * m.wordCount) 0) = some m.bytes
      ∧ Rtcp.Header.parse m.bytes = .ok m.header ∧ m.header.byteCount = m.bytes.length
      ∧ Feedback.controlInfo (m.bytes ++ rest) = .ok m.controlInfo
      ∧ m.controlInfo.length = m.controlInfoSize
      ∧ (∃ fixed, fixed.length = 8 ∧ m.controlInfo = fixed
        ++ m.chunks.flatMap (fun c => BigEndian.bytes16 c.wire) ++ m.deltas.flatMap Delta.bytes)
      ∧ ∃ front, front.length = controlInfoStart + m.controlInfoSize
        ∧ front.drop controlInfoStart = m.controlInfo
        ∧ m.bytes = front ++ padding ((4 - front.length % 4) % 4) := by
  have hheader := m.parse_header []
  rw [List.append_nil] at hheader
  exact ⟨m.length_bytes, m.overwrite_replicate, hheader, m.byteCount_header h,
    m.controlInfo_bytes_append h rest, m.length_controlInfo, ⟨_, rfl, rfl⟩, m.exists_front⟩

-- Twelve numbers are declared here, but there are a run of two and one delta. One byte of
-- padding is needed. Behind the packet another one begins.
theorem cut_bytes_append_inconsistent :
    ∃ (m : Message) (rest : List UInt8), m.wordCount ≤ 65536
      ∧ m.statusCount = 12 ∧ m.chunks = [.run .smallDelta 2] ∧ m.deltas = [.small 10]
      ∧ m.bytes = [175, 205, 0, 5, 0, 0, 0, 1, 0, 0, 0, 2, 0, 10, 0, 12, 0, 5, 57, 3, 32, 2, 10, 1]
      ∧ rest = [128, 200, 0, 6]
      ∧ Feedback.controlInfo (m.bytes ++ rest) = .ok [0, 10, 0, 12, 0, 5, 57, 3, 32, 2, 10] := by
  let m : Message := ⟨⟨1⟩, ⟨2⟩, 10, 12, 1337, 3, [.run .smallDelta 2], [.small 10]⟩
  have hwords : m.wordCount ≤ 65536 := by decide
  have hinfo : m.controlInfo = [0, 10, 0, 12, 0, 5, 57, 3, 32, 2, 10] := by decide
  refine ⟨m, [128, 200, 0, 6], hwords, rfl, rfl, rfl, by decide, rfl, ?_⟩
  rw [← hinfo]
  exact (m.cut_bytes_append hwords [128, 200, 0, 6]).2.2.2.2.1

end Message

end Feedback

end VideoTransport

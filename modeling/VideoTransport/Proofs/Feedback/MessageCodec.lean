import VideoTransport.Proofs.Feedback.ChunkStream
import VideoTransport.Proofs.Feedback.WholeInfo

/-!
# Messages on the Wire

A message that is written is read back as it was, and one that has been read is
written as it was found.

Neither is true of every message, since its fields may disagree. `Consistent`
says when they agree, and the two directions together say that nothing else will
do: what is read is consistent, whatever the bytes are.

Bytes of any kind are as much of a message as there is in them, and then some
bytes more. Where a reader stops is settled by these two together. Either the
message is consistent, and what follows it does not matter, or it `Breaks`: what
follows is too short for the next chunk that it needs, or for the next delta.

## Main definitions

* `Message.fixedFields`, `Message.body`: What follows the header, without padding.
* `Message.Breaks`: Too few bytes are left for what comes next in a message.

## Theorems

* `BigEndian.exists_bytes16`: Any two bytes are a field, and so on for other widths.
* `Message.exists_deltas`: Deltas for all statuses, or too few and then no more.
* `Message.exists_message`: Bytes of any kind are a message, or one that breaks.
* `Message.parse_of_consistent`: A consistent message is read, whatever follows it.
* `Message.parse_of_breaks`: A message that breaks is refused.
* `Message.parse_bytes`: Reading and writing undo each other.
-/

namespace VideoTransport

namespace BigEndian

theorem toNat_join24 (a b c : UInt8) :
    (join24 a b c).toNat = a.toNat * 65536 + b.toNat * 256 + c.toNat := by
  have ha := a.toNat_lt
  have hb := b.toNat_lt
  have hc := c.toNat_lt
  rw [join24, UInt32.toNat_ofNat']
  omega

theorem toNat_join32 (a b c d : UInt8) :
    (join32 a b c d).toNat = a.toNat * 16777216 + b.toNat * 65536 + c.toNat * 256 + d.toNat := by
  have ha := a.toNat_lt
  have hb := b.toNat_lt
  have hc := c.toNat_lt
  have hd := d.toNat_lt
  rw [join32, UInt32.toNat_ofNat']
  omega

theorem join32_bytes32 (v : UInt32) :
    join32 (UInt8.ofNat (v.toNat / 16777216)) (UInt8.ofNat (v.toNat / 65536))
      (UInt8.ofNat (v.toNat / 256)) (UInt8.ofNat v.toNat) = v := by
  have hv := v.toNat_lt
  apply UInt32.toNat_inj.1
  simp only [toNat_join32, UInt8.toNat_ofNat']
  omega

/-- Any two bytes are a field of 16 bits. -/
theorem exists_bytes16 (bytes : List UInt8) (h : 2 ≤ bytes.length) :
    ∃ v rest, bytes = bytes16 v ++ rest := by
  rcases bytes with _ | ⟨a, _ | ⟨b, rest⟩⟩
  · exact absurd h (by decide)
  · exact absurd h (by simp only [List.length_singleton]; decide)
  · refine ⟨join16 a b, rest, ?_⟩
    rw [bytes16_join16]
    rfl

/-- Any three bytes are a field of 24 bits. -/
theorem exists_bytes24 (bytes : List UInt8) (h : 3 ≤ bytes.length) :
    ∃ v rest, v.toNat < 16777216 ∧ bytes = bytes24 v ++ rest := by
  rcases bytes with _ | ⟨a, _ | ⟨b, _ | ⟨c, rest⟩⟩⟩
  · exact absurd h (by decide)
  · exact absurd h (by simp only [List.length_cons, List.length_nil]; decide)
  · exact absurd h (by simp only [List.length_cons, List.length_nil]; decide)
  · have ha := a.toNat_lt
    have hb := b.toNat_lt
    have hc := c.toNat_lt
    have hv := toNat_join24 a b c
    refine ⟨join24 a b c, rest, by omega, ?_⟩
    simp only [bytes24, List.cons_append, List.nil_append, List.cons.injEq, and_true]
    refine ⟨?_, ?_, ?_⟩
    all_goals
      apply UInt8.toNat_inj.1
      rw [hv, UInt8.toNat_ofNat']
      omega

/-- Any four bytes are a field of 32 bits. -/
theorem exists_bytes32 (bytes : List UInt8) (h : 4 ≤ bytes.length) :
    ∃ v rest, bytes = bytes32 v ++ rest := by
  rcases bytes with _ | ⟨a, bytes⟩
  · exact absurd h (by decide)
  · rw [List.length_cons] at h
    rcases exists_bytes24 bytes (by omega) with ⟨low, rest, hlow, rfl⟩
    have ha := a.toNat_lt
    refine ⟨UInt32.ofNat (a.toNat * 16777216 + low.toNat), rest, ?_⟩
    have hv : (UInt32.ofNat (a.toNat * 16777216 + low.toNat)).toNat
        = a.toNat * 16777216 + low.toNat := by
      rw [UInt32.toNat_ofNat']
      omega
    simp only [bytes32, bytes24, List.cons_append, List.nil_append, List.cons.injEq, and_true]
    refine ⟨?_, ?_, ?_, ?_⟩
    all_goals
      apply UInt8.toNat_inj.1
      simp only [hv, UInt8.toNat_ofNat']
      omega

end BigEndian

namespace Feedback

namespace Message

/-- The sixteen bytes behind the header: the two sources and the fixed fields of
    the control information. -/
def fixedFields (m : Message) : List UInt8 :=
  m.senderSsrc.bytes ++ m.mediaSsrc.bytes ++ BigEndian.bytes16 m.baseSeq
    ++ BigEndian.bytes16 m.statusCount ++ BigEndian.bytes24 m.referenceTime ++ [m.feedbackCount]

/-- The chunks and the deltas, which have no fixed length. -/
def body (m : Message) : List UInt8 :=
  m.chunks.flatMap (fun c => BigEndian.bytes16 c.wire) ++ m.deltas.flatMap Delta.bytes

/-- What follows the header of a packet. -/
theorem drop_bytes (m : Message) :
    m.bytes.drop 4 = m.fixedFields ++ m.body ++ padding m.paddingSize := by
  simp only [bytes, controlInfo, fixedFields, body, List.append_assoc]
  exact List.drop_left' rfl

-- Any eight bytes are the fixed fields of control information.
theorem exists_controlFields (b : List UInt8) (h : 8 ≤ b.length) :
    ∃ (base : SeqNum) (count : UInt16) (reference : UInt32) (feedbackCount : UInt8)
      (rest : List UInt8), reference.toNat < 16777216
      ∧ b = BigEndian.bytes16 base ++ BigEndian.bytes16 count ++ BigEndian.bytes24 reference
        ++ [feedbackCount] ++ rest := by
  rcases BigEndian.exists_bytes16 b (by omega) with ⟨base, b, rfl⟩
  rw [List.length_append, BigEndian.length_bytes16] at h
  rcases BigEndian.exists_bytes16 b (by omega) with ⟨count, b, rfl⟩
  rw [List.length_append, BigEndian.length_bytes16] at h
  rcases BigEndian.exists_bytes24 b (by omega) with ⟨reference, b, hreference, rfl⟩
  rw [List.length_append, BigEndian.length_bytes24] at h
  rcases List.exists_cons_of_length_pos (l := b) (by omega) with ⟨feedbackCount, b, rfl⟩
  refine ⟨base, count, reference, feedbackCount, b, hreference, ?_⟩
  simp only [List.append_assoc, List.singleton_append]

-- Any sixteen bytes are the fixed fields of some message.
theorem exists_fixedFields (b : List UInt8) (h : 16 ≤ b.length) :
    ∃ m rest, m.referenceTime.toNat < 16777216 ∧ b = fixedFields m ++ rest := by
  rcases BigEndian.exists_bytes32 b (by omega) with ⟨sender, b, rfl⟩
  rw [List.length_append, BigEndian.length_bytes32] at h
  rcases BigEndian.exists_bytes32 b (by omega) with ⟨media, b, rfl⟩
  rw [List.length_append, BigEndian.length_bytes32] at h
  rcases exists_controlFields b (by omega) with
    ⟨baseSeq, statusCount, referenceTime, feedbackCount, rest, hreference, rfl⟩
  refine ⟨⟨⟨sender⟩, ⟨media⟩, baseSeq, statusCount, referenceTime, feedbackCount, [], []⟩, rest,
    hreference, ?_⟩
  simp only [fixedFields, Ssrc.bytes, List.append_assoc]

/-- Fixed fields are read as they were written. What follows them decides. -/
theorem parse_fixedFields (m : Message) (h : m.referenceTime.toNat < 16777216)
    (rest : List UInt8) :
    parse (m.fixedFields ++ rest) = (takeChunks #[] m.statusCount.toNat rest).bind fun found =>
      (takeDeltas #[] (Chunk.decode found.1 m.statusCount.toNat) found.2).map fun deltas =>
        { m with chunks := found.1, deltas } := by
  simp only [fixedFields, Ssrc.bytes, BigEndian.bytes32, BigEndian.bytes24, BigEndian.bytes16,
    List.cons_append, List.nil_append, parse, Ssrc.ofBytes, BigEndian.join32_bytes32,
    BigEndian.join16_bytes16, BigEndian.join24_bytes24 _ h]
  rfl

theorem parse_short (b : List UInt8) (h : b.length < 16) : parse b = .error .fixedFields := by
  unfold parse
  split
  · simp only [List.length_cons] at h
    omega
  · rfl

-- A status that announces no delta is passed over.
theorem takeDeltas_skip (found : Array Delta) (s : Status) (ss : List Status)
    (bytes : List UInt8) (h : ¬ s.isReceived = true) :
    takeDeltas found (s :: ss) bytes = takeDeltas found ss bytes := by
  cases s with
  | notReceived => rfl
  | unknown => rfl
  | smallDelta => exact absurd rfl h
  | largeDelta => exact absurd rfl h

-- A status that announces a delta takes it.
theorem takeDeltas_take (found : Array Delta) (d : Delta) (ss : List Status)
    (bytes : List UInt8) :
    takeDeltas found (d.status :: ss) (d.bytes ++ bytes) = takeDeltas (found.push d) ss bytes := by
  cases d with
  | small u => rfl
  | large u =>
      simp only [Delta.status, Delta.bytes, BigEndian.bytes16, List.cons_append, List.nil_append,
        takeDeltas, Delta.ofBytes_bytes]

theorem takeDeltas_missing (found : Array Delta) (s : Status) (ss : List Status)
    (bytes : List UInt8) (h : bytes.length < s.deltaSize) :
    ∃ e, takeDeltas found (s :: ss) bytes = .error e := by
  cases s with
  | notReceived => exact absurd h (Nat.not_lt_zero _)
  | unknown => exact absurd h (Nat.not_lt_zero _)
  | smallDelta =>
      rw [Status.deltaSize, Nat.lt_one_iff, List.length_eq_zero_iff] at h
      rw [h]
      exact ⟨.smallDelta, rfl⟩
  | largeDelta =>
      rw [Status.deltaSize] at h
      rcases bytes with _ | ⟨high, _ | ⟨low, rest⟩⟩
      · exact ⟨.largeDelta, rfl⟩
      · exact ⟨.largeDelta, rfl⟩
      · simp only [List.length_cons] at h
        omega

/-- The deltas of some statuses are taken, and it goes on with the statuses and
    the bytes that are left. -/
theorem takeDeltas_append (found : Array Delta) (ss more : List Status) (ds : List Delta)
    (rest : List UInt8) (hmatch : ds.map Delta.status = ss.filter Status.isReceived) :
    takeDeltas found (ss ++ more) (ds.flatMap Delta.bytes ++ rest)
      = takeDeltas (found ++ ds) more rest := by
  induction ss generalizing found ds with
  | nil =>
      rw [List.filter_nil, List.map_eq_nil_iff] at hmatch
      simp only [hmatch, List.flatMap_nil, List.nil_append, Array.appendList_nil]
  | cons s ss ih =>
      by_cases hreceived : s.isReceived = true
      · rw [List.filter_cons_of_pos hreceived] at hmatch
        rcases List.map_eq_cons_iff.1 hmatch with ⟨d, ds, rfl, hd, hds⟩
        rw [← hd, List.cons_append, List.flatMap_cons, List.append_assoc, takeDeltas_take,
          ih _ ds hds, Array.appendList_cons]
      · rw [List.filter_cons_of_neg hreceived] at hmatch
        rw [List.cons_append, takeDeltas_skip _ _ _ _ hreceived, ih _ ds hmatch]

-- A status finds its delta if there are as many bytes.
theorem exists_delta (s : Status) (bytes : List UInt8) (hreceived : s.isReceived = true)
    (h : s.deltaSize ≤ bytes.length) :
    ∃ d rest, bytes = Delta.bytes d ++ rest ∧ d.status = s := by
  rcases s.eq_of_isReceived hreceived with rfl | rfl
  · rcases List.exists_cons_of_length_pos (l := bytes) h with ⟨b, rest, rfl⟩
    exact ⟨.small b, rest, rfl, rfl⟩
  · rcases BigEndian.exists_bytes16 bytes h with ⟨v, rest, rfl⟩
    exact ⟨.large v.toInt16, rest, rfl, rfl⟩

/-- Where the deltas of some statuses are looked for, all of them are found, or
    less is left than the next one takes. -/
theorem exists_deltas (ss : List Status) (bytes : List UInt8) :
    ∃ (ds : List Delta) (rest : List UInt8), bytes = ds.flatMap Delta.bytes ++ rest
      ∧ (ds.map Delta.status = ss.filter Status.isReceived
        ∨ ∃ before s after, ss = before ++ s :: after
          ∧ ds.map Delta.status = before.filter Status.isReceived
          ∧ rest.length < s.deltaSize) := by
  induction ss generalizing bytes with
  | nil => exact ⟨[], bytes, rfl, Or.inl rfl⟩
  | cons s ss ih =>
      by_cases hshort : bytes.length < s.deltaSize
      · exact ⟨[], bytes, rfl, Or.inr ⟨[], s, ss, rfl, rfl, hshort⟩⟩
      · by_cases hreceived : s.isReceived = true
        · rcases exists_delta s bytes hreceived (Nat.le_of_not_lt hshort) with ⟨d, bytes, rfl, hd⟩
          rcases ih bytes with ⟨ds, rest, rfl, hkind⟩
          refine ⟨d :: ds, rest, ?_, ?_⟩
          · rw [List.flatMap_cons, List.append_assoc]
          · rcases hkind with hmatch | ⟨before, t, after, hss, hmatch, hrest⟩
            · refine Or.inl ?_
              rw [List.map_cons, hd, hmatch, List.filter_cons_of_pos hreceived]
            · refine Or.inr ⟨s :: before, t, after, ?_, ?_, hrest⟩
              · rw [hss, List.cons_append]
              · rw [List.map_cons, hd, hmatch, List.filter_cons_of_pos hreceived]
        · rcases ih bytes with ⟨ds, rest, hbytes, hkind⟩
          refine ⟨ds, rest, hbytes, ?_⟩
          rcases hkind with hmatch | ⟨before, t, after, hss, hmatch, hrest⟩
          · refine Or.inl ?_
            rw [hmatch, List.filter_cons_of_neg hreceived]
          · refine Or.inr ⟨s :: before, t, after, ?_, ?_, hrest⟩
            · rw [hss, List.cons_append]
            · rw [hmatch, List.filter_cons_of_neg hreceived]

/-- The bytes that are left behind what a message has are too few for what it
    needs next, which is a chunk or the delta of some status. -/
inductive Breaks (m : Message) (rest : List UInt8) : Prop where
  | chunk (described : (m.chunks.map Chunk.capacity).sum < m.statusCount.toNat)
      (no_deltas : m.deltas = []) (missing : rest.length < 2)
  | delta (covers : Chunk.Covers m.chunks m.statusCount.toNat) (before : List Status)
      (s : Status) (after : List Status)
      (split : Chunk.decode m.chunks m.statusCount.toNat = before ++ s :: after)
      (deltas_match : m.deltas.map Delta.status = before.filter Status.isReceived)
      (missing : rest.length < s.deltaSize)

/-- The bytes behind the fixed fields of a message are those of a consistent one
    and what follows it, or they are as much as there is of one that breaks. -/
theorem exists_body (m : Message) (bytes : List UInt8)
    (hreference : m.referenceTime.toNat < 16777216) :
    ∃ cs ds rest, bytes = body { m with chunks := cs, deltas := ds } ++ rest
      ∧ (∀ c ∈ cs, c.FitsWire)
      ∧ (Consistent { m with chunks := cs, deltas := ds }
        ∨ Breaks { m with chunks := cs, deltas := ds } rest) := by
  rcases Chunk.exists_chunks m.statusCount.toNat bytes with ⟨cs, bytes, rfl, hfits, hkind⟩
  rcases hkind with hcovers | ⟨hsum, hshort⟩
  · rcases exists_deltas (Chunk.decode cs m.statusCount.toNat) bytes with
      ⟨ds, rest, rfl, hkind⟩
    refine ⟨cs, ds, rest, ?_, hfits, ?_⟩
    · rw [body, List.append_assoc]
    · rcases hkind with hmatch | ⟨before, s, after, hsplit, hmatch, hshort⟩
      · refine Or.inl ⟨hreference, hfits, hcovers, ?_⟩
        rw [statuses, map_snd_number]
        exact hmatch
      · exact Or.inr (.delta hcovers before s after hsplit hmatch hshort)
  · refine ⟨cs, [], bytes, ?_, hfits, ?_⟩
    · rw [body, List.flatMap_nil, List.append_nil]
    · exact Or.inr (.chunk hsum rfl hshort)

/-- Sixteen bytes or more are a consistent message and what follows it, or they
    are as much as there is of a message that breaks. -/
theorem exists_message (b : List UInt8) (h : 16 ≤ b.length) :
    ∃ m rest, b = fixedFields m ++ (body m ++ rest) ∧ m.referenceTime.toNat < 16777216
      ∧ (∀ c ∈ m.chunks, c.FitsWire) ∧ (m.Consistent ∨ m.Breaks rest) := by
  rcases exists_fixedFields b h with ⟨m, bytes, hreference, rfl⟩
  rcases exists_body m bytes hreference with ⟨cs, ds, rest, rfl, hfits, hkind⟩
  exact ⟨{ m with chunks := cs, deltas := ds }, rest, rfl, hreference, hfits, hkind⟩

/-- A consistent message is read, whatever follows it. -/
theorem parse_of_consistent (m : Message) (h : m.Consistent) (rest : List UInt8) :
    parse (m.fixedFields ++ (m.body ++ rest)) = .ok m := by
  have hmatch := h.deltas_match
  rw [statuses, map_snd_number] at hmatch
  have hdeltas := takeDeltas_append #[] (Chunk.decode m.chunks m.statusCount.toNat) [] m.deltas rest
    hmatch
  rw [List.append_nil] at hdeltas
  rw [parse_fixedFields m h.referenceTime_lt, body, List.append_assoc,
    takeChunks_wire m.chunks #[] _ _ h.fitsWire h.covers]
  simp only [Except.bind, List.nil_append, hdeltas, takeDeltas, Except.map, Array.toList_appendList]

/-- A message that breaks is refused. -/
theorem parse_of_breaks (m : Message) (rest : List UInt8) (h : m.Breaks rest)
    (hreference : m.referenceTime.toNat < 16777216) (hfits : ∀ c ∈ m.chunks, c.FitsWire) :
    ∃ e, parse (m.fixedFields ++ (m.body ++ rest)) = .error e := by
  rw [parse_fixedFields m hreference, body, List.append_assoc]
  cases h with
  | chunk described no_deltas missing =>
      refine ⟨.chunk, ?_⟩
      rw [no_deltas, List.flatMap_nil, List.nil_append,
        takeChunks_short m.chunks #[] _ rest hfits described missing]
      rfl
  | delta covers before s after split deltas_match missing =>
      rcases takeDeltas_missing ((#[] : Array Delta) ++ m.deltas) s after rest missing with ⟨e, he⟩
      refine ⟨e, ?_⟩
      rw [takeChunks_wire m.chunks #[] _ _ hfits covers]
      simp only [Except.bind, List.nil_append, split]
      rw [takeDeltas_append #[] before (s :: after) m.deltas rest deltas_match, he]
      rfl

-- What has been read is consistent, and the bytes begin with it.
theorem consistent_of_parse (b : List UInt8) (m : Message) (h : parse b = .ok m) :
    m.Consistent ∧ ∃ rest, b = m.fixedFields ++ (m.body ++ rest) := by
  by_cases hshort : b.length < 16
  · rw [parse_short b hshort] at h
    cases h
  · rcases exists_message b (Nat.le_of_not_lt hshort) with
      ⟨m', rest, rfl, hreference, hfits, hm | hbreaks⟩
    · rw [parse_of_consistent m' hm] at h
      cases h
      exact ⟨hm, rest, rfl⟩
    · rcases parse_of_breaks m' rest hbreaks hreference hfits with ⟨e, he⟩
      rw [he] at h
      cases h

/-- Reading and writing undo each other.

    A consistent message comes back from what follows the header of its packet.
    And what is read from any bytes is a consistent message. The bytes begin with
    its fields, its chunks and its deltas, and the packet of the message differs
    from them only behind these, where it has three bytes of padding at most. -/
theorem parse_bytes :
    (∀ m : Message, m.Consistent → parse (m.bytes.drop 4) = .ok m)
      ∧ ∀ (b : List UInt8) (m : Message), parse b = .ok m →
        m.Consistent
          ∧ (∃ rest, b = m.fixedFields ++ (m.body ++ rest))
          ∧ (∃ n ≤ 3, m.bytes.drop 4 = m.fixedFields ++ (m.body ++ padding n))
          ∧ parse (m.bytes.drop 4) = .ok m := by
  have hwritten (m : Message) (hm : m.Consistent) : parse (m.bytes.drop 4) = .ok m := by
    rw [drop_bytes, List.append_assoc]
    exact parse_of_consistent m hm _
  refine ⟨hwritten, fun b m hparse => ?_⟩
  rcases consistent_of_parse b m hparse with ⟨hm, hbytes⟩
  refine ⟨hm, hbytes, ⟨m.paddingSize, ?_, ?_⟩, hwritten m hm⟩
  · rw [paddingSize]
    omega
  · rw [drop_bytes, List.append_assoc]

-- A message with a run of length zero, and with a vector of which five symbols
-- are beyond the declared count. It is read from bytes with something other than
-- padding at their end, too.
theorem parse_bytes_overshooting :
    ∃ (m : Message) (b : List UInt8), m.Consistent
      ∧ m.chunks = [.run .unknown 0, .run .smallDelta 2, .double 9216] ∧ m.statusCount = 4
      ∧ parse b = .ok m ∧ b ≠ m.bytes.drop 4 ∧ parse (m.bytes.drop 4) = .ok m
      ∧ ∃ n ≤ 3, m.bytes.drop 4 = m.fixedFields ++ (m.body ++ padding n) := by
  let m : Message := {
    senderSsrc := ⟨1⟩
    mediaSsrc := ⟨2⟩
    baseSeq := 65534
    statusCount := 4
    referenceTime := 1337
    feedbackCount := 3
    chunks := [.run .unknown 0, .run .smallDelta 2, .double 9216]
    deltas := [.small 10, .small 15, .large (-37), .small 3] }
  have hm : m.Consistent := ⟨by decide, by decide, by decide, by decide⟩
  have hparse : parse [0, 0, 0, 1, 0, 0, 0, 2, 255, 254, 0, 4, 0, 5, 57, 3,
      96, 0, 32, 2, 228, 0, 10, 15, 255, 219, 3, 7, 7] = .ok m := rfl
  rcases parse_bytes.2 _ m hparse with ⟨_, _, hpadding, _⟩
  exact ⟨m, _, hm, rfl, rfl, hparse, by decide, parse_bytes.1 m hm, hpadding⟩

end Message

end Feedback

end VideoTransport

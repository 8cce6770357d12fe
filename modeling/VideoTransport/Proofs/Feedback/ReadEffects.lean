import VideoTransport.Proofs.Feedback.DeliveryOrder
import VideoTransport.Proofs.Feedback.HistoryLookup
import VideoTransport.Proofs.Feedback.MessageCodec

/-!
# Effects of Reading

What a reader of reports does with bytes of any kind.

It refuses nothing but what is too short for the fixed fields and one chunk. All
else is taken to pieces from the front: the fixed fields, chunks until they
describe enough, deltas for the statuses that announce one, and what is left.
`Pieces` holds them, and says where each of the two loops stops. No piece is
longer than what is there, so a reader never gets past the end, and no symbol is
looked for that a vector does not have. What a report says is put together from
the pieces, and nothing else goes into it.

The numbers of a report are in a row, also across the place where the numbers
that were passed over end and the range of the feedback begins. They may go
round the circle and come again. So a packet can be told of more than once in
one report, and what holds after each of these holds after all of them.

Nothing that the bytes say can do harm to the history. Packets are not added,
dropped or moved, and what was settled when they were sent stays. Those that a
report does not mention stay as they are, and of the others more is known.

## Main definitions

* `Chunk.symbolSize?`: The size of the symbols of a vector.
* `ReportReader.firstNumber`, `ReportReader.gap`: Where a report begins.
* `ReportReader.described`: The statuses that there are chunks for.
* `ReportReader.Pieces`: What a report is made of.
* `SentPacket.Learns`: More is known of a packet than before.
* `ReportReader.Effects`: What reading does.

## Theorems

* `Chunk.nthStatus_of_symbolSize?`: Each symbol is one of those that the vector has.
* `Reception.exists_ofStatuses`: The deltas that are read, and those that are missing.
* `ReportReader.numbered_eq`: The numbers of a report are in a row.
* `ReportReader.exists_pieces`: Bytes of any kind are taken to pieces.
* `SentPacket.learns_apply`, `SentPacket.learns_applyAll`: A packet only learns.
* `ReportReader.read_effects`: Reading is safe, whatever the bytes are.
-/

namespace VideoTransport

namespace Feedback

namespace Chunk

/-- The size of the symbols of a vector. A run has no symbols. -/
def symbolSize? : Chunk → Option SymbolSize
  | run _ _ => none
  | single _ => some .oneBit
  | double _ => some .twoBits

/-- Each symbol of a vector is below the two bits of kind, and none is read again
    from the top. -/
theorem nthStatus_of_symbolSize? (c : Chunk) (size : SymbolSize) (hsize : c.symbolSize? = some size)
    (i : Nat) (hi : i < c.capacity) :
    i < size.perVector ∧ c.nthStatus i
      = .ofCode (c.wire.toNat >>> (size.bits * (size.perVector - 1 - i)) % size.count) := by
  cases c with
  | run s n => cases hsize
  | single v =>
      cases hsize
      refine ⟨hi, ?_⟩
      rw [nthStatus, symbolAt, place_eq .oneBit i hi]
  | double v =>
      cases hsize
      refine ⟨hi, ?_⟩
      rw [nthStatus, symbolAt, place_eq .twoBits i hi]

end Chunk

namespace Reception

/-- Where chunks are looked for, some are found. They cover the count, or what
    follows them is too short for another one. -/
theorem exists_describedStatuses (count : Nat) (bytes : List UInt8) :
    ∃ cs rest, bytes = cs.flatMap (fun c => BigEndian.bytes16 c.wire) ++ rest
      ∧ (Chunk.Covers cs count ∨ ((cs.map Chunk.capacity).sum < count ∧ rest.length < 2))
      ∧ describedStatuses count #[] bytes = ((cs.flatMap Chunk.statuses).take count, rest) := by
  rcases Chunk.exists_chunks count bytes with ⟨cs, rest, rfl, hfits, hkind⟩
  refine ⟨cs, rest, rfl, hkind, ?_⟩
  rcases hkind with hcovers | ⟨hsum, hshort⟩
  · exact describedStatuses_wire cs count #[] rest hfits hcovers
  · have hall : (cs.flatMap Chunk.statuses).take count = cs.flatMap Chunk.statuses := by
      rw [List.take_of_length_le]
      rw [Chunk.length_flatMap_statuses]
      exact Nat.le_of_lt hsum
    rw [hall]
    exact describedStatuses_short cs count #[] rest hfits
      (by rw [Array.size_empty, Nat.zero_add]; exact hsum) hshort

/-- Where deltas are looked for, some are found, and as many statuses are told.
    These are all of them, or what follows is too short for the next delta. -/
theorem exists_ofStatuses (clock : Int) (first : SeqNum) (statuses : List Status)
    (bytes : List UInt8) :
    ∃ told ds rest, bytes = ds.flatMap Delta.bytes ++ rest
      ∧ ds.map Delta.status = told.filter Status.isReceived
      ∧ (told = statuses ∨ ∃ s more, statuses = told ++ s :: more ∧ rest.length < s.deltaSize)
      ∧ ofStatuses #[] clock (Message.number first statuses) bytes
        = assign clock (Message.number first told) ds := by
  rcases Message.exists_deltas statuses bytes with ⟨ds, rest, rfl, hkind⟩
  rcases hkind with hmatch | ⟨told, s, more, rfl, hmatch, hshort⟩
  · refine ⟨statuses, ds, rest, rfl, hmatch, Or.inl rfl, ?_⟩
    refine ofStatuses_bytes clock _ ds rest ?_
    rw [Message.map_snd_number]
    exact hmatch
  · refine ⟨told, ds, rest, rfl, hmatch, Or.inr ⟨s, more, rfl, hshort⟩, ?_⟩
    rw [Message.number_append, Message.number_cons, ofStatuses_append, ofStatuses_missing,
      List.append_nil]
    · exact readUnits_missing s rest hshort
    · rw [Message.map_snd_number]
      exact hmatch

end Reception

namespace ReportReader

/-- The first number of a report: the expected one, if the range of the feedback
    lies ahead of it. -/
def firstNumber (r : ReportReader) (base : SeqNum) : SeqNum :=
  match r.expected with
  | none => base
  | some expected => if expected.precedes base then expected else base

/-- How many numbers are passed over before the range of the feedback. -/
def gap (r : ReportReader) (base : SeqNum) : Nat :=
  match r.expected with
  | none => 0
  | some expected => (expected.distance base).toNat

/-- The statuses from the first number of a report on, as far as there are chunks
    for them. Numbers that are passed over need none. -/
def described (r : ReportReader) (base : SeqNum) (count : UInt16) (cs : List Chunk) :
    List Status :=
  List.replicate (r.gap base) .notReceived ++ (cs.flatMap Chunk.statuses).take count.toNat

-- The range of the feedback begins where the gap ends.
theorem advance_gap (r : ReportReader) (base : SeqNum) :
    (r.firstNumber base).advance (r.gap base) = base := by
  rw [firstNumber, gap]
  cases r.expected with
  | none => exact base.advance_zero
  | some expected =>
      simp only [SeqNum.precedes, decide_eq_true_eq]
      split
      · rename_i hahead
        have hsteps := SeqNum.stepsTo_eq_distance expected base (Int.le_of_lt hahead)
        rw [← hsteps, Int.toNat_natCast, SeqNum.advance_stepsTo]
      · rename_i hbehind
        rw [Int.toNat_of_nonpos (Int.not_lt.1 hbehind), SeqNum.advance_zero]

theorem skipped_eq (r : ReportReader) (base : SeqNum) :
    r.skipped base
      = Message.number (r.firstNumber base) (List.replicate (r.gap base) .notReceived) := by
  rw [skipped, firstNumber, gap]
  cases r.expected with
  | none => rfl
  | some expected =>
      simp only [SeqNum.precedes, decide_eq_true_eq]
      split
      · rfl
      · rename_i hbehind
        rw [Int.toNat_of_nonpos (Int.not_lt.1 hbehind)]
        rfl

/-- The numbers that are passed over and those of the feedback are in one row. -/
theorem numbered_eq (r : ReportReader) (base : SeqNum) (ss : List Status) :
    r.skipped base ++ Message.number base ss
      = Message.number (r.firstNumber base)
        (List.replicate (r.gap base) .notReceived ++ ss) := by
  rw [Message.number_append, List.length_replicate, r.advance_gap, r.skipped_eq]

/-- The pieces that control information is taken to, and what a report says, put
    together from them.

    The pieces are all that there is, in this order. Chunks are taken until they
    cover the count, or until half a chunk is left at most. Statuses are told
    until there are no more, or until the delta of the next one is missing. -/
structure Pieces (r : ReportReader) (info : List UInt8) (report : Report) where
  reference : UInt32
  chunks : List Chunk
  deltas : List Delta
  /-- What is not looked at, or is too short. -/
  rest : List UInt8
  /-- The statuses that the report tells. -/
  told : List Status
  info_eq : info = BigEndian.bytes16 report.baseSeq ++ BigEndian.bytes16 report.declaredCount
    ++ BigEndian.bytes24 reference ++ [report.feedbackCount]
    ++ (chunks.flatMap (fun c => BigEndian.bytes16 c.wire) ++ (deltas.flatMap Delta.bytes ++ rest))
  referenceTime_eq : report.referenceTime = .ofMicros (reference.toNat * referenceUnit)
  chunks_end : Chunk.Covers chunks report.declaredCount.toNat
    ∨ ((chunks.map Chunk.capacity).sum < report.declaredCount.toNat
      ∧ (deltas.flatMap Delta.bytes ++ rest).length < 2)
  symbols : ∀ c ∈ chunks, ∀ size, c.symbolSize? = some size → ∀ i < c.capacity,
    i < size.perVector ∧ c.nthStatus i
      = .ofCode (c.wire.toNat >>> (size.bits * (size.perVector - 1 - i)) % size.count)
  deltas_match : deltas.map Delta.status = told.filter Status.isReceived
  told_end : told = r.described report.baseSeq report.declaredCount chunks
    ∨ ∃ s more, r.described report.baseSeq report.declaredCount chunks = told ++ s :: more
      ∧ rest.length < s.deltaSize
  receptions_eq : report.receptions = Reception.assign (reference.toNat * referenceUnit)
    (Message.number (r.firstNumber report.baseSeq) told) deltas

/-- Whatever is long enough is read, and the report is put together from the
    pieces that it is taken to. -/
theorem exists_pieces (r : ReportReader) (h : SendHistory) (info : List UInt8)
    (hlong : 10 ≤ info.length) :
    ∃ report, r.read h info = .ok (report, r.moveTo (report.baseSeq + report.declaredCount),
        h.applyAll report.receptions)
      ∧ Nonempty (r.Pieces info report) := by
  rcases Message.exists_controlFields info (by omega) with
    ⟨base, count, reference, feedbackCount, body, hreference, rfl⟩
  have hbody : 2 ≤ body.length := by
    simp only [List.length_append, BigEndian.length_bytes16, BigEndian.length_bytes24,
      List.length_singleton] at hlong
    omega
  rcases r.exists_read_fields h base count reference feedbackCount body hreference hbody with
    ⟨report, hread, rfl, rfl, htime, rfl, hreceptions⟩
  rcases Reception.exists_describedStatuses report.declaredCount.toNat body with
    ⟨cs, bytes, rfl, hchunks, hstatuses⟩
  rcases Reception.exists_ofStatuses (reference.toNat * referenceUnit)
    (r.firstNumber report.baseSeq) (r.described report.baseSeq report.declaredCount cs) bytes with
    ⟨told, ds, rest, rfl, hmatch, htold, hassign⟩
  refine ⟨report, hread, ⟨{
    reference, chunks := cs, deltas := ds, rest, told
    info_eq := rfl
    referenceTime_eq := htime
    chunks_end := hchunks
    symbols := fun c _ size hsize i hi => c.nthStatus_of_symbolSize? size hsize i hi
    deltas_match := hmatch
    told_end := htold
    receptions_eq := ?_ }⟩⟩
  rw [hreceptions, receptions, hstatuses, ← hassign, described, ← r.numbered_eq]

namespace Pieces

variable {r : ReportReader} {info : List UInt8} {report : Report}

theorem map_receptions (p : r.Pieces info report) :
    report.receptions.map (fun s => (s.seq, s.status))
      = Message.number (r.firstNumber report.baseSeq) p.told := by
  rw [p.receptions_eq]
  refine Reception.map_assign _ _ _ ?_
  rw [Message.map_snd_number]
  exact p.deltas_match

theorem length_told (p : r.Pieces info report) : report.packets.length = p.told.length := by
  have hlength := congrArg List.length p.map_receptions
  rw [List.length_map, Message.length_number, Report.receptions, List.length_map] at hlength
  exact hlength

/-- The numbers of a report are in a row. -/
theorem map_seq (p : r.Pieces info report) :
    report.packets.map (·.seq)
      = (List.range report.packets.length).map (r.firstNumber report.baseSeq).advance := by
  have hfst := congrArg (List.map Prod.fst) p.map_receptions
  rw [List.map_map, Report.receptions, List.map_map, Message.map_fst_number, ← p.length_told] at hfst
  exact hfst

/-- There are no more of them than are passed over and declared. -/
theorem length_le (p : r.Pieces info report) :
    report.packets.length ≤ r.gap report.baseSeq + report.declaredCount.toNat := by
  have hdescribed : (r.described report.baseSeq report.declaredCount p.chunks).length
      ≤ r.gap report.baseSeq + report.declaredCount.toNat := by
    rw [described, List.length_append, List.length_replicate, List.length_take]
    omega
  rw [p.length_told]
  rcases p.told_end with hall | ⟨s, more, hall, _⟩
  · rw [hall]
    exact hdescribed
  · rw [hall, List.length_append] at hdescribed
    omega

end Pieces

end ReportReader

namespace SentPacket

/-- More is known of a packet than before. What was settled when it was sent has
    not changed, nor has the time that the socket told. A time of arrival is not
    forgotten, and a packet that has one is not lost. -/
structure Learns (p p' : SentPacket) : Prop where
  sending : p'.sending = p.sending
  socketTime : p'.socketTime = p.socketTime
  arrival : p.arrival ≠ none → p'.arrival ≠ none
  lost : (p.lost = true → p.arrival = none) → p'.lost = true → p'.arrival = none

theorem Learns.refl (p : SentPacket) : p.Learns p :=
  ⟨rfl, rfl, id, id⟩

theorem Learns.trans {p q s : SentPacket} (hpq : p.Learns q) (hqs : q.Learns s) : p.Learns s where
  sending := hqs.sending.trans hpq.sending
  socketTime := hqs.socketTime.trans hpq.socketTime
  arrival := fun harrival => hqs.arrival (hpq.arrival harrival)
  lost := fun hbefore => hqs.lost (hpq.lost hbefore)

/-- A packet learns from each report about it. -/
theorem learns_apply (p : SentPacket) (status : Status) (arrival : Option Duration) :
    p.Learns (p.apply status arrival) := by
  have hsending := p.sending_apply status arrival
  by_cases hreceived : status.isReceived = true
  · rw [p.apply_of_isReceived status arrival hreceived] at hsending ⊢
    refine ⟨hsending, rfl, fun harrival => ?_, fun _ hlost => by cases hlost⟩
    cases arrival with
    | none => exact harrival
    | some time => exact Option.some_ne_none time
  · rw [p.apply_of_not_isReceived status arrival hreceived] at hsending ⊢
    by_cases hp : p.arrival = none
    · rw [if_pos hp] at hsending ⊢
      exact ⟨hsending, rfl, id, fun _ _ => hp⟩
    · rw [if_neg hp]
      exact .refl p

/-- So it does from any number of them. -/
theorem learns_applyAll (p : SentPacket) (rs : List Reception) : p.Learns (p.applyAll rs) := by
  induction rs generalizing p with
  | nil => exact .refl p
  | cons r rest ih => exact (p.learns_apply r.status r.arrival).trans (ih _)

end SentPacket

namespace SendHistory

/-- After some reports, each packet has learned, and those that are not mentioned
    are as they were. -/
theorem forall₂_learns_applyAll (h : SendHistory) (rs : List Reception) :
    List.Forall₂ (fun p p' => p.Learns p' ∧ (p.seq ∉ rs.map (·.seq) → p' = p))
      h.toList (h.applyAll rs).toList := by
  refine (h.forall₂_applyAll rs).imp fun p p' hp' => ?_
  rcases hp' with rfl | rfl
  · exact ⟨.refl _, fun _ => rfl⟩
  · refine ⟨p.learns_applyAll _, fun huntold => ?_⟩
    rw [Reception.filter_seq_of_notMem rs p.seq huntold]
    rfl

-- What reports change is not what an entry of a report is joined with.
theorem join_applyAll (h : SendHistory) (rs : List Reception) (s : Reception) :
    (h.applyAll rs).join s = h.join s := by
  simp only [join, get?_applyAll]
  cases h.get? s.seq with
  | none => rfl
  | some p =>
      have hlearns := p.learns_applyAll (rs.filter (·.seq = s.seq))
      have hsentAt := congrArg Sending.sentAt hlearns.sending
      have hsize := congrArg Sending.size hlearns.sending
      simp only [SentPacket.sending] at hsentAt hsize
      simp only [Option.map_some, Option.bind_some, hsentAt, hsize, hlearns.socketTime]

end SendHistory

namespace ReportReader

/-- What reading does with bytes that are long enough, whatever they are.

    The report is put together from the pieces of the bytes. Its numbers are in a
    row from where it begins. The history keeps all of its packets at their places,
    each of them only learns, and those that are not mentioned stay the same. Each
    entry of the report is joined with the packet that is found under its number,
    of which it has what was settled before. -/
structure Effects (r : ReportReader) (h : SendHistory) (info : List UInt8) (report : Report)
    (h' : SendHistory) : Prop where
  pieces : Nonempty (r.Pieces info report)
  numbers : report.packets.map (·.seq)
    = (List.range report.packets.length).map (r.firstNumber report.baseSeq).advance
  length_le : report.packets.length ≤ r.gap report.baseSeq + report.declaredCount.toNat
  frame : SendHistory.SameFrame h h'
  packets : List.Forall₂
    (fun p p' => p.Learns p' ∧ (p.seq ∉ report.packets.map (·.seq) → p' = p)) h.toList h'.toList
  joined : ∀ e ∈ report.packets, ∀ k, k = h ∨ k = h' →
    e.sentAt = (k.get? e.seq).map (·.sentAt) ∧ e.socketTime = (k.get? e.seq).bind (·.socketTime)
      ∧ e.size = (k.get? e.seq).map (·.size)

/-- Reading is safe, whatever the bytes are.

    What is shorter than the fixed fields and one chunk is refused, and changes
    neither the reader nor the history. All else is read, and what that does is
    bounded by `Effects`. -/
theorem read_effects (r : ReportReader) (h : SendHistory) (info : List UInt8) :
    (info.length < 10 → r.readAll h [info] = ([.error (.shortControlInfo info.length)], r, h))
      ∧ (10 ≤ info.length → ∃ report h',
        r.read h info = .ok (report, r.moveTo (report.baseSeq + report.declaredCount), h')
        ∧ r.Effects h info report h') := by
  constructor
  · intro hshort
    rw [readAll, r.read_short h info hshort]
    rfl
  · intro hlong
    rcases r.exists_pieces h info hlong with ⟨report, hread, ⟨p⟩⟩
    have hpackets := r.packets_of_read _ h _ info report hread
    have hlearns := h.forall₂_learns_applyAll report.receptions
    rw [Report.receptions, List.map_map] at hlearns
    refine ⟨report, _, hread, ⟨p⟩, p.map_seq, p.length_le, h.sameFrame_applyAll _, hlearns, ?_⟩
    intro e he k hk
    rw [hpackets] at he
    rcases List.mem_map.1 he with ⟨s, _, rfl⟩
    rcases hk with rfl | rfl
    · rw [SendHistory.join_applyAll]
      exact ⟨rfl, rfl, rfl⟩
    · exact ⟨rfl, rfl, rfl⟩

-- Three numbers are passed over, across the end of the circle. Then there is a run of
-- length zero, a vector with more symbols than are declared, and one delta less than
-- it announces. The first delta leads to before the origin. One byte less than any
-- feedback has is refused.
theorem read_effects_malformed :
    ∃ (r : ReportReader) (h : SendHistory) (info : List UInt8) (report : Report)
      (h' : SendHistory),
      info = [0, 1, 0, 5, 0, 0, 0, 7, 96, 0, 237, 16, 255, 255, 2]
      ∧ h.toList.map (·.seq) = [65535, 0, 1, 2, 3]
      ∧ r.readAll h [info.take 9] = ([.error (.shortControlInfo 9)], r, h)
      ∧ r.read h info = .ok (report, ⟨some 6⟩, h') ∧ r.Effects h info report h'
      ∧ r.firstNumber 1 = 65534 ∧ r.gap 1 = 3
      ∧ report.packets.map (fun e => (e.seq, e.status, e.arrival, e.size))
        = [(65534, .notReceived, none, none), (65535, .notReceived, none, some 10),
          (0, .notReceived, none, some 20), (1, .largeDelta, none, some 30),
          (2, .unknown, none, some 40), (3, .smallDelta, some (.ofMicros 250), some 50),
          (4, .notReceived, none, none)]
      ∧ h'.toList.map (fun p => (p.arrival, p.lost)) = [(none, true), (none, true), (none, false),
        (none, true), (some (.ofMicros 250), false)] := by
  let r : ReportReader := ⟨some 65534⟩
  let h := (SendHistory.start 8).run [.record 65535 ⟨1⟩ 10, .send ⟨2⟩ 20, .send ⟨3⟩ 30,
    .send ⟨4⟩ 40, .send ⟨5⟩ 50]
  let info : List UInt8 := [0, 1, 0, 5, 0, 0, 0, 7, 96, 0, 237, 16, 255, 255, 2]
  rcases (r.read_effects h info).2 (by decide) with ⟨report, h', hread, heffects⟩
  have hreader : (r.read h info).toOption.map (fun out => out.2.1) = some ⟨some 6⟩ := by
    decide +kernel
  have hpackets : (r.read h info).toOption.map
      (fun out => out.1.packets.map fun e => (e.seq, e.status, e.arrival, e.size))
      = some [(65534, .notReceived, none, none), (65535, .notReceived, none, some 10),
        (0, .notReceived, none, some 20), (1, .largeDelta, none, some 30),
        (2, .unknown, none, some 40), (3, .smallDelta, some (.ofMicros 250), some 50),
        (4, .notReceived, none, none)] := by
    decide +kernel
  have hlist : (r.read h info).toOption.map
      (fun out => out.2.2.toList.map fun p => (p.arrival, p.lost))
      = some [(none, true), (none, true), (none, false), (none, true),
        (some (.ofMicros 250), false)] := by
    decide +kernel
  simp only [hread, Except.toOption, Option.map_some, Option.some.injEq] at hreader hpackets hlist
  rw [hreader] at hread
  exact ⟨r, h, info, report, h', rfl, by decide +kernel,
    (r.read_effects h (info.take 9)).1 (by decide), hread, heffects, by decide, by decide, hpackets,
    hlist⟩

end ReportReader

end Feedback

end VideoTransport

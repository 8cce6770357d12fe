import VideoTransport.Proofs.Feedback.MessageCodec

/-!
# Two Readers of Feedback

A message and a report are read from the same bytes by different means.

The reader of messages takes chunks apart until nothing is left to describe, and
gives up where a chunk or a delta is missing. The reader of reports knows the
statuses before it looks for deltas, and says what it can where they run out.
Nothing ties one to the other but the format.

Both have been followed through bytes of any kind, which are a consistent
message with something behind it or a message that breaks. For a consistent one
a report has all statuses, with the times that the deltas lead to. For one that
breaks it lacks a status at least. So from the length of a report one can tell
whether there was a message.

## Main definitions

* `Message.arrivals`: The times that the deltas of a message lead to.

## Theorems

* `Delta.clocks_eq`: The running sums of deltas, each by itself.
* `Message.length_receptions_of_breaks`: For a message that breaks, a status is missing.
* `Message.report_iff_parse`: A report is complete if and only if there is a message.
-/

namespace VideoTransport

namespace Feedback

/-- Each running sum counts from where the first one does. -/
theorem Delta.clocks_eq (clock : Int) (ds : List Delta) :
    clocks clock ds = (List.range ds.length).map fun i =>
      clock + ((ds.take (i + 1)).map units).sum * deltaUnit := by
  induction ds generalizing clock with
  | nil => rfl
  | cons d rest ih =>
      rw [clocks, ih, List.length_cons, List.range_succ_eq_map, List.map_cons, List.map_map]
      congr 1
      · simp only [Nat.zero_add, List.take_succ_cons, List.take_zero, List.map_cons, List.map_nil,
          List.sum_cons, List.sum_nil, Int.add_zero]
      · apply List.map_congr_left
        intro i _
        simp only [Function.comp_apply, Nat.succ_eq_add_one, List.take_succ_cons, List.map_cons,
          List.sum_cons]
        rw [Int.add_mul, Int.add_assoc]

namespace Message

/-- The times of arrival that a message tells, one for each delta: the reference
    time and all deltas up to this one. There is none before the origin. -/
def arrivals (m : Message) : List (Option Duration) :=
  (List.range m.deltas.length).map fun i => Reception.timeOf
    (m.referenceTime.toNat * referenceUnit
      + ((m.deltas.take (i + 1)).map Delta.units).sum * deltaUnit)

@[simp] theorem length_fixedFields (m : Message) : m.fixedFields.length = 16 := by
  simp only [fixedFields, Ssrc.bytes, List.length_append, BigEndian.length_bytes32,
    BigEndian.length_bytes16, BigEndian.length_bytes24, List.length_singleton]

-- Behind the two sources, the fixed fields are those of the control information.
theorem drop_fixedFields (m : Message) (rest : List UInt8) :
    (m.fixedFields ++ rest).drop 8 = BigEndian.bytes16 m.baseSeq
      ++ BigEndian.bytes16 m.statusCount ++ BigEndian.bytes24 m.referenceTime
      ++ [m.feedbackCount] ++ rest := by
  simp only [fixedFields, List.append_assoc]
  rw [← List.append_assoc]
  exact List.drop_left' rfl

-- The statuses of a consistent message are as many as it declares.
theorem Consistent.length_statuses (m : Message) (hm : m.Consistent) :
    m.statuses.length = m.statusCount.toNat := by
  rcases (Chunk.covers_iff _ _).1 hm.covers with ⟨_, hsome⟩
  rw [statuses, length_number, Chunk.decode_eq, List.length_take, Chunk.length_flatMap_statuses]
  omega

/-- For a message that breaks, less is said than it declares. -/
theorem length_receptions_of_breaks (m : Message) (rest : List UInt8) (h : m.Breaks rest)
    (hfits : ∀ c ∈ m.chunks, c.FitsWire) :
    (ReportReader.receptions {} m.baseSeq m.statusCount m.referenceTime (m.body ++ rest)).length
      < m.statusCount.toNat := by
  rw [ReportReader.receptions, ReportReader.skipped, body, List.append_assoc]
  cases h with
  | chunk described no_deltas missing =>
      -- What the chunks describe is less than the count.
      have hchunks := Reception.describedStatuses_short m.chunks m.statusCount.toNat #[] rest hfits
        (by rw [Array.size_empty, Nat.zero_add]; exact described) missing
      have hlength := (Reception.isPrefix_map_ofStatuses (m.referenceTime.toNat * referenceUnit)
        (number m.baseSeq (m.chunks.flatMap Chunk.statuses)) rest).length_le
      rw [List.length_map, length_number, Chunk.length_flatMap_statuses] at hlength
      rw [no_deltas, List.flatMap_nil, List.nil_append, hchunks]
      exact Nat.lt_of_le_of_lt hlength described
  | delta covers before s after split deltas_match missing =>
      -- It ends before the status whose delta is missing.
      have hchunks := Reception.describedStatuses_wire m.chunks m.statusCount.toNat #[]
        (m.deltas.flatMap Delta.bytes ++ rest) hfits covers
      simp only [List.nil_append, Array.size_empty, Nat.sub_zero] at hchunks
      rw [← Chunk.decode_eq, split] at hchunks
      have hmatch : m.deltas.map Delta.status
          = ((number m.baseSeq before).map Prod.snd).filter Status.isReceived := by
        rw [map_snd_number, deltas_match]
      have hlength := congrArg List.length
        (Reception.map_assign (m.referenceTime.toNat * referenceUnit) _ m.deltas hmatch)
      have hcount := congrArg List.length split
      rw [hchunks]
      simp only [List.nil_append]
      rw [number_append, number_cons, Reception.ofStatuses_append _ _ _ _ _ hmatch,
        Reception.ofStatuses_missing _ _ _ _ _ (Reception.readUnits_missing s rest missing),
        List.append_nil]
      rw [List.length_map, length_number] at hlength
      rw [Chunk.decode_eq, List.length_take, List.length_append, List.length_cons] at hcount
      omega

/-- A report is complete if and only if there is a message, and then it says what
    the message says.

    The bytes are those behind the header of a packet, and the report is read
    from what follows the two sources, by a reader that has read no other
    feedback. A report on a message has its statuses, with the numbers of its
    range. The statuses that announce a delta have one each in the message, of
    their size, and the times that these lead to. The others have no time. -/
theorem report_iff_parse (b : List UInt8) (hlen : 18 ≤ b.length) (h : SendHistory) :
    ∃ report after, ReportReader.read {} h (b.drop 8) = .ok (report, after)
      ∧ ((∃ m, parse b = .ok m) ↔ report.packets.length = report.declaredCount.toNat)
      ∧ ∀ m, parse b = .ok m →
        report.declaredCount = m.statusCount
        ∧ report.receptions.map (fun r => (r.seq, r.status)) = m.statuses
        ∧ m.deltas.map Delta.status = (m.statuses.map Prod.snd).filter Status.isReceived
        ∧ (report.receptions.filter (·.status.isReceived)).map (·.arrival) = m.arrivals
        ∧ ∀ r ∈ report.receptions, ¬ r.status.isReceived = true → r.arrival = none := by
  rcases exists_message b (by omega) with ⟨m, rest, rfl, hreference, hfits, hkind⟩
  rw [List.length_append, length_fixedFields] at hlen
  rw [drop_fixedFields]
  refine ⟨_, _, ReportReader.read_fields {} h m.baseSeq m.statusCount m.referenceTime
    m.feedbackCount (m.body ++ rest) hreference (by omega), ?_⟩
  simp only [Report.receptions, SendHistory.map_toReception_join, List.length_map]
  rcases hkind with hm | hbreaks
  · have htold := ReportReader.receptions_of_consistent {} m hm rest
    rw [ReportReader.skipped, List.nil_append, ← List.append_assoc, ← body] at htold
    have hpairs := Reception.map_assign (m.referenceTime.toNat * referenceUnit) m.statuses m.deltas
      hm.deltas_match
    have harrivals := Reception.arrival_assign (m.referenceTime.toNat * referenceUnit) m.statuses
      m.deltas hm.deltas_match
    rw [Delta.clocks_eq, List.map_map] at harrivals
    have hlength := congrArg List.length hpairs
    rw [List.length_map, hm.length_statuses] at hlength
    rw [htold, parse_of_consistent m hm rest]
    refine ⟨⟨fun _ => hlength, fun _ => ⟨m, rfl⟩⟩, fun m' hm' => ?_⟩
    cases hm'
    exact ⟨rfl, hpairs, hm.deltas_match, harrivals,
      Reception.arrival_eq_none_of_mem_assign _ m.statuses m.deltas⟩
  · have hlength := length_receptions_of_breaks m rest hbreaks hfits
    rcases parse_of_breaks m rest hbreaks hreference hfits with ⟨e, he⟩
    rw [he]
    refine ⟨⟨fun hsome => ?_, fun heq => ?_⟩, fun m' hm' => ?_⟩
    · rcases hsome with ⟨m', hm'⟩
      cases hm'
    · exact absurd heq (Nat.ne_of_lt hlength)
    · cases hm'

-- A run of length zero, a vector with more symbols than numbers are left, and a
-- third delta that leads to before the origin. The fourth one does not make up
-- for it, so two packets have been received at no time that can be told.
theorem report_iff_parse_before_origin :
    ∃ b m report after, b = [0, 0, 0, 1, 0, 0, 0, 2, 255, 254, 0, 5, 0, 0, 0, 3,
        96, 0, 32, 2, 201, 0, 10, 15, 255, 219, 3, 7, 7]
      ∧ parse b = .ok m ∧ ReportReader.read {} (.start 16) (b.drop 8) = .ok (report, after)
      ∧ report.packets.length = 5
      ∧ report.receptions.map (fun r => (r.seq, r.status)) = [(65534, .smallDelta),
        (65535, .smallDelta), (0, .notReceived), (1, .largeDelta), (2, .smallDelta)]
      ∧ (report.receptions.filter (·.status.isReceived)).map (·.arrival)
        = [some (.ofMicros 2500), some (.ofMicros 6250), none, none] := by
  let m : Message := {
    senderSsrc := ⟨1⟩
    mediaSsrc := ⟨2⟩
    baseSeq := 65534
    statusCount := 5
    referenceTime := 0
    feedbackCount := 3
    chunks := [.run .unknown 0, .run .smallDelta 2, .double 2304]
    deltas := [.small 10, .small 15, .large (-37), .small 3] }
  have hparse : parse [0, 0, 0, 1, 0, 0, 0, 2, 255, 254, 0, 5, 0, 0, 0, 3,
      96, 0, 32, 2, 201, 0, 10, 15, 255, 219, 3, 7, 7] = .ok m := rfl
  rcases report_iff_parse [0, 0, 0, 1, 0, 0, 0, 2, 255, 254, 0, 5, 0, 0, 0, 3,
    96, 0, 32, 2, 201, 0, 10, 15, 255, 219, 3, 7, 7] (by decide) (.start 16) with
    ⟨report, after, hread, hiff, htold⟩
  rcases htold m hparse with ⟨hcount, hpairs, _, harrivals, _⟩
  have hlength := hiff.1 ⟨m, hparse⟩
  rw [hcount] at hlength
  refine ⟨_, m, report, after, rfl, hparse, hread, hlength, ?_, ?_⟩
  · rw [hpairs]
    decide
  · rw [harrivals]
    decide

end Message

end Feedback

end VideoTransport

import VideoTransport.Proofs.Feedback.DeliveryOrder
import VideoTransport.Proofs.Feedback.ReaderAgreement

/-!
# Reports without Gaps

The reports on feedback that comes in order cover all sequence numbers, from the
first one of the first range to the end of the last one, and each of them once.

Between two ranges there may be numbers, because feedback was lost on its way. A
reader begins the next report with them, so it covers all that lies between the
end of one range and the end of the next. The cursor is at the end of the last
range after each report, however far round the circle that is. So the reports
join, if each of them covers less than half a turn.

What a report says about its own range does not depend on the numbers before it.
They take no delta: all deltas go to the statuses that announce them.

## Main definitions

* `WholeInfo.IsToldBy`: A report says of the range what the feedback says of it.
* `extent`: How many numbers lie between a number and the end of the last range.

## Theorems

* `WholeInfo.exists_message`: Whole control information is that of a consistent message.
* `ReportReader.exists_report`: One report, behind the range before.
* `ReportReader.readAll_behind`: A list of reports, behind a range.
* `ReportReader.readAll_without_gaps`: All reports, from the first one on.
-/

namespace VideoTransport

namespace Feedback

namespace WholeInfo

/-- Whole control information is that of a consistent message, and what it says
    about its range is what the message says. -/
theorem exists_message (f : WholeInfo) :
    ∃ (m : Message) (extra : List UInt8), m.Consistent ∧ m.baseSeq = f.base
      ∧ m.statusCount = f.declared ∧ f.info = m.controlInfo ++ extra
      ∧ f.own = Reception.assign (m.referenceTime.toNat * referenceUnit) m.statuses m.deltas := by
  let fields : Message := ⟨⟨0⟩, ⟨0⟩, f.base, f.declared, f.reference, f.feedbackCount, [], []⟩
  rcases fields.exists_body f.body f.reference_lt with ⟨cs, ds, extra, hbody, hfits, hkind⟩
  have hlength : f.own.length = f.declared.toNat := by
    have hseqs := congrArg List.length f.map_seq_own
    rw [List.length_map, List.length_map, List.length_range] at hseqs
    exact hseqs
  rcases hkind with hm | hbreaks
  · refine ⟨_, extra, hm, rfl, rfl, ?_, ?_⟩
    · rw [info, hbody]
      simp only [Message.controlInfo, Message.body, List.append_assoc, fields]
    · have htold := ReportReader.receptions_of_consistent {} _ hm extra
      rw [ReportReader.skipped, List.nil_append, ← List.append_assoc] at htold
      rw [own, hbody]
      exact htold
  · -- Otherwise a status would be missing.
    have hless := Message.length_receptions_of_breaks _ extra hbreaks hfits
    rw [← hbody] at hless
    exact absurd hlength (Nat.ne_of_lt hless)

/-- What a report says of a feedback. It has an entry for each number of the
    range, with its encoded status, and with the time that its delta leads to if
    it announces one. Whatever it has before these is about other numbers, none of
    which has been received, and takes no delta. -/
def IsToldBy (f : WholeInfo) (report : Report) : Prop :=
  ∃ (m : Message) (extra : List UInt8) (before : List Reception),
    m.Consistent ∧ m.baseSeq = f.base ∧ m.statusCount = f.declared
      ∧ f.info = m.controlInfo ++ extra
      ∧ report.receptions = before
        ++ Reception.assign (m.referenceTime.toNat * referenceUnit) m.statuses m.deltas
      ∧ ∀ r ∈ before, r.status = .notReceived ∧ r.arrival = none ∧ ¬ f.Covers r.seq

theorem isToldBy_of_receptions (f : WholeInfo) (report : Report) (before : List Reception)
    (hreport : report.receptions = before ++ f.own)
    (hbefore : ∀ r ∈ before, r.status = .notReceived ∧ r.arrival = none ∧ ¬ f.Covers r.seq) :
    f.IsToldBy report := by
  rcases f.exists_message with ⟨m, extra, hm, hbase, hdeclared, hinfo, hown⟩
  rw [hown] at hreport
  exact ⟨m, extra, before, hm, hbase, hdeclared, hinfo, hreport, hbefore⟩

end WholeInfo

/-- How many numbers lie between a number and the end of the last range, counted
    from range to range. -/
def extent (e : SeqNum) : List WholeInfo → Nat
  | [] => 0
  | f :: rest => f.reach e + extent f.stop rest

theorem advance_extent (f : WholeInfo) (rest : List WholeInfo) :
    f.stop.advance (extent f.stop rest)
      = ((f :: rest).getLast (List.cons_ne_nil f rest)).stop := by
  induction rest generalizing f with
  | nil => exact f.stop.advance_zero
  | cons g rest ih =>
      rw [extent, ← SeqNum.advance_advance, ← g.stop_eq, ih, List.getLast_cons_cons]

namespace ReportReader

-- The numbers that are passed over lie between the cursor and the range.
theorem map_seq_passed_of_reach (e : SeqNum) (f : WholeInfo) (hnear : f.reach e ≤ 32767) :
    (passed ⟨some e⟩ f.base).map (·.seq) = (List.range (e.stepsTo f.base)).map e.advance := by
  have hskipped := skipped_reach e 0 f (by decide) (Nat.lt_succ_of_le hnear)
  rw [SeqNum.advance_zero, Nat.sub_zero] at hskipped
  rw [map_seq_passed, hskipped, Message.map_fst_number, List.length_replicate]

theorem not_covers_of_mem_passed (e : SeqNum) (f : WholeInfo) (hnear : f.reach e ≤ 32767)
    (r : Reception) (hr : r ∈ passed ⟨some e⟩ f.base) : ¬ f.Covers r.seq := by
  have hseq := List.mem_map_of_mem (f := (·.seq)) hr
  have hbase : e.stepsTo f.base ≤ f.reach e := Nat.le_add_right _ _
  rw [map_seq_passed_of_reach e f hnear, SeqNum.mem_map_advance_range _ _ _ (by omega)] at hseq
  rw [f.covers_iff e r.seq (by omega)]
  omega

/-- One report, behind a range that ends where the cursor is. It is about all
    numbers from there to the end of its own range, and leaves the cursor there. -/
theorem exists_report (e : SeqNum) (h : SendHistory) (f : WholeInfo)
    (hnear : f.reach e ≤ 32767) :
    ∃ report h', read ⟨some e⟩ h f.info = .ok (report, ⟨some f.stop⟩, h')
      ∧ report.receptions.map (·.seq) = (List.range (f.reach e)).map e.advance
      ∧ f.IsToldBy report := by
  rcases read_info ⟨some e⟩ h f with ⟨report, hread, hreceptions⟩
  have hmove := moveTo_reach e 0 f (by decide) (Nat.lt_succ_of_le hnear)
  rw [SeqNum.advance_zero, Nat.zero_max, ← f.stop_eq] at hmove
  rw [hmove] at hread
  refine ⟨report, _, hread, ?_, f.isToldBy_of_receptions report _ hreceptions fun r hr => ?_⟩
  · rw [hreceptions, List.map_append, map_seq_passed_of_reach e f hnear, f.map_seq_own,
      WholeInfo.reach, SeqNum.map_advance_range_add, SeqNum.advance_stepsTo]
  · have heq := eq_of_mem_passed _ _ r hr
    exact ⟨congrArg (·.status) heq, congrArg (·.arrival) heq,
      not_covers_of_mem_passed e f hnear r hr⟩

/-- A list of reports, the first of them behind a range that ends where the cursor
    is. All are read, and together they are about all numbers from there on. -/
theorem readAll_behind (h : SendHistory) (f : WholeInfo) (rest : List WholeInfo)
    (hnear : (f :: rest).IsChain fun f g => g.reach f.stop ≤ 32767) :
    ∃ reports, (readAll ⟨some f.stop⟩ h (rest.map WholeInfo.info)).1 = reports.map .ok
      ∧ (reports.flatMap Report.receptions).map (·.seq)
        = (List.range (extent f.stop rest)).map f.stop.advance
      ∧ List.Forall₂ WholeInfo.IsToldBy rest reports := by
  induction rest generalizing h f with
  | nil => exact ⟨[], rfl, rfl, .nil⟩
  | cons g rest ih =>
      rw [List.isChain_cons_cons] at hnear
      rcases exists_report f.stop h g hnear.1 with ⟨report, h', hread, hseqs, htold⟩
      rcases ih h' g hnear.2 with ⟨reports, hreports, hmore, hall⟩
      refine ⟨report :: reports, ?_, ?_, .cons htold hall⟩
      · rw [List.map_cons, readAll, hread]
        simp only
        rw [hreports, List.map_cons]
      · rw [List.flatMap_cons, List.map_append, hseqs, hmore, extent, SeqNum.map_advance_range_add,
          ← g.stop_eq]

/-- The reports on feedback that comes in order have no holes and no repeats.

    A reader that has read nothing else reads one feedback after the other. Each of
    them has all that it declares, and begins at or behind the end of the range
    before it, from where it is no more than 32767 numbers to its own end. In
    between, others may have been lost. None is refused. The entries of all reports
    are about the numbers from the first base to the last end, in order, and each
    report says of the range of its feedback what that feedback says. -/
theorem readAll_without_gaps (h : SendHistory) (first : WholeInfo) (rest : List WholeInfo)
    (hnear : (first :: rest).IsChain fun f g =>
      f.stop.stepsTo g.base + g.declared.toNat ≤ 32767) :
    ∃ reports, (readAll {} h ((first :: rest).map WholeInfo.info)).1 = reports.map .ok
      ∧ (reports.flatMap Report.receptions).map (·.seq)
        = (List.range (extent first.base (first :: rest))).map first.base.advance
      ∧ first.base.advance (extent first.base (first :: rest))
        = ((first :: rest).getLast (List.cons_ne_nil first rest)).stop
      ∧ List.Forall₂ WholeInfo.IsToldBy (first :: rest) reports := by
  have hreach : first.reach first.base = first.declared.toNat := by
    rw [WholeInfo.reach, SeqNum.stepsTo, UInt16.sub_self]
    exact Nat.zero_add _
  rcases read_info {} h first with ⟨report, hread, hreceptions⟩
  rcases readAll_behind (h.applyAll (passed {} first.base ++ first.own)) first rest hnear with
    ⟨reports, hreports, hmore, hall⟩
  have htold := first.isToldBy_of_receptions report [] hreceptions
    fun r hr => absurd hr List.not_mem_nil
  refine ⟨report :: reports, ?_, ?_, ?_, .cons htold hall⟩
  · rw [List.map_cons, readAll, hread]
    simp only [List.map_cons, List.cons.injEq, true_and]
    exact hreports
  · rw [List.flatMap_cons, List.map_append, hreceptions, hmore, extent,
      SeqNum.map_advance_range_add, ← first.stop_eq, hreach, ← first.map_seq_own]
    rfl
  · rw [extent, ← SeqNum.advance_advance, ← first.stop_eq, advance_extent]

-- Three ranges around the end of the circle, with the number 1 between the first
-- two. The second report begins with it, and takes both of its deltas for 2 and 3.
theorem readAll_without_gaps_wrapped :
    ∃ f g k : WholeInfo, f.info = [255, 254, 0, 3, 0, 0, 1, 0, 168, 0, 4, 8]
      ∧ g.info = [0, 2, 0, 2, 0, 0, 1, 2, 176, 0, 1, 1]
      ∧ k.info = [0, 4, 0, 1, 0, 0, 1, 3, 0, 1]
      ∧ [f, g, k].IsChain (fun f g => f.stop.stepsTo g.base + g.declared.toNat ≤ 32767)
      ∧ ∃ reports, (readAll {} (.start 8) ([f, g, k].map WholeInfo.info)).1 = reports.map .ok
        ∧ (reports.flatMap Report.receptions).map (·.seq) = [65534, 65535, 0, 1, 2, 3, 4]
        ∧ List.Forall₂ WholeInfo.IsToldBy [f, g, k] reports := by
  let f : WholeInfo := ⟨65534, 3, 1, 0, [168, 0, 4, 8], by decide, by decide, by decide, by decide⟩
  let g : WholeInfo := ⟨2, 2, 1, 2, [176, 0, 1, 1], by decide, by decide, by decide, by decide⟩
  let k : WholeInfo := ⟨4, 1, 1, 3, [0, 1], by decide, by decide, by decide, by decide⟩
  have hnear : [f, g, k].IsChain
      fun f g => f.stop.stepsTo g.base + g.declared.toNat ≤ 32767 := by decide
  rcases readAll_without_gaps (.start 8) f [g, k] hnear with ⟨reports, hall, hseqs, _, htold⟩
  have hnumbers : (List.range (extent f.base [f, g, k])).map f.base.advance
      = [65534, 65535, 0, 1, 2, 3, 4] := by decide
  rw [hnumbers] at hseqs
  exact ⟨f, g, k, by decide, by decide, by decide, hnear, reports, hall, hseqs, htold⟩

end ReportReader

end Feedback

end VideoTransport

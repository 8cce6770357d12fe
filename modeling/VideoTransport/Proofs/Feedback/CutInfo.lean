import VideoTransport.Proofs.Feedback.ChunkStream
import VideoTransport.Proofs.Feedback.WholeInfo

/-!
# Control Information Cut Short

What a reader makes of the beginning of a feedback.

Statuses are described first and joined with deltas after that, and each of the
two stops where the bytes run out. So what is said about the numbers that are
left should be what the whole feedback says about them.

There is one exception. If chunks are missing, deltas are looked for where the
last of them ended. Nothing is there if the cut is between two chunks. If it is
inside of one, half a chunk is there, which is as long as a small delta and is
taken for one if the first packet received has a small delta. Then a time of
arrival is told that the whole feedback does not contain.

## Main definitions

* `Reception.TakesHalfChunk`: Half a chunk is taken for a delta.

## Theorems

* `Reception.isPrefix_ofStatuses`: More statuses and more bytes only add entries.
* `Reception.describedStatuses_take`: What is described where bytes are cut off.
* `Reception.filter_ofStatuses_half`: What half a chunk tells.
* `ReportReader.receptions_take`: What is said where bytes are cut off.
* `ReportReader.read_take`: The beginning of a feedback gives the beginning of its report.
-/

namespace VideoTransport

namespace Feedback

namespace Reception

/-- Chunks are missing at the end of some bytes, half a chunk is there, and it is
    taken for a delta. -/
def TakesHalfChunk (count : Nat) (bytes : List UInt8) : Prop :=
  (describedStatuses count #[] bytes).1.length < count
    ∧ (describedStatuses count #[] bytes).2.length = 1
    ∧ (describedStatuses count #[] bytes).1.find? Status.isReceived = some .smallDelta

instance (count : Nat) (bytes : List UInt8) : Decidable (TakesHalfChunk count bytes) :=
  inferInstanceAs (Decidable (_ ∧ _ ∧ _))

-- Where units are read, more bytes do not change them.
theorem readUnits_append (status : Status) (bytes left extra : List UInt8) (units : Option Int)
    (h : readUnits status bytes = some (units, left)) :
    readUnits status (bytes ++ extra) = some (units, left ++ extra) := by
  by_cases hreceived : status.isReceived = true
  · rcases status.eq_of_isReceived hreceived with rfl | rfl
    · cases bytes with
      | nil => cases h
      | cons b left =>
          cases h
          rfl
    · rcases bytes with _ | ⟨high, _ | ⟨low, left⟩⟩
      · cases h
      · cases h
      · cases h
        rfl
  · rw [readUnits_skip _ _ hreceived] at h ⊢
    cases h
    rfl

/-- More statuses and more bytes only add entries. -/
theorem isPrefix_ofStatuses (clock : Int) (numbered more : List (SeqNum × Status))
    (bytes extra : List UInt8) :
    ofStatuses #[] clock numbered bytes
      <+: ofStatuses #[] clock (numbered ++ more) (bytes ++ extra) := by
  induction numbered generalizing clock bytes with
  | nil => exact List.nil_prefix
  | cons entry rest ih =>
      rcases entry with ⟨seq, status⟩
      cases hread : readUnits status bytes with
      | none =>
          rw [ofStatuses_missing _ _ _ _ _ hread]
          exact List.nil_prefix
      | some found =>
          rcases found with ⟨units, left⟩
          rw [List.cons_append, ofStatuses_cons _ _ _ _ _ _ _ hread,
            ofStatuses_cons _ _ _ _ _ _ _ (readUnits_append _ _ _ extra _ hread)]
          exact (List.prefix_cons_inj _).2 (ih _ left)

-- One byte is nothing to go on with, unless a small delta is looked for first.
theorem ofStatuses_singleton (clock : Int) (numbered : List (SeqNum × Status)) (b : UInt8)
    (h : (numbered.map Prod.snd).find? Status.isReceived ≠ some .smallDelta) :
    ofStatuses #[] clock numbered [b] = ofStatuses #[] clock numbered [] := by
  induction numbered generalizing clock with
  | nil => rfl
  | cons entry rest ih =>
      rcases entry with ⟨seq, status⟩
      by_cases hreceived : status.isReceived = true
      · rw [List.map_cons, List.find?_cons_of_pos hreceived] at h
        rcases status.eq_of_isReceived hreceived with rfl | rfl
        · exact absurd rfl h
        · rfl
      · rw [List.map_cons, List.find?_cons_of_neg hreceived] at h
        rw [ofStatuses_cons _ _ _ _ _ _ _ (readUnits_skip _ _ hreceived),
          ofStatuses_cons _ _ _ _ _ _ _ (readUnits_skip _ _ hreceived), ih _ h]

-- Without bytes nothing is said about a packet received.
theorem filter_ofStatuses_nil (clock : Int) (numbered : List (SeqNum × Status)) :
    (ofStatuses #[] clock numbered []).filter (·.status.isReceived) = [] := by
  induction numbered generalizing clock with
  | nil => rfl
  | cons entry rest ih =>
      rcases entry with ⟨seq, status⟩
      by_cases hreceived : status.isReceived = true
      · rcases status.eq_of_isReceived hreceived with rfl | rfl
        · rfl
        · rfl
      · rw [ofStatuses_cons _ _ _ _ _ _ _ (readUnits_skip _ _ hreceived), List.filter_cons,
          if_neg hreceived, ih]

/-- If a small delta is looked for first, one byte tells one time of arrival. -/
theorem filter_ofStatuses_half (clock : Int) (numbered : List (SeqNum × Status)) (b : UInt8)
    (h : (numbered.map Prod.snd).find? Status.isReceived = some .smallDelta) :
    ∃ seq, (ofStatuses #[] clock numbered [b]).filter (·.status.isReceived)
      = [⟨seq, .smallDelta, timeOf (clock + b.toNat * deltaUnit)⟩] := by
  induction numbered with
  | nil => cases h
  | cons entry rest ih =>
      rcases entry with ⟨seq, status⟩
      by_cases hreceived : status.isReceived = true
      · rw [List.map_cons, List.find?_cons_of_pos hreceived, Option.some.injEq] at h
        have hread : readUnits status [b] = some (some (Delta.small b).units, []) := by
          rw [h]
          rfl
        refine ⟨seq, ?_⟩
        rw [ofStatuses_cons _ _ _ _ _ _ _ hread, List.filter_cons, if_pos hreceived,
          filter_ofStatuses_nil, h]
        rfl
      · rw [List.map_cons, List.find?_cons_of_neg hreceived] at h
        rcases ih h with ⟨q, hq⟩
        refine ⟨q, ?_⟩
        rw [ofStatuses_cons _ _ _ _ _ _ _ (readUnits_skip _ _ hreceived), List.filter_cons,
          if_neg hreceived, Option.getD_none, Int.zero_mul, Int.add_zero, hq]

-- What was found before is kept.
theorem isPrefix_describedStatuses (count : Nat) (found : Array Status) (bytes : List UInt8) :
    found.toList <+: (describedStatuses count found bytes).1 := by
  induction bytes using List.twoStepInduction generalizing found with
  | nil => exact List.prefix_rfl
  | singleton b => exact List.prefix_rfl
  | cons_cons high low bytes ih _ =>
      rw [describedStatuses]
      by_cases hdone : count ≤ found.size
      · simp only [if_pos hdone, List.prefix_rfl]
      · rw [if_neg hdone]
        refine List.IsPrefix.trans ?_ (ih _)
        rw [Array.toList_appendList]
        exact List.prefix_append _ _

/-- Where bytes are cut off, either all statuses are described and bytes are
    missing behind them, or statuses are missing and there is half a chunk at
    most. -/
theorem describedStatuses_take (count n : Nat) (bytes : List UInt8) :
    ((describedStatuses count #[] (bytes.take n)).1 = (describedStatuses count #[] bytes).1
        ∧ (describedStatuses count #[] (bytes.take n)).2
          <+: (describedStatuses count #[] bytes).2)
      ∨ ((describedStatuses count #[] (bytes.take n)).1 <+: (describedStatuses count #[] bytes).1
        ∧ (describedStatuses count #[] (bytes.take n)).1.length < count
        ∧ (describedStatuses count #[] (bytes.take n)).2.length < 2) := by
  rcases Chunk.exists_chunks count (bytes.take n) with ⟨cs, rest, htake, hfits, hkind⟩
  have hbytes : bytes
      = cs.flatMap (fun c => BigEndian.bytes16 c.wire) ++ (rest ++ bytes.drop n) := by
    rw [← List.append_assoc, ← htake, List.take_append_drop]
  rcases hkind with hcovers | ⟨hsum, hrest⟩
  · have hcut := describedStatuses_wire cs count #[] rest hfits hcovers
    have hwhole := describedStatuses_wire cs count #[] (rest ++ bytes.drop n) hfits hcovers
    rw [← htake] at hcut
    rw [← hbytes] at hwhole
    rw [hcut, hwhole]
    exact Or.inl ⟨rfl, List.prefix_append _ _⟩
  · have hfound : (#[] : Array Status).size + (cs.map Chunk.capacity).sum < count := by
      rw [Array.size_empty, Nat.zero_add]
      exact hsum
    have hcut := describedStatuses_short cs count #[] rest hfits hfound hrest
    have hwhole := describedStatuses_append cs count #[] (rest ++ bytes.drop n) hfits hfound
    have hfront := isPrefix_describedStatuses count
      ((#[] : Array Status) ++ cs.flatMap Chunk.statuses) (rest ++ bytes.drop n)
    rw [← htake] at hcut
    rw [← hwhole, ← hbytes, Array.toList_appendList] at hfront
    rw [hcut]
    refine Or.inr ⟨hfront, ?_, hrest⟩
    simp only [List.nil_append, Chunk.length_flatMap_statuses]
    exact hsum

end Reception

namespace ReportReader

-- Numbers that were passed over do not count where the first packet received is
-- looked for.
theorem find?_skipped_append (r : ReportReader) (base : SeqNum) (ss : List Status) :
    ((r.skipped base ++ Message.number base ss).map Prod.snd).find? Status.isReceived
      = ss.find? Status.isReceived := by
  have hnone : ((r.skipped base).map Prod.snd).find? Status.isReceived = none := by
    rw [List.find?_eq_none]
    exact List.filter_eq_nil_iff.1 (r.filter_skipped base)
  rw [List.map_append, Message.map_snd_number, List.find?_append, hnone, Option.none_or]

/-- Where bytes are cut off, entries are missing at the end, unless half a chunk
    is taken for a delta. -/
theorem receptions_take (r : ReportReader) (base : SeqNum) (count : UInt16) (reference : UInt32)
    (bytes : List UInt8) (n : Nat)
    (h : ¬ Reception.TakesHalfChunk count.toNat (bytes.take n)) :
    r.receptions base count reference (bytes.take n)
      <+: r.receptions base count reference bytes := by
  have hcases := Reception.describedStatuses_take count.toNat n bytes
  rw [Reception.TakesHalfChunk] at h
  rw [receptions, receptions]
  generalize Reception.describedStatuses count.toNat #[] (bytes.take n) = cut at h hcases ⊢
  generalize Reception.describedStatuses count.toNat #[] bytes = whole at hcases ⊢
  rcases cut with ⟨cut, rest⟩
  rcases whole with ⟨whole, wholeRest⟩
  simp only at hcases h ⊢
  rcases hcases with ⟨rfl, extra, rfl⟩ | ⟨⟨more, rfl⟩, hlength, hrest⟩
  · have hfront := Reception.isPrefix_ofStatuses (reference.toNat * referenceUnit)
      (r.skipped base ++ Message.number base cut) [] rest extra
    rw [List.append_nil] at hfront
    exact hfront
  · -- What is left is nothing, or it is not looked at.
    have hnothing : Reception.ofStatuses #[] (reference.toNat * referenceUnit)
          (r.skipped base ++ Message.number base cut) rest
        = Reception.ofStatuses #[] (reference.toNat * referenceUnit)
          (r.skipped base ++ Message.number base cut) [] := by
      rcases rest with _ | ⟨b, _ | ⟨c, rest⟩⟩
      · rfl
      · refine Reception.ofStatuses_singleton _ _ b ?_
        rw [find?_skipped_append]
        intro hfirst
        exact h ⟨hlength, rfl, hfirst⟩
      · simp only [List.length_cons] at hrest
        omega
    rw [hnothing, Message.number_append, ← List.append_assoc]
    exact Reception.isPrefix_ofStatuses _ _ _ [] wholeRest

/-- If half a chunk is taken for a delta, a single time of arrival is told. It
    counts the half chunk from the reference time. -/
theorem filter_receptions_half (r : ReportReader) (base : SeqNum) (count : UInt16)
    (reference : UInt32) (bytes : List UInt8) (h : Reception.TakesHalfChunk count.toNat bytes) :
    ∃ seq b, (Reception.describedStatuses count.toNat #[] bytes).2 = [b]
      ∧ (r.receptions base count reference bytes).filter (·.status.isReceived)
        = [⟨seq, .smallDelta,
            Reception.timeOf (reference.toNat * referenceUnit + b.toNat * deltaUnit)⟩] := by
  rw [Reception.TakesHalfChunk] at h
  rw [receptions]
  generalize Reception.describedStatuses count.toNat #[] bytes = found at h ⊢
  rcases found with ⟨ss, rest⟩
  rcases h with ⟨_, hhalf, hfirst⟩
  rcases List.length_eq_one_iff.1 hhalf with ⟨b, rfl⟩
  rw [← r.find?_skipped_append base] at hfirst
  rcases Reception.filter_ofStatuses_half _ _ b hfirst with ⟨seq, hseq⟩
  exact ⟨seq, b, rfl, hseq⟩

/-- A reader says something about all numbers of whole control information. -/
theorem map_receptions (r : ReportReader) (f : WholeInfo) :
    (r.receptions f.base f.declared f.reference f.body).map (fun e => (e.seq, e.status))
      = r.skipped f.base ++ Message.number f.base
        (Reception.describedStatuses f.declared.toNat #[] f.body).1 := by
  rw [receptions_eq, List.map_append, f.map_own, passed, Reception.missed, List.map_map]
  congr 1
  exact List.map_id' _

/-- Where bytes are cut off, numbers are missing at the end, and the others keep
    their statuses. -/
theorem map_receptions_take (r : ReportReader) (f : WholeInfo) (n : Nat) :
    (r.receptions f.base f.declared f.reference (f.body.take n)).map (fun e => (e.seq, e.status))
      <+: (r.receptions f.base f.declared f.reference f.body).map (fun e => (e.seq, e.status)) := by
  have hdescribed : (Reception.describedStatuses f.declared.toNat #[] (f.body.take n)).1
      <+: (Reception.describedStatuses f.declared.toNat #[] f.body).1 := by
    rcases Reception.describedStatuses_take f.declared.toNat n f.body with ⟨hsame, _⟩ | ⟨hcut, _⟩
    · simp only [hsame, List.prefix_rfl]
    · exact hcut
  rcases hdescribed with ⟨more, hmore⟩
  rw [map_receptions, ← hmore, Message.number_append, ← List.append_assoc, receptions]
  exact (Reception.isPrefix_map_ofStatuses _ _ _).trans (List.prefix_append _ _)

/-- The beginning of a feedback gives the beginning of its report.

    The feedback has all that it declares, and it is cut anywhere behind the
    first two bytes of its body. Both are read by the same reader. Numbers are
    missing at the end, and the others keep their statuses. They keep their times
    of arrival too, unless half a chunk is taken for a delta. Then a single time is
    told, which counts the half chunk from the reference time. -/
theorem read_take (r : ReportReader) (h : SendHistory) (f : WholeInfo) (k : Nat) (hk : 10 ≤ k) :
    ∃ whole wholeAfter cut cutAfter, r.read h f.info = .ok (whole, wholeAfter)
      ∧ r.read h (f.info.take k) = .ok (cut, cutAfter)
      ∧ cut.receptions.map (fun e => (e.seq, e.status))
        <+: whole.receptions.map (fun e => (e.seq, e.status))
      ∧ (¬ Reception.TakesHalfChunk f.declared.toNat (f.body.take (k - 8))
        → cut.receptions <+: whole.receptions)
      ∧ (Reception.TakesHalfChunk f.declared.toNat (f.body.take (k - 8)) →
        ∃ seq b, (Reception.describedStatuses f.declared.toNat #[] (f.body.take (k - 8))).2 = [b]
          ∧ cut.receptions.filter (·.status.isReceived) = [⟨seq, .smallDelta,
            Reception.timeOf (f.reference.toNat * referenceUnit + b.toNat * deltaUnit)⟩]) := by
  have hchunk : 2 ≤ (f.body.take (k - 8)).length := by
    have hbody := f.chunk_fits
    rw [List.length_take]
    omega
  have hfields : (BigEndian.bytes16 f.base ++ BigEndian.bytes16 f.declared
      ++ BigEndian.bytes24 f.reference ++ [f.feedbackCount]).length = 8 := rfl
  have hcut : f.info.take k = BigEndian.bytes16 f.base ++ BigEndian.bytes16 f.declared
      ++ BigEndian.bytes24 f.reference ++ [f.feedbackCount] ++ f.body.take (k - 8) := by
    rw [WholeInfo.info, List.take_append, hfields, List.take_of_length_le (by rw [hfields]; omega)]
  rw [hcut]
  refine ⟨_, _, _, _, r.read_fields h _ _ _ _ f.body f.reference_lt f.chunk_fits,
    r.read_fields h _ _ _ _ _ f.reference_lt hchunk, ?_⟩
  simp only [Report.receptions, SendHistory.map_toReception_join]
  exact ⟨r.map_receptions_take f _, r.receptions_take _ _ _ _ _,
    r.filter_receptions_half _ _ _ _⟩

-- The cut is inside of a delta of two bytes. The number before the range, which
-- was passed over, is reported with the beginning of the range.
theorem read_take_inside_delta :
    ∃ (f : WholeInfo) (whole : Report) (wholeAfter : ReportReader × SendHistory)
      (cut : Report) (cutAfter : ReportReader × SendHistory), 10 ≤ 12
      ∧ f.info = [255, 254, 0, 3, 0, 0, 1, 0, 210, 0, 4, 255, 219]
      ∧ read ⟨some 65533⟩ (.start 16) f.info = .ok (whole, wholeAfter)
      ∧ read ⟨some 65533⟩ (.start 16) [255, 254, 0, 3, 0, 0, 1, 0, 210, 0, 4, 255]
        = .ok (cut, cutAfter)
      ∧ cut.receptions <+: whole.receptions := by
  let f : WholeInfo := ⟨65534, 3, 1, 0, [210, 0, 4, 255, 219], by decide, by decide, by decide,
    by decide⟩
  rcases read_take ⟨some 65533⟩ (.start 16) f 12 (by decide) with
    ⟨whole, wholeAfter, cut, cutAfter, hwhole, hcut, _, hfront, _⟩
  have htake : f.info.take 12 = [255, 254, 0, 3, 0, 0, 1, 0, 210, 0, 4, 255] := by decide
  rw [htake] at hcut
  exact ⟨f, whole, wholeAfter, cut, cutAfter, by decide, by decide, hwhole, hcut,
    hfront (by decide)⟩

-- The second chunk is cut in two, and its first byte is taken for the delta of
-- the first number: 128 units instead of four, and so an arrival at 96 ms instead
-- of 65 ms.
theorem not_prefix_of_half_chunk :
    ∃ (f : WholeInfo) (whole : Report) (wholeAfter : ReportReader × SendHistory)
      (cut : Report) (cutAfter : ReportReader × SendHistory),
      f.info = [0, 0, 0, 28, 0, 0, 1, 0, 160, 0, 128, 0, 4]
      ∧ read {} (.start 4) f.info = .ok (whole, wholeAfter)
      ∧ read {} (.start 4) [0, 0, 0, 28, 0, 0, 1, 0, 160, 0, 128] = .ok (cut, cutAfter)
      ∧ f.info.take 11 = [0, 0, 0, 28, 0, 0, 1, 0, 160, 0, 128]
      ∧ whole.receptions.head? = some ⟨0, .smallDelta, some (.ofMicros 65000)⟩
      ∧ cut.receptions.head? = some ⟨0, .smallDelta, some (.ofMicros 96000)⟩
      ∧ ¬ cut.receptions <+: whole.receptions := by
  let f : WholeInfo := ⟨0, 28, 1, 0, [160, 0, 128, 0, 4], by decide, by decide, by decide,
    by decide⟩
  refine ⟨f, _, _, _, _, by decide,
    read_fields {} _ 0 28 1 0 [160, 0, 128, 0, 4] (by decide) (by decide),
    read_fields {} _ 0 28 1 0 [160, 0, 128] (by decide) (by decide), by decide, ?_⟩
  simp only [Report.receptions, SendHistory.map_toReception_join]
  decide

end ReportReader

end Feedback

end VideoTransport

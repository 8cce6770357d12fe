import VideoTransport.Proofs.Feedback.WrittenReport

/-!
# Whole Control Information

What a reader makes of feedback that has all that it declares.

Such feedback is never refused, whatever has been read before. What it says has
two parts. The first one depends on the reader: numbers between the cursor and
the range are passed over, and so are not received. The second one is the same
for all readers, and has one entry for each number of the range.

The deltas are counted in bytes, since a reader stops where they run out. That
is the one way in which a status could be lost.

## Main definitions

* `WholeInfo`: Control information that has all that it declares.
* `WholeInfo.stop`, `WholeInfo.Covers`: Where its range ends, and what is in it.
* `WholeInfo.own`: What it says about the numbers of its range.
* `ReportReader.passed`: What a reader says about the numbers before the range.

## Theorems

* `Reception.map_ofStatuses`: If no delta is missing, no status is lost.
* `Reception.isPrefix_map_ofStatuses`: If one is, statuses are lost from the end.
* `WholeInfo.exists_filter_own`: It has one entry for each number of its range.
* `ReportReader.read_info`: It is read, whatever has been read before.
-/

namespace VideoTransport

namespace Feedback

/-- The bytes of the delta that a status announces. -/
def Status.deltaSize : Status → Nat
  | .smallDelta => 1
  | .largeDelta => 2
  | .notReceived | .unknown => 0

namespace Reception

-- Among entries with different numbers, one has the number of an entry.
theorem filter_seq_of_mem (rs : List Reception) (hnodup : (rs.map (·.seq)).Nodup) (r : Reception)
    (hr : r ∈ rs) : rs.filter (·.seq = r.seq) = [r] := by
  induction rs with
  | nil => exact absurd hr List.not_mem_nil
  | cons s rest ih =>
      rw [List.map_cons, List.nodup_cons] at hnodup
      rcases List.mem_cons.1 hr with rfl | hr
      · rw [List.filter_cons_of_pos (by simp), List.filter_eq_nil_iff.2]
        intro t ht heq
        exact hnodup.1 (List.mem_map.2 ⟨t, ht, by simpa using heq⟩)
      · have hne : ¬ s.seq = r.seq := by
          intro heq
          exact hnodup.1 (List.mem_map.2 ⟨r, hr, heq.symm⟩)
        rw [List.filter_cons_of_neg (by simpa using hne), ih hnodup.2 hr]

theorem filter_seq_of_notMem (rs : List Reception) (q : SeqNum) (h : q ∉ rs.map (·.seq)) :
    rs.filter (·.seq = q) = [] := by
  rw [List.filter_eq_nil_iff]
  intro r hr heq
  exact h (List.mem_map.2 ⟨r, hr, by simpa using heq⟩)

/-- Entries that say of some numbers that they have not been received. -/
def missed (numbered : List (SeqNum × Status)) : List Reception :=
  numbered.map fun entry => ⟨entry.1, entry.2, none⟩

-- Numbers that have not been received take no bytes.
theorem ofStatuses_missed (clock : Int) (missing numbered : List (SeqNum × Status))
    (bytes : List UInt8) (h : ∀ entry ∈ missing, entry.2 = .notReceived) :
    ofStatuses #[] clock (missing ++ numbered) bytes
      = missed missing ++ ofStatuses #[] clock numbered bytes := by
  induction missing with
  | nil => rfl
  | cons entry rest ih =>
      rcases entry with ⟨seq, status⟩
      have hstatus : status = .notReceived := h _ List.mem_cons_self
      rw [hstatus, List.cons_append,
        ofStatuses_cons _ _ _ _ _ _ _ (readUnits_skip .notReceived bytes (by decide)),
        Option.getD_none, Int.zero_mul, Int.add_zero,
        ih fun entry hentry => h entry (List.mem_cons_of_mem _ hentry)]
      rfl

/-- Units are read if there are as many bytes as they take. -/
theorem exists_readUnits (status : Status) (bytes : List UInt8)
    (h : status.deltaSize ≤ bytes.length) :
    ∃ units left, readUnits status bytes = some (units, left)
      ∧ status.deltaSize + left.length = bytes.length := by
  cases status with
  | notReceived => exact ⟨none, bytes, rfl, Nat.zero_add _⟩
  | unknown => exact ⟨none, bytes, rfl, Nat.zero_add _⟩
  | smallDelta =>
      rw [Status.deltaSize] at h
      rcases List.exists_cons_of_length_pos h with ⟨b, left, rfl⟩
      exact ⟨_, left, rfl, Nat.add_comm _ _⟩
  | largeDelta =>
      rw [Status.deltaSize] at h
      rcases bytes with _ | ⟨high, _ | ⟨low, left⟩⟩
      · exact absurd h (by decide)
      · exact absurd h (by simp only [List.length_singleton]; decide)
      · exact ⟨_, left, rfl, Nat.add_comm _ _⟩

-- And they are not, if there are fewer.
theorem readUnits_missing (status : Status) (bytes : List UInt8)
    (h : bytes.length < status.deltaSize) : readUnits status bytes = none := by
  cases status with
  | notReceived => exact absurd h (Nat.not_lt_zero _)
  | unknown => exact absurd h (Nat.not_lt_zero _)
  | smallDelta =>
      rw [Status.deltaSize, Nat.lt_one_iff, List.length_eq_zero_iff] at h
      rw [h]
      rfl
  | largeDelta =>
      rw [Status.deltaSize] at h
      rcases bytes with _ | ⟨high, _ | ⟨low, left⟩⟩
      · rfl
      · rfl
      · simp only [List.length_cons] at h
        omega

/-- If no delta is missing, no status is lost. -/
theorem map_ofStatuses (clock : Int) (numbered : List (SeqNum × Status)) (bytes : List UInt8)
    (h : ((numbered.map Prod.snd).map Status.deltaSize).sum ≤ bytes.length) :
    (ofStatuses #[] clock numbered bytes).map (fun r => (r.seq, r.status)) = numbered := by
  induction numbered generalizing clock bytes with
  | nil => rfl
  | cons entry rest ih =>
      rcases entry with ⟨seq, status⟩
      simp only [List.map_cons, List.sum_cons] at h
      rcases exists_readUnits status bytes (by omega) with ⟨units, left, hread, hleft⟩
      rw [ofStatuses_cons _ _ _ _ _ _ _ hread, List.map_cons, ih _ left (by omega)]

/-- Statuses are lost from the end only, whatever deltas there are. -/
theorem isPrefix_map_ofStatuses (clock : Int) (numbered : List (SeqNum × Status))
    (bytes : List UInt8) :
    (ofStatuses #[] clock numbered bytes).map (fun r => (r.seq, r.status)) <+: numbered := by
  induction numbered generalizing clock bytes with
  | nil => exact List.nil_prefix
  | cons entry rest ih =>
      rcases entry with ⟨seq, status⟩
      cases hread : readUnits status bytes with
      | none =>
          rw [ofStatuses_missing _ _ _ _ _ hread]
          exact List.nil_prefix
      | some found =>
          rcases found with ⟨units, left⟩
          rw [ofStatuses_cons _ _ _ _ _ _ _ hread, List.map_cons]
          exact (List.prefix_cons_inj _).2 (ih _ left)

end Reception

/-- Control information that has all that it declares: chunks for the status of
    each number in its range, and behind them the delta of each status that
    announces one. What follows the deltas does not matter. -/
structure WholeInfo where
  /-- The first number of the range. -/
  base : SeqNum
  /-- How many numbers the range has. -/
  declared : UInt16
  /-- The time that the first delta counts from, of which 24 bits are sent. -/
  reference : UInt32
  feedbackCount : UInt8
  /-- Chunks and deltas. -/
  body : List UInt8
  reference_lt : reference.toNat < 16777216
  chunk_fits : 2 ≤ body.length
  described : (Reception.describedStatuses declared.toNat #[] body).1.length = declared.toNat
  deltas_fit : ((Reception.describedStatuses declared.toNat #[] body).1.map Status.deltaSize).sum
    ≤ (Reception.describedStatuses declared.toNat #[] body).2.length

namespace WholeInfo

/-- The bytes of the control information. -/
def info (f : WholeInfo) : List UInt8 :=
  BigEndian.bytes16 f.base ++ BigEndian.bytes16 f.declared ++ BigEndian.bytes24 f.reference
    ++ [f.feedbackCount] ++ f.body

/-- The number behind the range. -/
def stop (f : WholeInfo) : SeqNum :=
  f.base + f.declared

/-- The number is in the range of the feedback. -/
def Covers (f : WholeInfo) (q : SeqNum) : Prop :=
  f.base.stepsTo q < f.declared.toNat

/-- No number is in both ranges. -/
def Disjoint (f g : WholeInfo) : Prop :=
  ∀ q, ¬ (f.Covers q ∧ g.Covers q)

/-- What the feedback says to a reader that has read no other. -/
def own (f : WholeInfo) : List Reception :=
  ReportReader.receptions {} f.base f.declared f.reference f.body

theorem map_own (f : WholeInfo) :
    f.own.map (fun r => (r.seq, r.status))
      = Message.number f.base (Reception.describedStatuses f.declared.toNat #[] f.body).1 := by
  rw [own, ReportReader.receptions]
  refine Reception.map_ofStatuses _ _ _ ?_
  rw [ReportReader.skipped, List.nil_append, Message.map_snd_number]
  exact f.deltas_fit

theorem map_seq_own (f : WholeInfo) :
    f.own.map (·.seq) = (List.range f.declared.toNat).map f.base.advance := by
  have hmap := congrArg (List.map Prod.fst) f.map_own
  rw [List.map_map, Message.map_fst_number, f.described] at hmap
  exact hmap

theorem nodup_own (f : WholeInfo) : (f.own.map (·.seq)).Nodup := by
  have hdeclared := f.declared.toNat_lt
  have hmap := congrArg (List.map Prod.fst) f.map_own
  rw [List.map_map] at hmap
  have hnodup := Message.nodup_fst_number f.base
    (Reception.describedStatuses f.declared.toNat #[] f.body).1 (by rw [f.described]; omega)
  rw [← hmap] at hnodup
  exact hnodup

theorem mem_own_iff (f : WholeInfo) (q : SeqNum) : q ∈ f.own.map (·.seq) ↔ f.Covers q := by
  have hdeclared := f.declared.toNat_lt
  rw [f.map_seq_own, SeqNum.mem_map_advance_range _ _ _ (by omega), Covers]

/-- A feedback has one entry for each number that it covers. -/
theorem exists_filter_own (f : WholeInfo) (q : SeqNum) (h : f.Covers q) :
    ∃ r ∈ f.own, r.seq = q ∧ f.own.filter (·.seq = q) = [r] := by
  rcases List.mem_map.1 ((f.mem_own_iff q).2 h) with ⟨r, hr, rfl⟩
  exact ⟨r, hr, rfl, Reception.filter_seq_of_mem f.own f.nodup_own r hr⟩

theorem filter_own_of_not_covers (f : WholeInfo) (q : SeqNum) (h : ¬ f.Covers q) :
    f.own.filter (·.seq = q) = [] :=
  Reception.filter_seq_of_notMem f.own q fun hmem => h ((f.mem_own_iff q).1 hmem)

end WholeInfo

namespace ReportReader

/-- What a reader says about the numbers that it passes over. -/
def passed (r : ReportReader) (base : SeqNum) : List Reception :=
  Reception.missed (r.skipped base)

-- None of the numbers that are passed over has been received.
theorem status_of_mem_skipped (r : ReportReader) (base : SeqNum) (entry : SeqNum × Status)
    (hentry : entry ∈ r.skipped base) : entry.2 = .notReceived := by
  rw [skipped] at hentry
  cases hr : r.expected with
  | none =>
      rw [hr] at hentry
      exact absurd hentry List.not_mem_nil
  | some expected =>
      rw [hr] at hentry
      have hstatus := List.mem_map_of_mem (f := Prod.snd) hentry
      rw [Message.map_snd_number] at hstatus
      exact List.eq_of_mem_replicate hstatus

theorem eq_of_mem_passed (r : ReportReader) (base : SeqNum) (entry : Reception)
    (hentry : entry ∈ r.passed base) : entry = ⟨entry.seq, .notReceived, none⟩ := by
  rcases List.mem_map.1 hentry with ⟨⟨seq, status⟩, hskipped, rfl⟩
  rw [Reception.mk.injEq]
  exact ⟨rfl, r.status_of_mem_skipped base _ hskipped, rfl⟩

theorem map_seq_passed (r : ReportReader) (base : SeqNum) :
    (r.passed base).map (·.seq) = (r.skipped base).map Prod.fst := by
  rw [passed, Reception.missed, List.map_map]
  rfl

-- What a reader says is what the feedback itself says, behind the numbers that
-- are passed over.
theorem receptions_eq (r : ReportReader) (f : WholeInfo) :
    r.receptions f.base f.declared f.reference f.body = r.passed f.base ++ f.own := by
  rw [receptions, WholeInfo.own, receptions, passed]
  exact Reception.ofStatuses_missed _ (r.skipped f.base) _ _ (r.status_of_mem_skipped f.base)

/-- Whole control information is read, whatever has been read before. -/
theorem read_info (r : ReportReader) (h : SendHistory) (f : WholeInfo) :
    ∃ report, r.read h f.info
        = .ok (report, r.moveTo f.stop, h.applyAll (r.passed f.base ++ f.own))
      ∧ report.receptions = r.passed f.base ++ f.own := by
  rcases r.exists_read_fields h f.base f.declared f.reference f.feedbackCount f.body
    f.reference_lt f.chunk_fits with ⟨report, hread, _, _, _, _, hreceptions⟩
  rw [r.receptions_eq f] at hreceptions
  rw [hreceptions] at hread
  exact ⟨report, hread, hreceptions⟩

end ReportReader

end Feedback

end VideoTransport

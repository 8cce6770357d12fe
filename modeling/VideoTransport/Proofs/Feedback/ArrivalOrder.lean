import VideoTransport.Proofs.Feedback.BatchReports

/-!
# Order of Arrival

Feedback does not depend on the order in which packets have arrived.

All that is worked out about a batch is worked out as seen from its first arrival:
what it spans, the order that it is put in, and where it begins. The same arrivals
in another order are seen from another one of them. A batch that covers no more than
half of the circle looks the same from each of its arrivals, since moving the anchor
within the batch moves all distances by the same amount.

So its span is no matter of order, and neither is which of two of its numbers is the
newer one. A list of different numbers that goes forward on the circle is determined
by its members, and nothing else of a batch is looked at when it is reported.

An order of arrival is still told apart if a number has arrived twice, since the
first arrival of a number is the one that counts.

## Theorems

* `span_le_of_subset`: Fewer numbers span no more, from whichever of them it is seen.
* `span_eq_of_perm`: The span of a batch is no matter of order.
* `inOrder_eq_of_perm`: The order that a batch is put in is no matter of order.
* `ArrivalLog.report_eq_of_perm`: Neither is what is reported.
-/

namespace VideoTransport

namespace Feedback

/-- Fewer numbers span no more. They may be seen from another one than all of them
    are, but on half of the circle that makes no difference. -/
theorem span_le_of_subset (numbers others : List SeqNum) (hsub : others ⊆ numbers)
    (hspan : span numbers ≤ 32768) : span others ≤ span numbers := by
  cases others with
  | nil => exact Nat.zero_le _
  | cons other rest =>
      cases numbers with
      | nil => exact absurd (hsub List.mem_cons_self) List.not_mem_nil
      | cons anchor more =>
          have hmoved (u : SeqNum) (hu : u ∈ other :: rest) :
              other.distance u = anchor.distance u - anchor.distance other := by
            have hforward := sub_lt_span anchor more other u (hsub List.mem_cons_self) (hsub hu)
            have hbackward := sub_lt_span anchor more u other (hsub hu) (hsub List.mem_cons_self)
            exact SeqNum.distance_eq_sub_of_lt anchor other u (by omega) (by omega)
          rcases exists_span_eq other rest with ⟨s, hs, t, ht, hothers⟩
          have hnumbers := sub_lt_span anchor more s t (hsub hs) (hsub ht)
          rw [hmoved s hs, hmoved t ht] at hothers
          omega

/-- The span of a batch that covers no more than half of the circle does not depend on
    which of its numbers it is seen from. -/
theorem span_eq_of_perm (numbers others : List SeqNum) (h : numbers.Perm others)
    (hspan : span numbers ≤ 32768) : span others = span numbers := by
  have hle := span_le_of_subset numbers others h.symm.subset hspan
  have hge := span_le_of_subset others numbers h.subset (Nat.le_trans hle hspan)
  exact Nat.le_antisymm hle hge

/-- The order that a batch is put in is that on the circle, whatever order it comes in.
    There is only one way for different numbers to go forward. -/
theorem inOrder_eq_of_perm (batch other : List Arrival) (h : batch.Perm other)
    (hdistinct : (batch.map Arrival.seq).Nodup) (hspan : span (batch.map Arrival.seq) ≤ 32768) :
    inOrder other = inOrder batch := by
  have hnumbers := h.map Arrival.seq
  have hspan' : span (other.map Arrival.seq) ≤ 32768 := by
    rw [span_eq_of_perm _ _ hnumbers hspan]
    exact hspan
  have hmembers : (inOrder other).Perm (inOrder batch) :=
    ((inOrder_perm other (hnumbers.nodup_iff.1 hdistinct)).trans h.symm).trans
      (inOrder_perm batch hdistinct).symm
  refine hmembers.eq_of_pairwise ?_ (pairwise_precedes_inOrder other hspan')
    (pairwise_precedes_inOrder batch hspan)
  intro a b _ _ hab hba
  rw [SeqNum.precedes_asymm a.seq b.seq hab] at hba
  exact absurd hba Bool.false_ne_true

namespace ArrivalLog

/-- Two logs that differ in nothing but the order of arrival span as many numbers, queue
    the same messages when they report, and are the same after that. -/
theorem report_eq_of_perm (mtu : Nat) (hmtu : mtu ≤ 65535) (log log' : ArrivalLog)
    (hlimit : statusLimit mtu = .ok log.limit) (hsame : log' = { log with batch := log'.batch })
    (hperm : log.batch.Perm log'.batch) (hdistinct : log.pending.Nodup)
    (hspan : span log.pending ≤ log.limit) :
    span log'.pending = span log.pending ∧ log'.queuedIn [.report] = log.queuedIn [.report]
      ∧ log'.report = log.report := by
  have hhalf : span log.pending ≤ 32768 := by
    rcases statusLimit_eq mtu log.limit hlimit with ⟨heq, _⟩
    omega
  have horder := inOrder_eq_of_perm log.batch log'.batch hperm hdistinct hhalf
  have hreport : log'.report = log.report := by
    rw [report, report, horder, hsame]
  have hready : log'.ready = log.ready := by
    rw [hsame]
  refine ⟨span_eq_of_perm _ _ (hperm.map Arrival.seq) hhalf, ?_, hreport⟩
  simp only [queuedIn, step]
  rw [hreport, hready]

-- Arrivals round the end of the circle. Zero comes ten seconds after the others, too
-- far away for a delta, and so the batch takes three messages in either order.
theorem report_eq_of_perm_wrapped :
    ∃ log log' : ArrivalLog, statusLimit 41 = .ok log.limit
      ∧ log' = { log with batch := log'.batch } ∧ log.batch.Perm log'.batch
      ∧ log.pending = [1, 65535, 0] ∧ log'.pending = [0, 1, 65535]
      ∧ log.pending.Nodup ∧ span log.pending ≤ log.limit
      ∧ span log'.pending = 3 ∧ (log.queuedIn [.report]).length = 3
      ∧ log'.queuedIn [.report] = log.queuedIn [.report] ∧ log'.report = log.report := by
  let r : Arrival := ⟨65535, .ofMicros 10000⟩
  let s : Arrival := ⟨0, .ofMicros 10000000⟩
  let t : Arrival := ⟨1, .ofMicros 12000⟩
  let log : ArrivalLog := { limit := 7, sender := ⟨1⟩, batch := [t, r, s] }
  let log' : ArrivalLog := { limit := 7, sender := ⟨1⟩, batch := [s, t, r] }
  have hmoved : ([t] ++ [r, s]).Perm ([r, s] ++ [t]) := List.perm_append_comm
  have hsorted : inOrder log.batch = [r, s, t] := inOrder_of_perm _ _ _ hmoved (by decide)
  have hmessages : (log.queuedIn [.report]).length = 3 := by
    rw [queuedIn, step, report, hsorted]
    decide +kernel
  have hperm : ([t, r] ++ [s]).Perm ([s] ++ [t, r]) := List.perm_append_comm
  have hdistinct : log.pending.Nodup := by decide
  have hthree : span log.pending = 3 := by decide
  have hspan : span log.pending ≤ log.limit := by decide
  rcases report_eq_of_perm 41 (by decide) log log' rfl rfl hperm hdistinct hspan with
    ⟨hsame, hqueued, hreport⟩
  exact ⟨log, log', rfl, rfl, hperm, rfl, rfl, hdistinct, hspan, hsame.trans hthree, hmessages,
    hqueued, hreport⟩

end ArrivalLog

end Feedback

end VideoTransport

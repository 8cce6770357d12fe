import Mathlib.Data.Int.Interval
import Mathlib.Data.List.Dedup
import VideoTransport.Proofs.Feedback.PacketSize
import VideoTransport.Proofs.Feedback.RecordedArrivals

/-!
# Missing Arrivals

How many numbers can be missing from a batch before it is reported.

Between calls no batch is lossy: one that covers 30 numbers or more has as many
arrivals as numbers, or else it would have been reported by the call that made it so.
That says something about losses only because there is no more than one place for each
number. Different numbers in the span of a batch are no more than it spans, so what is
missing and what is there come to the span at most.

An arrival takes a place once more if its number was recorded before, but not just
before. Such a repetition is kept until the batch is put in order, and makes up for a
missing number when arrivals are counted. So a batch hides at most as many losses as it
holds repetitions. Without these nothing is missing, and the batch has no more arrivals than
fit in a feedback.

## Main definitions

* `Spanned`: A number lies in the span of some numbers.
* `Missing`: Different numbers in the span that are not there.
* `ArrivalLog.Prompt`: A batch hides no more losses than it holds repetitions.

## Theorems

* `length_le_span`: Different numbers in a span are no more than it covers.
* `Missing.length_add_le`: What is missing and what is there come to the span at most.
* `ArrivalLog.isLossy_step`, `ArrivalLog.isLossy_run`: No call leaves a lossy batch behind.
* `ArrivalLog.prompt_of_not_lossy`: A batch that is not lossy hides no more than that.
* `ArrivalLog.prompt_run`: So it is for each batch between calls.
-/

namespace VideoTransport

namespace Feedback

/-- A number lies between two of some numbers, as seen from the first one of them. -/
def Spanned : List SeqNum → SeqNum → Prop
  | [], _ => False
  | anchor :: rest, q => ∃ s ∈ anchor :: rest, ∃ t ∈ anchor :: rest,
    anchor.distance s ≤ anchor.distance q ∧ anchor.distance q ≤ anchor.distance t

/-- Different numbers in the span of some numbers that are not among these. -/
structure Missing (numbers missing : List SeqNum) : Prop where
  nodup : missing.Nodup
  spanned : ∀ q ∈ missing, Spanned numbers q
  absent : ∀ q ∈ missing, q ∉ numbers

theorem spanned_of_mem (numbers : List SeqNum) (q : SeqNum) (h : q ∈ numbers) :
    Spanned numbers q := by
  cases numbers with
  | nil => exact absurd h List.not_mem_nil
  | cons anchor rest => exact ⟨q, h, q, h, Int.le_refl _, Int.le_refl _⟩

/-- Different numbers in a span are no more than it covers. As seen from the first one,
    they have different distances, and these lie between the least and the greatest. -/
theorem length_le_span (numbers others : List SeqNum) (hdistinct : others.Nodup)
    (h : ∀ q ∈ others, Spanned numbers q) : others.length ≤ span numbers := by
  cases numbers with
  | nil =>
      cases others with
      | nil => exact Nat.zero_le _
      | cons q rest => exact absurd (h q List.mem_cons_self) (by rw [Spanned]; exact not_false)
  | cons anchor rest =>
      rcases exists_span_eq anchor rest with ⟨low, hlow, high, hhigh, heq⟩
      have hoffsets : (others.map anchor.distance).Nodup :=
        hdistinct.map fun a b hab => SeqNum.distance_injective anchor a b hab
      have hsub : (others.map anchor.distance).toFinset
          ⊆ Finset.Icc (anchor.distance low) (anchor.distance high) := by
        intro x hx
        rcases List.mem_map.1 (List.mem_toFinset.1 hx) with ⟨q, hq, rfl⟩
        rcases h q hq with ⟨s, hs, t, ht, hsq, hqt⟩
        have hbelow := sub_lt_span anchor rest s high hs hhigh
        have habove := sub_lt_span anchor rest low t hlow ht
        rw [Finset.mem_Icc]
        omega
      have hcard := Finset.card_le_card hsub
      rw [List.toFinset_card_of_nodup hoffsets, List.length_map, Int.card_Icc] at hcard
      omega

/-- What is missing of some numbers and what is there come to their span at most. -/
theorem Missing.length_add_le {numbers missing : List SeqNum} (h : Missing numbers missing) :
    missing.length + numbers.dedup.length ≤ span numbers := by
  rw [← List.length_append]
  refine length_le_span numbers _ (h.nodup.append (List.nodup_dedup numbers) ?_) fun q hq => ?_
  · intro q hq hthere
    exact h.absent q hq (List.mem_dedup.1 hthere)
  · rcases List.mem_append.1 hq with hq | hq
    · exact h.spanned q hq
    · exact spanned_of_mem numbers q (List.mem_dedup.1 hq)

namespace ArrivalLog

theorem isLossy_of_batch_nil (log : ArrivalLog) (h : log.batch = []) : log.isLossy = false := by
  rw [isLossy, pending, h]
  rfl

theorem isLossy_report (log : ArrivalLog) : log.report.isLossy = false :=
  isLossy_of_batch_nil _ log.batch_report

/-- No call leaves a lossy batch behind. One that an arrival makes lossy is reported. -/
theorem isLossy_step (log : ArrivalLog) (c : Call) (h : log.isLossy = false) :
    (log.step c).isLossy = false := by
  cases c with
  | record r ssrc marker =>
      rw [step, record_eq]
      by_cases hignores : log.ignores r.seq = true
      · rw [if_pos hignores]
        exact h
      · rw [if_neg hignores]
        by_cases hreport : (marker || (log.join r ssrc).isLossy) = true
        · rw [if_pos hreport]
          exact isLossy_report _
        · rw [if_neg hreport]
          rw [Bool.not_eq_true, Bool.or_eq_false_iff] at hreport
          exact hreport.2
  | report => exact log.isLossy_report
  | poll => exact h
  | reset => exact isLossy_of_batch_nil _ rfl

/-- So no run does. -/
theorem isLossy_run (log : ArrivalLog) (calls : List Call) (h : log.isLossy = false) :
    (log.run calls).isLossy = false := by
  induction calls generalizing log with
  | nil => exact h
  | cons c rest ih => exact ih (log.step c) (log.isLossy_step c h)

-- A batch that is not lossy has an arrival for each number, if it covers many.
theorem span_le_of_not_lossy (log : ArrivalLog) (h : log.isLossy = false)
    (hspan : lossySpan ≤ span log.pending) : span log.pending ≤ log.batch.length := by
  rw [isLossy, Bool.and_eq_false_iff] at h
  rcases h with h | h
  · exact absurd hspan (of_decide_eq_false h)
  · exact Nat.le_of_not_lt (of_decide_eq_false h)

/-- A batch hides no more losses than it holds repetitions. Its different numbers are no
    more than it spans. If it spans 30 or more, then those that are missing are no more
    than the arrivals that repeat a number. So if no number was recorded twice, there is
    no arrival more than it spans, and none of 30 numbers or more is missing. -/
structure Prompt (log : ArrivalLog) : Prop where
  distinct_le : log.pending.dedup.length ≤ span log.pending
  missing_le : lossySpan ≤ span log.pending → ∀ missing, Missing log.pending missing →
    missing.length + log.pending.dedup.length ≤ log.batch.length
  length_le : log.pending.Nodup → log.batch.length ≤ span log.pending
  complete : log.pending.Nodup → lossySpan ≤ span log.pending →
    ∀ q, Spanned log.pending q → q ∈ log.pending

/-- A batch that is not lossy hides no more than that. -/
theorem prompt_of_not_lossy (log : ArrivalLog) (h : log.isLossy = false) : log.Prompt := by
  have hlength : log.pending.length = log.batch.length := List.length_map _
  have hnone : Missing log.pending [] :=
    ⟨List.nodup_nil, fun q hq => absurd hq List.not_mem_nil, fun q hq => absurd hq List.not_mem_nil⟩
  have hdistinct := hnone.length_add_le
  rw [List.length_nil, Nat.zero_add] at hdistinct
  have hmissing (hspan : lossySpan ≤ span log.pending) (missing : List SeqNum)
      (hm : Missing log.pending missing) :
      missing.length + log.pending.dedup.length ≤ log.batch.length :=
    hm.length_add_le.trans (log.span_le_of_not_lossy h hspan)
  refine ⟨hdistinct, hmissing, fun hnodup => ?_, fun hnodup hspan q hq => ?_⟩
  · rw [hnodup.dedup, hlength] at hdistinct
    exact hdistinct
  · by_contra habsent
    -- With one number missing there would be one arrival more than there is.
    have hone := hmissing hspan [q] ⟨List.nodup_singleton q,
      fun p hp => by rw [List.mem_singleton.1 hp]; exact hq,
      fun p hp => by rw [List.mem_singleton.1 hp]; exact habsent⟩
    rw [hnodup.dedup, hlength, List.length_singleton] at hone
    omega

/-- Between calls, a batch covers no more numbers than fit in a feedback, and hides no
    more losses than it holds repetitions. -/
theorem prompt_run (mtu : Nat) (sender : Ssrc) (log : ArrivalLog)
    (hstart : start mtu sender = .ok log) (calls : List Call) :
    (∃ limit, statusLimit mtu = .ok limit ∧ span (log.run calls).pending ≤ limit)
      ∧ (log.run calls).Prompt := by
  rcases holds_start (P := fun _ => True) mtu sender log hstart with ⟨limit, hlimit, hholds, _⟩
  have hpos := Nat.one_le_iff_ne_zero.2 (statusLimit_eq mtu limit hlimit).2
  have hrun := log.holds_run calls hholds hpos
  refine ⟨⟨limit, hlimit, hrun.span_le⟩, prompt_of_not_lossy _ (log.isLossy_run calls ?_)⟩
  rw [eq_of_start mtu sender log limit hstart hlimit]
  rfl

-- Across the end of the circle, 28 numbers in a row, two of them once more, and then the
-- one after the next. The number in between is missing.
theorem prompt_run_wrapped :
    ∃ (log : ArrivalLog) (calls : List Call), start 1200 ⟨1⟩ = .ok log
      ∧ calls = (List.range 28 ++ [25, 26, 29]).map
        (fun i => .record ⟨UInt16.ofNat (65520 + i), ⟨1000000⟩⟩ ⟨2⟩ false)
      ∧ lossySpan ≤ span (log.run calls).pending ∧ Missing (log.run calls).pending [12]
      ∧ (log.run calls).batch.length = 31
      ∧ [12].length + (log.run calls).pending.dedup.length ≤ (log.run calls).batch.length := by
  let log : ArrivalLog := { limit := 511, sender := ⟨1⟩ }
  let calls : List Call := (List.range 28 ++ [25, 26, 29]).map
    fun i => .record ⟨UInt16.ofNat (65520 + i), ⟨1000000⟩⟩ ⟨2⟩ false
  have hpending : (log.run calls).pending
      = (List.range 28 ++ [25, 26, 29]).map fun i => UInt16.ofNat (65520 + i) := by
    decide +kernel +revert
  have hspan : lossySpan ≤ span (log.run calls).pending := by
    rw [hpending]
    decide +kernel
  have hmissing : Missing (log.run calls).pending [12] := by
    rw [hpending]
    refine ⟨List.nodup_singleton 12, fun q hq => ?_, fun q hq hthere => ?_⟩
    · rw [List.mem_singleton.1 hq]
      exact ⟨65520, by decide, 13, by decide, by decide, by decide⟩
    · rw [List.mem_singleton.1 hq] at hthere
      rcases List.mem_map.1 hthere with ⟨i, hi, heq⟩
      have hne : ∀ j ∈ List.range 28 ++ [25, 26, 29], (65520 + j) % 65536 ≠ 12 := by decide
      exact hne i hi (congrArg UInt16.toNat heq)
  have hlength : (log.run calls).batch.length = 31 := by
    rw [← List.length_map Arrival.seq]
    exact congrArg List.length hpending
  exact ⟨log, calls, rfl, rfl, hspan, hmissing, hlength,
    (prompt_run 1200 ⟨1⟩ log rfl calls).2.missing_le hspan [12] hmissing⟩

-- Such a batch is not reported, although it has more arrivals than numbers that it spans
-- and not every one of these has arrived.
theorem pending_of_repeated :
    ∃ (log : ArrivalLog) (calls : List Call), start 1200 ⟨1⟩ = .ok log
      ∧ calls = (List.range 28 ++ [25, 26, 29]).map
        (fun i => .record ⟨UInt16.ofNat i, ⟨1000000⟩⟩ ⟨2⟩ false)
      ∧ span (log.run calls).pending = 30 ∧ (log.run calls).batch.length = 31
      ∧ Spanned (log.run calls).pending 28 ∧ 28 ∉ (log.run calls).pending := by
  let log : ArrivalLog := { limit := 511, sender := ⟨1⟩ }
  let calls : List Call := (List.range 28 ++ [25, 26, 29]).map
    fun i => .record ⟨UInt16.ofNat i, ⟨1000000⟩⟩ ⟨2⟩ false
  have hpending : (log.run calls).pending
      = (List.range 28 ++ [25, 26, 29]).map UInt16.ofNat := by
    decide +kernel +revert
  refine ⟨log, calls, rfl, rfl, ?_, ?_, ?_, ?_⟩
  · rw [hpending]
    decide +kernel
  · rw [← List.length_map Arrival.seq]
    exact congrArg List.length hpending
  · rw [hpending]
    exact ⟨0, by decide, 29, by decide, by decide, by decide⟩
  · rw [hpending]
    decide

end ArrivalLog

end Feedback

end VideoTransport

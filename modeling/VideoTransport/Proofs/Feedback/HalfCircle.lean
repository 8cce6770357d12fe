import VideoTransport.Proofs.Feedback.BatchReports

/-!
# Batches and Half of the Circle

How much of the circle of sequence numbers a batch covers, by the size of packets.

Which of two numbers is the newer one is well told only within half of the circle.
All that is done with a batch rests on that: the order that it is put in, the
statuses that are filled in between its numbers, and the count of them, for which
there are 16 bits.

No test is made for it. A batch covers no more numbers than fit in a feedback, which
is a matter of the size of packets alone, and so is half of the circle kept to. In
packets of up to 74936 bytes there is room for 32767 statuses, and then no batch goes
beyond it, whatever arrives and in whatever order. In larger ones there is room for
32774, and two arrivals are enough: two numbers that lie exactly opposite each other
cover 32769. The second one even makes the batch be reported, since it looks like a
heavy loss.

## Main definitions

* `WithinHalf`: Some numbers lie within half of the circle.
* `Reported.GoesForward`: What is told of a batch goes forward on the circle.

## Theorems

* `withinHalf_of_span_le`: The span of a batch tells that it is within half of the circle.
* `Reported.Sound.goesForward`: What is reported within such a limit goes forward.
* `ArrivalLog.exists_reported_of_lossy`: A batch is reported when it becomes lossy.
* `ArrivalLog.exists_reported_pair`: Two arrivals that fit in one feedback share a batch.
* `ArrivalLog.goesForward_iff`: The sizes of packets for which all reports go forward.
-/

namespace VideoTransport

namespace Feedback

/-- The numbers lie within 32768 numbers in a row. -/
def WithinHalf (numbers : List SeqNum) : Prop :=
  ∃ low : SeqNum, ∀ q ∈ numbers, low.stepsTo q < 32768

/-- A batch that spans no more than half of the circle lies within that. The numbers in
    a row begin with the one that is furthest behind. -/
theorem withinHalf_of_span_le (numbers : List SeqNum) (hspan : span numbers ≤ 32768) :
    WithinHalf numbers := by
  cases numbers with
  | nil => exact ⟨0, fun q hq => absurd hq List.not_mem_nil⟩
  | cons anchor rest =>
      rcases exists_span_eq anchor rest with ⟨low, hlow, high, hhigh, heq⟩
      refine ⟨low, fun q hq => ?_⟩
      have habove := sub_lt_span anchor rest q high hq hhigh
      have hbelow := sub_lt_span anchor rest low q hlow hq
      have hsteps := SeqNum.stepsTo_eq_sub anchor low q (by omega)
      omega

-- Opposite numbers are further apart than that, whichever of them comes first.
theorem not_withinHalf_of_opposite (a b : SeqNum) (h : a.distance b = -32768) :
    ¬ WithinHalf [a, b] := by
  rintro ⟨low, hlow⟩
  have ha := hlow a List.mem_cons_self
  have hb := hlow b (List.mem_cons_of_mem a List.mem_cons_self)
  have hstepsA := SeqNum.toInt_stepsTo low a
  have hstepsB := SeqNum.toInt_stepsTo low b
  rw [SeqNum.distance_eq] at h
  split at h <;> omega

/-- What is reported of a batch goes forward on the circle. The batch lies within half
    of it and is put in the order of its numbers. The message declares as many statuses
    as its chunks were made of, and the numbers that it gives as received are in order. -/
structure Reported.GoesForward (t : Reported) : Prop where
  withinHalf : WithinHalf (t.batch.map Arrival.seq)
  sorted : (inOrder t.batch).Pairwise fun a b => a.seq.precedes b.seq = true
  count_le : t.message.statusCount.toNat ≤ 32768
  encodes : ∃ statuses : List Status, statuses.length = t.message.statusCount.toNat
    ∧ t.message.chunks = Chunk.encode .oneBit statuses
  received : t.message.received.Pairwise fun p q => p.precedes q = true

/-- What is reported of a batch goes forward if the limit is no more than half of the
    circle. -/
theorem Reported.Sound.goesForward {P : Arrival → Prop} {limit : Nat} {t : Reported}
    (h : t.Sound P limit) (hlimit : limit ≤ 32768) : t.GoesForward := by
  have hspan := h.span_le.trans hlimit
  have hsorted := pairwise_precedes_inOrder t.batch hspan
  rcases h.window with ⟨w, hw, sender, media, count, hmessage⟩
  have hlen := (Window.length_statuses_le t.batch w hw).trans hspan
  have hcount := w.toNat_statusCount sender media count (by omega)
  rcases Window.tells_of_mem_windows _ w hw with ⟨before, part, after, hsplit, htells⟩
  have hreceived : t.message.received = part.map Arrival.seq := by
    cases hbatch : t.batch with
    | nil =>
        rw [hbatch] at hw
        exact absurd hw List.not_mem_nil
    | cons first rest =>
        rw [hbatch] at hsplit
        rw [hmessage]
        exact Window.received_message first.seq w part htells
          (Window.ahead_of_piece first rest before part after hsplit) (by omega) sender media count
  refine ⟨withinHalf_of_span_le _ hspan, hsorted, ?_, ⟨w.statuses, ?_, ?_⟩, ?_⟩
  · rw [hmessage, hcount]
    exact hlen
  · rw [hmessage, hcount]
  · rw [hmessage, Window.message]
  · rw [hreceived, List.pairwise_map]
    rw [hsplit, List.append_assoc] at hsorted
    exact (List.pairwise_append.1 (List.pairwise_append.1 hsorted).2.1).1

-- With one arrival after the first, the statuses are those two and the gap in between.
theorem Window.length_statuses_of_later (w : Window) (seq : SeqNum) (d : Delta)
    (h : w.later = [(seq, d)]) : w.statuses.length = w.base.stepsTo seq - 1 + 2 := by
  rw [statuses, h, List.reverse_singleton, fillFrom, fillFrom, List.length_cons,
    List.length_append, List.length_replicate, List.length_singleton]

namespace ArrivalLog

theorem span_pair (a b : SeqNum) : span [a, b] = (a.distance b).natAbs + 1 := by
  simp only [span, List.map_cons, List.map_nil, List.foldl_cons, List.foldl_nil]
  omega

/-- An arrival that fits beside the batch and makes it lossy has it reported, together with
    that arrival. -/
theorem exists_reported_of_lossy (log : ArrivalLog) (r : Arrival) (ssrc : Ssrc)
    (hignores : log.ignores r.seq = false) (hfits : span (log.pending ++ [r.seq]) ≤ log.limit)
    (hspan : span (log.pending ++ [r.seq]) < 65536)
    (hlossy : (log.append r ssrc).isLossy = true) :
    ∃ t ∈ log.reportedBy (.record r ssrc false), t.batch = log.batch ++ [r] := by
  have hover : ¬ log.overflows r.seq = true := by
    rw [overflows, decide_eq_false (Nat.not_lt.2 hfits), Bool.and_false]
    exact Bool.false_ne_true
  have hjoin : log.join r ssrc = log.append r ssrc := by
    rw [join, makeRoom, if_neg hover]
  have hpending := log.pending_append r ssrc
  -- The report has a message, since it tells the number of that arrival.
  rcases (log.append r ssrc).receives_of_mem_pending (by rwa [hpending]) r.seq
    (by rw [hpending]; exact List.mem_concat_self) with ⟨m, hm, _⟩
  rcases List.mem_map.1 hm with ⟨t, ht, _⟩
  refine ⟨t, ?_, ?_⟩
  · rw [reportedBy, hignores, if_neg Bool.false_ne_true, hjoin, hlossy, Bool.or_true, if_pos rfl]
    exact List.mem_append_right _ ht
  · rcases List.mem_map.1 ht with ⟨m, _, rfl⟩
    rfl

/-- Two arrivals that fit in one feedback share a batch. If they are far apart, the
    second one makes it be reported, since what lies in between looks lost. -/
theorem exists_reported_pair (limit : Nat) (sender : Ssrc) (r s : Arrival) (ssrc : Ssrc)
    (hfar : lossySpan ≤ span [r.seq, s.seq]) (hfits : span [r.seq, s.seq] ≤ limit) :
    ∃ t ∈ reportedIn { limit, sender } [.record r ssrc false, .record s ssrc false],
      t.batch = [r, s] := by
  have hspan := span_pair r.seq s.seq
  have hlt := r.seq.distance_lt s.seq
  have hle := r.seq.le_distance s.seq
  have hne : r.seq ≠ s.seq := by
    intro heq
    rw [heq, SeqNum.distance_self, Int.natAbs_zero] at hspan
    rw [heq, hspan] at hfar
    exact absurd hfar (by decide)
  -- The first arrival is alone in the batch and waits there.
  let log : ArrivalLog := append { limit, sender } r ssrc
  have hfirst : step { limit, sender } (.record r ssrc false) = log := rfl
  have hignores : log.ignores s.seq = false := by
    have hlate : log.isLate s.seq = false := rfl
    rw [ignores, hlate, Bool.or_false]
    exact beq_eq_false_iff_ne.2 fun heq => hne (Option.some.inj heq)
  have hlossy : (log.append s ssrc).isLossy = true := by
    change (decide (lossySpan ≤ span [r.seq, s.seq]) && decide (2 < span [r.seq, s.seq])) = true
    rw [decide_eq_true hfar, decide_eq_true (Nat.lt_of_lt_of_le (by decide) hfar)]
    rfl
  rcases log.exists_reported_of_lossy s ssrc hignores hfits
    (show span [r.seq, s.seq] < 65536 by omega) hlossy with ⟨t, ht, hbatch⟩
  refine ⟨t, ?_, hbatch⟩
  rw [reportedIn, hfirst, reportedIn]
  exact List.mem_append_right _ (List.mem_append_left _ ht)

/-- All that a log ever reports goes forward on the circle if and only if packets have
    74936 bytes at most. Each message that a run queues is one of its reports. -/
theorem goesForward_iff (mtu : Nat) (sender : Ssrc) (log : ArrivalLog)
    (hstart : start mtu sender = .ok log) :
    (∀ calls, (log.reportedIn calls).map Reported.message = log.queuedIn calls)
      ∧ ((∀ calls, ∀ t ∈ log.reportedIn calls, t.GoesForward) ↔ mtu ≤ 74936) := by
  rcases holds_start (P := fun _ => True) mtu sender log hstart with ⟨limit, hlimit, hholds, _⟩
  rcases statusLimit_eq mtu limit hlimit with ⟨heq, hpos⟩
  refine ⟨log.message_reportedIn, fun hall => ?_, fun hmtu calls t ht => ?_⟩
  · by_contra hmtu
    have hlog := eq_of_start mtu sender log limit hstart hlimit
    have hspan : span [0, 32768] = 32769 := by decide
    rcases exists_reported_pair limit sender ⟨0, ⟨0⟩⟩ ⟨32768, ⟨0⟩⟩ sender (by decide)
      (show span [0, 32768] ≤ limit by omega) with ⟨t, ht, hbatch⟩
    rw [← hlog] at ht
    have hwithin := (hall _ t ht).withinHalf
    rw [hbatch] at hwithin
    exact not_withinHalf_of_opposite 0 32768 (by decide) hwithin
  · have hsound := log.reportedIn_of_holds calls hholds (Nat.one_le_iff_ne_zero.2 hpos)
      (fun c _ => call_records c) t ht
    exact hsound.goesForward (by omega)

-- The largest batch of two in the largest packets, across the end of the circle.
theorem goesForward_iff_largest :
    ∃ log : ArrivalLog, start 74936 ⟨1⟩ = .ok log
      ∧ ∃ t ∈ log.reportedIn [.record ⟨65535, ⟨1000000⟩⟩ ⟨2⟩ false,
        .record ⟨32765, ⟨2000000⟩⟩ ⟨2⟩ false],
        t.batch.map Arrival.seq = [65535, 32765] ∧ span [65535, 32765] = 32767 ∧ t.GoesForward := by
  rcases exists_reported_pair 32767 ⟨1⟩ ⟨65535, ⟨1000000⟩⟩ ⟨32765, ⟨2000000⟩⟩ ⟨2⟩ (by decide)
    (by decide) with ⟨t, ht, hbatch⟩
  refine ⟨_, rfl, t, ht, by rw [hbatch]; rfl, by decide, ?_⟩
  exact (goesForward_iff 74936 ⟨1⟩ _ rfl).2.2 (Nat.le_refl _) _ t ht

-- In packets that are one byte larger, opposite numbers share a batch. Their message
-- counts on from the one that arrived later, more than half of the circle round to the
-- other, which is not newer.
theorem not_goesForward_of_opposite :
    ∃ (log : ArrivalLog) (calls : List Call) (t : Reported), start 74937 ⟨1⟩ = .ok log
      ∧ calls = [.record ⟨0, ⟨1000000⟩⟩ ⟨2⟩ false, .record ⟨32768, ⟨2000000⟩⟩ ⟨2⟩ false]
      ∧ t ∈ log.reportedIn calls ∧ t.batch.map Arrival.seq = [0, 32768]
      ∧ ¬ WithinHalf (t.batch.map Arrival.seq) ∧ t.message ∈ log.queuedIn calls
      ∧ t.message.baseSeq = 32768 ∧ t.message.statusCount = 32769
      ∧ t.message.received = [32768, 0] ∧ SeqNum.precedes 32768 0 = false := by
  rcases exists_reported_pair 32774 ⟨1⟩ ⟨0, ⟨1000000⟩⟩ ⟨32768, ⟨2000000⟩⟩ ⟨2⟩ (by decide)
    (by decide) with ⟨t, ht, hbatch⟩
  have hseqs : t.batch.map Arrival.seq = [0, 32768] := by
    rw [hbatch]
    rfl
  have hqueued : t.message ∈ queuedIn { limit := 32774, sender := ⟨1⟩ }
      [.record ⟨0, ⟨1000000⟩⟩ ⟨2⟩ false, .record ⟨32768, ⟨2000000⟩⟩ ⟨2⟩ false] := by
    rw [← message_reportedIn]
    exact List.mem_map_of_mem ht
  have hsorted : inOrder [⟨0, ⟨1000000⟩⟩, ⟨32768, ⟨2000000⟩⟩]
      = [⟨32768, ⟨2000000⟩⟩, ⟨0, ⟨1000000⟩⟩] :=
    inOrder_of_perm _ _ _ (List.Perm.swap _ _ _) (by decide)
  have hwindows : windows (inOrder [⟨0, ⟨1000000⟩⟩, ⟨32768, ⟨2000000⟩⟩])
      = [⟨32768, 0, .small 8, [(0, .large (-4))], 1000⟩] := by
    rw [hsorted]
    decide +kernel
  have hholds : Holds (fun _ => True) 32774 { limit := 32774, sender := ⟨1⟩ } :=
    holds_of_batch_nil _ rfl rfl
  have hsound := reportedIn_of_holds _ _ hholds (by decide) (fun c _ => call_records c) t ht
  rcases hsound.window with ⟨w, hw, sender, media, count, hmessage⟩
  rcases Window.tells_of_mem_windows _ w hw with ⟨before, part, after, hsplit, htells⟩
  rw [hbatch] at hsplit hw
  rw [hwindows, List.mem_singleton] at hw
  have hlen : w.statuses.length = 32769 := by
    rw [w.length_statuses_of_later 0 (.large (-4)) (by rw [hw]), hw,
      show SeqNum.stepsTo 32768 0 = 32768 by decide]
  have hreceived := Window.received_message 0 w part htells
    (Window.ahead_of_piece ⟨0, ⟨1000000⟩⟩ _ before part after hsplit) (by omega) sender media count
  refine ⟨_, _, t, rfl, rfl, ht, hseqs, ?_, hqueued, ?_, ?_, ?_, by decide⟩
  · rw [hseqs]
    exact not_withinHalf_of_opposite 0 32768 (by decide)
  · rw [hmessage, hw]
    rfl
  · rw [hmessage, Window.message, hlen]
    rfl
  · rw [hmessage, hreceived, ← htells.numbers, hw]
    rfl

end ArrivalLog

end Feedback

end VideoTransport

import Mathlib.Algebra.BigOperators.Group.List.Basic
import Mathlib.Data.List.Chain
import VideoTransport.Proofs.Feedback.PacketSize
import VideoTransport.Proofs.Feedback.RecordedArrivals
import VideoTransport.Proofs.Feedback.WindowPieces

/-!
# Reports on a Batch

What a report makes of a batch: every arrival is told, once, and nothing else is.

A batch is cut into pieces, and each piece has a message of its own. `Message.Reports`
is all that a message says of its piece: the numbers that it gives as received, how
it begins and ends, and the deltas that it counts. It mentions neither windows nor
how they are filled. The messages of a batch in a row then give all its numbers, in
their order on the circle.

Messages have a running number, which goes on by one with each, whatever happens in
between. Even a reset leaves it alone. So the messages that a run queues are numbered
in a row, and that is shown once for a call and then for runs.

## Main definitions

* `Message.received`: The numbers that a message gives as received, in order.
* `Message.Reports`: What a message says of the arrivals it was made of.
* `ArrivalLog.Numbers`: Messages have the running numbers that lead from one log to another.

## Theorems

* `pairwise_precedes_inOrder`: A batch in order goes forward on the circle.
* `Window.reports_message`: The message of a window reports its arrivals.
* `ArrivalLog.exists_pieces`: The messages of a batch report it piece by piece.
* `ArrivalLog.numbers_run`: The messages of a run are numbered in a row.
* `ArrivalLog.report_tells_batch`: A report tells every arrival of the batch.
-/

namespace VideoTransport

namespace Feedback

namespace Message

/-- The numbers that the message gives as received, in order. -/
def received (m : Message) : List SeqNum :=
  (m.statuses.filter fun e => e.2.isReceived).map Prod.fst

/-- The message was made of some arrivals. It gives their numbers as received, and
    others only in between. It has a delta for each of them, of the size that its
    status tells, and the deltas are counted from the first arrival. -/
structure Reports (m : Message) (part : List Arrival) : Prop where
  received_eq : m.received = part.map Arrival.seq
  begins : ∃ s : Status, s.isReceived = true ∧ m.statuses.head? = some (m.baseSeq, s)
  ends : ∃ last, ∃ s : Status, s.isReceived = true ∧ m.statuses.getLast? = some (last, s)
    ∧ m.statusCount = last - m.baseSeq + 1
  deltas_match : m.deltas.map Delta.status = (m.statuses.map Prod.snd).filter Status.isReceived
  referenceTime_eq : ∀ first ∈ part.head?,
    m.referenceTime = UInt32.ofNat (first.time.micros / referenceUnit % 16777216)
  counts : ∀ first ∈ part.head?, Delta.Counts first.origin part m.deltas

theorem getLast?_number (base : SeqNum) (front : List Status) (s : Status) :
    (number base (front ++ [s])).getLast? = some (base.advance front.length, s) := by
  rw [number_append, number_cons]
  exact List.getLast?_concat

end Message

/-- A batch in order goes forward on the circle, if it covers no more than half of
    that. -/
theorem pairwise_precedes_inOrder (batch : List Arrival)
    (hspan : span (batch.map Arrival.seq) ≤ 32768) :
    (inOrder batch).Pairwise fun a b => a.seq.precedes b.seq = true := by
  cases batch with
  | nil => exact List.Pairwise.nil
  | cons first rest =>
      have hseq (a : Arrival) (ha : a ∈ inOrder (first :: rest)) :
          a.seq ∈ first.seq :: rest.map Arrival.seq :=
        List.mem_map_of_mem (f := Arrival.seq) (mem_of_firstOf _ _ _ ((mem_inOrder _ a).1 ha)).1
      refine (pairwise_inOrder first rest).imp_of_mem fun {a b} ha hb hlt => ?_
      have hbound := sub_lt_span first.seq (rest.map Arrival.seq) a.seq b.seq (hseq a ha)
        (hseq b hb)
      rw [List.map_cons] at hspan
      rw [SeqNum.precedes, decide_eq_true_eq,
        SeqNum.distance_eq_sub_of_lt first.seq a.seq b.seq (by omega) (by omega)]
      omega

-- No arrival of a batch is there twice when it is in order.
theorem length_inOrder_le (batch : List Arrival) : (inOrder batch).length ≤ batch.length := by
  have hnodup : (inOrder batch).Nodup := by
    cases batch with
    | nil => exact List.nodup_nil
    | cons first rest =>
        refine (pairwise_inOrder first rest).imp fun {a b} hlt heq => ?_
        rw [heq] at hlt
        exact Int.lt_irrefl _ hlt
  refine (List.subperm_of_subset hnodup fun a ha => ?_).length_le
  exact (mem_of_firstOf _ _ _ ((mem_inOrder batch a).1 ha)).1

namespace Window

-- Behind a status with a delta, statuses are filled up to one that has a delta.
theorem exists_concat_fillFrom (s : Status) (hs : s.isReceived = true) (last : SeqNum)
    (later : List (SeqNum × Delta)) :
    ∃ front t, s :: fillFrom last later = front ++ [t] ∧ t.isReceived = true := by
  induction later generalizing s last with
  | nil => exact ⟨[], s, rfl, hs⟩
  | cons r rest ih =>
      rcases r with ⟨seq, d⟩
      rcases ih d.status d.isReceived_status seq with ⟨front, t, heq, ht⟩
      refine ⟨s :: List.replicate (last.stepsTo seq - 1) .notReceived ++ front, t, ?_, ht⟩
      rw [fillFrom, heq, List.cons_append, List.cons_append, List.append_assoc]

-- The numbers that the message of a window gives as received are those of its arrivals.
theorem received_message (anchor : SeqNum) (w : Window) (part : List Arrival) (h : w.Tells part)
    (hahead : Ahead anchor (part.map Arrival.seq)) (hlen : w.statuses.length < 65536)
    (sender media : Ssrc) (count : UInt8) :
    (w.message sender media count).received = part.map Arrival.seq := by
  rw [Message.received, w.statuses_message sender media count hlen]
  exact received_number anchor w part h hahead

/-- The message of a window reports its arrivals, if its number of statuses can be
    declared. -/
theorem reports_message (anchor : SeqNum) (w : Window) (part : List Arrival) (h : w.Counted part)
    (hahead : Ahead anchor (part.map Arrival.seq)) (hlen : w.statuses.length < 65536)
    (sender media : Ssrc) (count : UInt8) : (w.message sender media count).Reports part := by
  have hstatuses := w.statuses_message sender media count hlen
  rcases exists_concat_fillFrom w.firstDelta.status w.firstDelta.isReceived_status w.base
    w.later.reverse with ⟨front, t, heq, ht⟩
  have hend : w.statuses = front ++ [t] := heq
  refine ⟨received_message anchor w part h.tells hahead hlen sender media count,
    ⟨w.firstDelta.status, w.firstDelta.isReceived_status, ?_⟩,
    ⟨w.base.advance front.length, t, ht, ?_, ?_⟩,
    (w.consistent_message sender media count hlen).deltas_match, fun first hfirst => ?_, h.counts⟩
  · rw [hstatuses, statuses, Message.number_cons]
    rfl
  · rw [hstatuses, hend]
    exact Message.getLast?_number w.base front t
  · have hcount : (w.message sender media count).statusCount = UInt16.ofNat (front.length + 1) := by
      rw [message, hend, List.length_append]
      rfl
    rw [hcount, SeqNum.advance, UInt16.ofNat_add]
    change _ = w.base + UInt16.ofNat front.length - w.base + 1
    rw [UInt16.add_comm w.base, UInt16.add_sub_cancel]
    rfl
  · rw [message, h.reference_eq first hfirst]

end Window

namespace ArrivalLog

/-- A window with its arrivals as a message with them, numbered by its place. -/
def asMessage (log : ArrivalLog) (e : (Window × List Arrival) × Nat) : Message × List Arrival :=
  (e.1.1.message log.sender (log.media.getD ⟨0⟩) (log.feedbackCount + UInt8.ofNat e.2), e.1.2)

theorem map_fst_asMessage (log : ArrivalLog) (pieces : List (Window × List Arrival)) :
    (pieces.zipIdx.map log.asMessage).map Prod.fst = log.messages (pieces.map Prod.fst) := by
  rw [messages, List.zipIdx_map, List.map_map, List.map_map]
  rfl

theorem map_snd_asMessage (log : ArrivalLog) (pieces : List (Window × List Arrival)) :
    (pieces.zipIdx.map log.asMessage).map Prod.snd = pieces.map Prod.snd := by
  conv_rhs => rw [← List.zipIdx_map_fst 0 pieces, List.map_map]
  rw [List.map_map]
  rfl

/-- Two messages in a row: the second one begins with an arrival that the deltas of
    the first one cannot reach. -/
def Parted (a b : Message × List Arrival) : Prop :=
  ∀ next ∈ b.2.head?, Delta.Breaks a.2 a.1.deltas next

-- The number of a message is no matter for where a batch is cut.
theorem isChain_asMessage (log : ArrivalLog) (pieces : List (Window × List Arrival))
    (h : pieces.IsChain Window.Parted) : (pieces.zipIdx.map log.asMessage).IsChain Parted := by
  rw [← List.zipIdx_map_fst 0 pieces, List.isChain_map] at h
  exact (List.isChain_map log.asMessage).2 h

-- Pieces that are not empty are no more than what they are cut from.
theorem length_le_length_flatten {α : Type} (parts : List (List α)) (h : ∀ p ∈ parts, p ≠ []) :
    parts.length ≤ parts.flatten.length := by
  rw [List.length_flatten, ← List.length_map List.length]
  refine List.length_le_sum_of_one_le _ fun n hn => ?_
  rcases List.mem_map.1 hn with ⟨p, hp, rfl⟩
  exact List.length_pos_iff.2 (h p hp)

/-- The messages of a batch report it piece by piece. -/
theorem exists_pieces (log : ArrivalLog) (hspan : span log.pending < 65536)
    (htimes : ∀ r ∈ log.batch, r.time.micros < 2 ^ 63) :
    ∃ pieces : List (Message × List Arrival),
      pieces.map Prod.fst = log.messages (windows (inOrder log.batch))
        ∧ (pieces.map Prod.snd).flatten = inOrder log.batch
        ∧ (∀ p ∈ pieces, p.2 ≠ [] ∧ p.1.Reports p.2) ∧ pieces.IsChain Parted := by
  have hmem (r : Arrival) (hr : r ∈ inOrder log.batch) : r ∈ log.batch :=
    (mem_of_firstOf _ _ _ ((mem_inOrder log.batch r).1 hr)).1
  rcases Window.windows_counted (inOrder log.batch) fun r hr => htimes r (hmem r hr) with
    ⟨pieces, hfst, hsnd, hall, hchain⟩
  refine ⟨pieces.zipIdx.map log.asMessage, ?_, ?_, fun p hp => ?_,
    log.isChain_asMessage pieces hchain⟩
  · rw [map_fst_asMessage, hfst]
  · rw [map_snd_asMessage, hsnd]
  · rcases List.mem_map.1 hp with ⟨e, he, rfl⟩
    have hpiece := List.fst_mem_of_mem_zipIdx he
    have hwindow : e.1.1 ∈ windows (inOrder log.batch) := by
      rw [← hfst]
      exact List.mem_map_of_mem hpiece
    have hlen := Nat.lt_of_le_of_lt (Window.length_statuses_le log.batch e.1.1 hwindow) hspan
    refine ⟨(hall e.1 hpiece).1, ?_⟩
    rcases List.append_of_mem (List.mem_map_of_mem (f := Prod.snd) hpiece) with
      ⟨before, after, hsplit⟩
    rw [hsplit, List.flatten_append, List.flatten_cons, ← List.append_assoc] at hsnd
    cases hbatch : log.batch with
    | nil =>
        rw [hbatch] at hwindow
        exact absurd hwindow List.not_mem_nil
    | cons first rest =>
        rw [hbatch] at hsnd
        exact Window.reports_message first.seq e.1.1 e.1.2 (hall e.1 hpiece).2
          (Window.ahead_of_piece first rest _ _ _ hsnd.symm) hlen _ _ _

/-- The messages have the running numbers that lead from one log to another. -/
structure Numbers (log : ArrivalLog) (ms : List Message) (log' : ArrivalLog) : Prop where
  counts : ms.map Message.feedbackCount
    = (List.range ms.length).map fun i => log.feedbackCount + UInt8.ofNat i
  next_eq : log'.feedbackCount = log.feedbackCount + UInt8.ofNat ms.length

theorem numbers_nil (log log' : ArrivalLog) (h : log'.feedbackCount = log.feedbackCount) :
    log.Numbers [] log' := by
  refine ⟨rfl, ?_⟩
  rw [h]
  exact (UInt8.add_zero _).symm

theorem numbers_append (log mid log' : ArrivalLog) (ms more : List Message)
    (h : log.Numbers ms mid) (hmore : mid.Numbers more log') : log.Numbers (ms ++ more) log' := by
  refine ⟨?_, ?_⟩
  · rw [List.map_append, h.counts, hmore.counts, h.next_eq, List.length_append, List.range_add,
      List.map_append, List.map_map]
    refine congrArg _ (List.map_congr_left fun i _ => ?_)
    rw [Function.comp_apply, UInt8.ofNat_add, UInt8.add_assoc]
  · rw [hmore.next_eq, h.next_eq, List.length_append, UInt8.ofNat_add, UInt8.add_assoc]

theorem numbers_foldl_addWindow (ws : List Window) (log : ArrivalLog) :
    log.Numbers (log.messages ws) (ws.foldl addWindow log) := by
  have hlength : (log.messages ws).length = ws.length := by
    rw [messages, List.length_map, List.length_zipIdx]
  refine ⟨?_, ?_⟩
  · rw [hlength, messages, List.map_map, List.range_eq_range', ← List.zipIdx_map_snd 0 ws,
      List.map_map]
    rfl
  · rw [hlength]
    induction ws generalizing log with
    | nil => exact (UInt8.add_zero _).symm
    | cons w rest ih =>
        have hrest := ih (log.addWindow w) (by rw [messages, List.length_map, List.length_zipIdx])
        rw [List.foldl_cons, hrest, List.length_cons, Nat.add_comm, UInt8.ofNat_add,
          ← UInt8.add_assoc]
        rfl

theorem numbers_report (log : ArrivalLog) :
    log.Numbers (log.pendingReport.map Reported.message) log.report := by
  have hfold := numbers_foldl_addWindow (windows (inOrder log.batch)) { log with batch := [] }
  rw [message_pendingReport]
  exact ⟨hfold.counts, hfold.next_eq⟩

/-- What a call queues is numbered in a row, from where the log is to where it is
    after the call. -/
theorem numbers_step (log : ArrivalLog) (c : Call) :
    log.Numbers ((log.reportedBy c).map Reported.message) (log.step c) := by
  cases c with
  | record r ssrc marker =>
      rw [reportedBy, step, record_eq]
      by_cases hignores : log.ignores r.seq = true
      · rw [if_pos hignores, if_pos hignores]
        exact numbers_nil log log rfl
      · rw [if_neg hignores, if_neg hignores, List.map_append]
        -- An arrival that joins the batch has no number of its own.
        refine numbers_append log (log.join r ssrc) _ _ _ ?_ ?_
        · have hroom : log.Numbers
              ((if log.overflows r.seq then log.pendingReport else []).map Reported.message)
              (log.makeRoom r.seq) := by
            rw [makeRoom]
            by_cases hover : log.overflows r.seq = true
            · rw [if_pos hover, if_pos hover]
              exact log.numbers_report
            · rw [if_neg hover, if_neg hover]
              exact numbers_nil log log rfl
          exact ⟨hroom.counts, hroom.next_eq⟩
        · by_cases hreport : (marker || (log.join r ssrc).isLossy) = true
          · rw [if_pos hreport, if_pos hreport]
            exact (log.join r ssrc).numbers_report
          · rw [if_neg hreport, if_neg hreport]
            exact numbers_nil _ _ rfl
  | report => exact log.numbers_report
  | poll => exact numbers_nil log _ rfl
  | reset => exact numbers_nil log _ rfl

/-- The messages that a run queues are numbered in a row. -/
theorem numbers_run (log : ArrivalLog) (calls : List Call) :
    log.Numbers (log.queuedIn calls) (log.run calls) := by
  induction calls generalizing log with
  | nil => exact numbers_nil log log rfl
  | cons c rest ih =>
      rw [queuedIn, ← message_reportedBy]
      exact numbers_append log (log.step c) _ _ _ (log.numbers_step c) (ih (log.step c))

theorem queuedIn_append (log : ArrivalLog) (calls more : List Call) :
    log.queuedIn (calls ++ more) = log.queuedIn calls ++ (log.run calls).queuedIn more := by
  induction calls generalizing log with
  | nil => rfl
  | cons c rest ih =>
      rw [List.cons_append, queuedIn, queuedIn, ih, List.append_assoc]
      rfl

/-- A report tells every arrival of the batch, once.

    It leaves no arrival behind and adds at least one message to the queue, and no
    more than there are arrivals. The numbers that the messages give as received, one
    message after the other, are those of the batch, each once and in their order on
    the circle. Each message reports a piece of the batch, of which each arrival is
    the first one that was recorded of its number, and a message ends only before an
    arrival that its deltas cannot reach.

    All messages that a run queues have running numbers in a row, from zero and round
    a byte, also across resets. -/
theorem report_tells_batch (mtu : Nat) (hmtu : mtu ≤ 65535) (sender : Ssrc) (log : ArrivalLog)
    (hstart : start mtu sender = .ok log) (calls : List Call) (hbatch : (log.run calls).batch ≠ [])
    (htimes : ∀ r ∈ (log.run calls).batch, r.time.micros < 2 ^ 63) :
    (log.run calls).report.batch = []
      ∧ (∃ pieces : List (Message × List Arrival),
        (log.run calls).report.ready = (log.run calls).ready ++ pieces.map Prod.fst
          ∧ log.queuedIn (calls ++ [.report]) = log.queuedIn calls ++ pieces.map Prod.fst
          ∧ 1 ≤ pieces.length ∧ pieces.length ≤ (log.run calls).batch.length
          ∧ (∀ q, q ∈ (pieces.map Prod.fst).flatMap Message.received
            ↔ q ∈ (log.run calls).batch.map Arrival.seq)
          ∧ ((pieces.map Prod.fst).flatMap Message.received).Pairwise
            (fun s t => s.precedes t = true)
          ∧ (∀ p ∈ pieces, p.1.Reports p.2
            ∧ ∀ r ∈ p.2, firstOf (log.run calls).batch r.seq = some r)
          ∧ pieces.IsChain Parted)
      ∧ ∀ all, (log.queuedIn all).map Message.feedbackCount
        = (List.range (log.queuedIn all).length).map UInt8.ofNat := by
  rcases holds_start mtu sender log hstart with ⟨limit, hlimit, hholds, _⟩
  have hcount : log.feedbackCount = 0 := by
    rw [start, hlimit] at hstart
    cases hstart
    rfl
  rcases statusLimit_eq mtu limit hlimit with ⟨heq, hpos⟩
  have hspan := (log.holds_run calls hholds (Nat.one_le_iff_ne_zero.2 hpos)).span_le
  refine ⟨batch_report _, ?_, fun all => ?_⟩
  · rcases (log.run calls).exists_pieces (by omega) htimes with ⟨pieces, hfst, hsnd, hall, hchain⟩
    have hready := (log.run calls).ready_report
    rw [← hfst] at hready
    have hreceived : (pieces.map Prod.fst).flatMap Message.received
        = (inOrder (log.run calls).batch).map Arrival.seq := by
      rw [← hsnd, List.map_flatten, List.map_map, List.flatMap_def, List.map_map]
      exact congrArg _ (List.map_congr_left fun p hp => (hall p hp).2.received_eq)
    have hnonempty : pieces ≠ [] := by
      rintro rfl
      rcases List.exists_mem_of_ne_nil _ hbatch with ⟨r, hr⟩
      have hseq := seq_mem_inOrder _ r.seq (List.mem_map_of_mem hr)
      rw [← hsnd] at hseq
      exact absurd hseq List.not_mem_nil
    refine ⟨pieces, hready, ?_, List.length_pos_iff.2 hnonempty, ?_, fun q => ?_, ?_,
      fun p hp => ⟨(hall p hp).2, fun r hr => ?_⟩, hchain⟩
    · rw [queuedIn_append]
      change _ ++ ((log.run calls).report.ready.drop (log.run calls).ready.length ++ []) = _
      rw [hready, List.append_nil, List.drop_left]
    · have hparts := length_le_length_flatten (pieces.map Prod.snd) fun part hpart => by
        rcases List.mem_map.1 hpart with ⟨p, hp, rfl⟩
        exact (hall p hp).1
      rw [hsnd, List.length_map] at hparts
      exact Nat.le_trans hparts (length_inOrder_le _)
    · rw [hreceived]
      refine ⟨fun hq => ?_, seq_mem_inOrder _ q⟩
      rcases List.mem_map.1 hq with ⟨r, hr, rfl⟩
      exact List.mem_map_of_mem (mem_of_firstOf _ _ _ ((mem_inOrder _ r).1 hr)).1
    · rw [hreceived, List.pairwise_map]
      exact pairwise_precedes_inOrder _ (Nat.le_trans hspan (by omega))
    · apply (mem_inOrder _ _).1
      rw [← hsnd]
      exact List.mem_flatten.2 ⟨p.2, List.mem_map_of_mem hp, hr⟩
  · rw [(log.numbers_run all).counts, hcount]
    exact List.map_congr_left fun i _ => UInt8.zero_add _

-- Arrivals round the end of the circle, out of order and with a repetition. Zero comes
-- ten seconds after its neighbours, too far away for a delta from either of them.
theorem report_tells_batch_wrapped :
    ∃ (log : ArrivalLog) (calls : List Call) (r s t again : Arrival),
      start 1200 ⟨1⟩ = .ok log
        ∧ (log.run calls).batch = [r, t, s, again]
        ∧ [r.seq, t.seq, s.seq, again.seq] = [65535, 1, 0, 65535]
        ∧ (log.run calls).report.batch = []
        ∧ ∃ pieces : List (Message × List Arrival),
          (log.run calls).report.ready = (log.run calls).ready ++ pieces.map Prod.fst
            ∧ 1 ≤ pieces.length ∧ pieces.length ≤ 4
            ∧ (∀ p ∈ pieces, p.1.Reports p.2) ∧ pieces.IsChain Parted := by
  let log : ArrivalLog := { limit := 511, sender := ⟨1⟩ }
  let r : Arrival := ⟨65535, .ofMicros 10000⟩
  let s : Arrival := ⟨0, .ofMicros 10000000⟩
  let t : Arrival := ⟨1, .ofMicros 12000⟩
  let again : Arrival := ⟨65535, .ofMicros 20000⟩
  let calls : List Call :=
    [.record r ⟨2⟩ false, .record t ⟨2⟩ false, .record s ⟨2⟩ false, .record again ⟨2⟩ false]
  have hbatch : (log.run calls).batch = [r, t, s, again] := by
    decide +kernel +revert
  have htimes : ∀ q ∈ [r, t, s, again], q.time.micros < 2 ^ 63 := by
    decide +kernel +revert
  have hnonempty : (log.run calls).batch ≠ [] := by
    rw [hbatch]
    exact List.cons_ne_nil _ _
  have hreport := report_tells_batch 1200 (by decide) ⟨1⟩ log rfl calls hnonempty (by
    rw [hbatch]
    exact htimes)
  rcases hreport.2.1 with ⟨pieces, hready, _, hpos, hlength, _, _, hall, hchain⟩
  rw [hbatch] at hlength
  exact ⟨log, calls, r, s, t, again, rfl, hbatch, rfl, hreport.1, pieces, hready, hpos, hlength,
    fun p hp => (hall p hp).1, hchain⟩

end ArrivalLog

end Feedback

end VideoTransport

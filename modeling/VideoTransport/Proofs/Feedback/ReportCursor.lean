import VideoTransport.Proofs.Feedback.ReportedBatches
import VideoTransport.Proofs.Feedback.WindowArrivals

/-!
# What a Report Covers

The ranges of the windows of a batch, and how far they move the cursor of a log.

Everything here is seen from an origin that all numbers in question lie ahead
of, less than half a turn. From there, distances order the numbers: windows
follow each other, each of them begins and ends with an arrival, and all
arrivals lie in between. The cursor, which is moved to the end of each window in
turn, comes to rest at the highest number there is.

`Behind` says of a number that the cursor has got to it. A report makes it true
of the numbers of the batch and of those before them, and of no other.

## Main definitions

* `Window.last`: The last number of a window.
* `Message.Covers`, `Message.last`: The range of a message.
* `advanceTo`: The cursor after a message.
* `Behind`: The cursor has got to a number.

## Theorems

* `Window.base_of_tells`, `Window.last_of_tells`: A window begins and ends with an arrival.
* `Window.pairwise_windows`: The windows of a batch follow each other.
* `ArrivalLog.behind_report_iff`: What the cursor has got to after a report.
* `ArrivalLog.reportedTo_report_of_newest`: Where a report takes the cursor.
-/

namespace VideoTransport

namespace Feedback

/-- A number is in the range of the message. -/
def Message.Covers (m : Message) (q : SeqNum) : Prop :=
  m.baseSeq.stepsTo q < m.statusCount.toNat

/-- The last number of the range. -/
def Message.last (m : Message) : SeqNum :=
  m.baseSeq.advance (m.statusCount.toNat - 1)

-- Each number of a batch is still there when the batch is put in order.
theorem seq_mem_inOrder (batch : List Arrival) (q : SeqNum) (hq : q ∈ batch.map Arrival.seq) :
    q ∈ (inOrder batch).map Arrival.seq := by
  rcases List.mem_map.1 hq with ⟨a, ha, hseq⟩
  cases hfirst : firstOf batch q with
  | none =>
      rw [firstOf, List.find?_eq_none] at hfirst
      exact absurd (beq_iff_eq.2 hseq) (hfirst a ha)
  | some b =>
      have hb := (mem_of_firstOf batch q b hfirst).2
      rw [← hb] at hfirst
      exact List.mem_map.2 ⟨b, (mem_inOrder batch b).2 hfirst, hb⟩

namespace Window

/-- The last number of the window. -/
def last (w : Window) : SeqNum :=
  w.base.advance (w.statuses.length - 1)

-- The range of a message is that of its window, if its length can be declared.
theorem last_message (w : Window) (sender media : Ssrc) (count : UInt8)
    (h : w.statuses.length < 65536) :
    (w.message sender media count).last = w.last := by
  rw [Message.last, w.toNat_statusCount sender media count h]
  rfl

variable (origin : SeqNum)

/-- Going on by one number for each status leads to the last arrival. -/
theorem advance_length_fillFrom (last : SeqNum) (later : List (SeqNum × Delta))
    (h : Ahead origin (last :: later.map Prod.fst)) :
    last.advance (fillFrom last later).length
      = (last :: later.map Prod.fst).getLast (List.cons_ne_nil _ _) := by
  induction later generalizing last with
  | nil => exact last.advance_zero
  | cons r rest ih =>
      rcases r with ⟨seq, d⟩
      have hnext : origin.distance last < origin.distance seq :=
        List.rel_of_pairwise_cons h List.mem_cons_self
      have hsteps := SeqNum.stepsTo_eq_sub origin last seq (Int.le_of_lt hnext)
      have hlen : (fillFrom last ((seq, d) :: rest)).length
          = last.stepsTo seq + (fillFrom seq rest).length := by
        rw [fillFrom, List.length_append, List.length_replicate, List.length_cons]
        omega
      rw [hlen, ← SeqNum.advance_advance, SeqNum.advance_stepsTo, ih seq (List.Pairwise.of_cons h),
        List.map_cons, List.getLast_cons_cons]

/-- A window begins with an arrival, and no other is before it. -/
theorem base_of_tells (w : Window) (part : List Arrival) (h : w.Tells part)
    (hahead : Ahead origin (part.map Arrival.seq)) :
    w.base ∈ part.map Arrival.seq
      ∧ ∀ q ∈ part.map Arrival.seq, origin.distance w.base ≤ origin.distance q := by
  rw [← h.numbers] at hahead ⊢
  refine ⟨List.mem_cons_self, ?_⟩
  intro q hq
  rcases List.mem_cons.1 hq with hq | hq
  · rw [hq]
  · exact Int.le_of_lt (List.rel_of_pairwise_cons hahead hq)

/-- A window ends with an arrival, and no other is after it. -/
theorem last_of_tells (w : Window) (part : List Arrival) (h : w.Tells part)
    (hahead : Ahead origin (part.map Arrival.seq)) :
    w.last ∈ part.map Arrival.seq
      ∧ ∀ q ∈ part.map Arrival.seq, origin.distance q ≤ origin.distance w.last := by
  rw [← h.numbers] at hahead ⊢
  have hlast : w.last = (w.base :: w.later.reverse.map Prod.fst).getLast (List.cons_ne_nil _ _) := by
    rw [last, statuses, List.length_cons, Nat.add_sub_cancel]
    exact advance_length_fillFrom origin w.base w.later.reverse hahead
  rw [hlast]
  refine ⟨List.getLast_mem _, ?_⟩
  intro q hq
  rw [Ahead, ← List.dropLast_append_getLast (List.cons_ne_nil w.base _), List.pairwise_append]
    at hahead
  rw [← List.dropLast_append_getLast (List.cons_ne_nil w.base _)] at hq
  rcases List.mem_append.1 hq with hq | hq
  · exact Int.le_of_lt (hahead.2.2 q hq _ (List.mem_singleton_self _))
  · rw [List.mem_singleton.1 hq]

-- Seen from an origin that it lies ahead of, a batch has the same order as seen
-- from its first arrival.
theorem ahead_inOrder_of_origin (batch : List Arrival)
    (hhalf : ∀ q ∈ batch.map Arrival.seq, 0 ≤ origin.distance q) :
    Ahead origin ((inOrder batch).map Arrival.seq) := by
  cases batch with
  | nil => exact List.Pairwise.nil
  | cons first rest =>
      have hfirst := hhalf first.seq List.mem_cons_self
      refine (ahead_inOrder first rest).imp_of_mem ?_
      intro s t hs ht hst
      have hmem (q : SeqNum) (hq : q ∈ (inOrder (first :: rest)).map Arrival.seq) :
          0 ≤ origin.distance q :=
        hhalf q (seq_mem_of_piece _ [] _ [] q (by rw [List.nil_append, List.append_nil]) hq)
      rw [SeqNum.distance_eq_sub origin first.seq s hfirst (hmem s hs),
        SeqNum.distance_eq_sub origin first.seq t hfirst (hmem t ht)] at hst
      omega

-- Windows that tell a sorted list piece by piece cover all of it, and follow each
-- other.
theorem follow_of_tells (ws : List Window) (parts : List (List Arrival))
    (h : List.Forall₂ Tells ws parts) (hahead : Ahead origin (parts.flatten.map Arrival.seq)) :
    (∀ q ∈ parts.flatten.map Arrival.seq, ∃ w ∈ ws, ∃ part, w.Tells part
        ∧ Ahead origin (part.map Arrival.seq) ∧ q ∈ part.map Arrival.seq)
      ∧ (∀ w ∈ ws, w.base ∈ parts.flatten.map Arrival.seq)
      ∧ ws.Pairwise fun v w => origin.distance v.last < origin.distance w.base := by
  induction h with
  | nil =>
      exact ⟨fun q hq => absurd hq List.not_mem_nil, fun w hw => absurd hw List.not_mem_nil,
        List.Pairwise.nil⟩
  | @cons w part ws parts hw _ ih =>
      rw [List.flatten_cons, List.map_append] at hahead ⊢
      rcases List.pairwise_append.1 hahead with ⟨hpart, hrest, hcross⟩
      rcases ih hrest with ⟨hcover, hbases, hfollow⟩
      have hbase := base_of_tells origin w part hw hpart
      have hlast := last_of_tells origin w part hw hpart
      refine ⟨?_, ?_, ?_⟩
      · intro q hq
        rcases List.mem_append.1 hq with hq | hq
        · exact ⟨w, List.mem_cons_self, part, hw, hpart, hq⟩
        · rcases hcover q hq with ⟨v, hv, htells⟩
          exact ⟨v, List.mem_cons_of_mem _ hv, htells⟩
      · intro v hv
        rcases List.mem_cons.1 hv with hv | hv
        · rw [hv]
          exact List.mem_append_left _ hbase.1
        · exact List.mem_append_right _ (hbases v hv)
      · exact List.Pairwise.cons (fun v hv => hcross _ hlast.1 _ (hbases v hv)) hfollow

/-- Each number of a batch belongs to one of its windows. -/
theorem exists_tells_of_mem (batch : List Arrival) (q : SeqNum) (hq : q ∈ batch.map Arrival.seq)
    (hahead : Ahead origin ((inOrder batch).map Arrival.seq)) :
    ∃ w ∈ windows (inOrder batch), ∃ part, w.Tells part ∧ Ahead origin (part.map Arrival.seq)
      ∧ q ∈ part.map Arrival.seq := by
  rcases windows_tell (inOrder batch) with ⟨parts, hflat, hparts⟩
  rw [← hflat] at hahead
  refine (follow_of_tells origin _ parts hparts hahead).1 q ?_
  rw [hflat]
  exact seq_mem_inOrder batch q hq

section Batch

variable (batch : List Arrival) (hhalf : ∀ q ∈ batch.map Arrival.seq, 0 ≤ origin.distance q)

include hhalf

/-- A window of a batch begins and ends with an arrival of it, and has a status
    for each number from the one to the other. -/
theorem range_of_mem_windows (w : Window) (hw : w ∈ windows (inOrder batch)) :
    w.base ∈ batch.map Arrival.seq ∧ w.last ∈ batch.map Arrival.seq
      ∧ origin.distance w.last = origin.distance w.base + (w.statuses.length - 1) := by
  rcases tells_of_mem_windows _ w hw with ⟨before, part, after, hsplit, htells⟩
  have hahead := ahead_inOrder_of_origin origin batch hhalf
  rw [hsplit, List.map_append, List.map_append] at hahead
  have hpart := (List.pairwise_append.1 (List.pairwise_append.1 hahead).1).2.1
  have hbase := base_of_tells origin w part htells hpart
  have hlast := last_of_tells origin w part htells hpart
  rcases length_statuses origin w part htells hpart with ⟨r, hr, hlen⟩
  have hrlt := origin.distance_lt r.seq
  refine ⟨seq_mem_of_piece _ before part after _ hsplit hbase.1,
    seq_mem_of_piece _ before part after _ hsplit hlast.1, ?_⟩
  have hpos : 0 < w.statuses.length := Nat.succ_pos _
  rw [last, SeqNum.distance_advance origin w.base _ (by omega)]
  omega

/-- All arrivals of a batch lie in the ranges of its windows. -/
theorem exists_window_of_mem (q : SeqNum) (hq : q ∈ batch.map Arrival.seq) :
    ∃ w ∈ windows (inOrder batch),
      origin.distance w.base ≤ origin.distance q ∧ origin.distance q ≤ origin.distance w.last := by
  rcases exists_tells_of_mem origin batch q hq (ahead_inOrder_of_origin origin batch hhalf) with
    ⟨w, hw, part, htells, hpart, hqpart⟩
  exact ⟨w, hw, (base_of_tells origin w part htells hpart).2 q hqpart,
    (last_of_tells origin w part htells hpart).2 q hqpart⟩

/-- The windows of a batch follow each other. -/
theorem pairwise_windows :
    (windows (inOrder batch)).Pairwise
      fun v w => origin.distance v.last < origin.distance w.base := by
  rcases windows_tell (inOrder batch) with ⟨parts, hflat, hparts⟩
  have hahead := ahead_inOrder_of_origin origin batch hhalf
  rw [← hflat] at hahead
  exact (follow_of_tells origin _ parts hparts hahead).2.2

end Batch

end Window

/-- The cursor after a message that ends with a number. It never moves back. -/
def advanceTo (reported : Option SeqNum) (last : SeqNum) : Option SeqNum :=
  match reported with
  | none => some last
  | some r => if r.precedes last then some last else some r

section Cursor

variable (origin : SeqNum)

/-- The cursor has got to a number, as seen from an origin. -/
def Behind (reported : Option SeqNum) (q : SeqNum) : Prop :=
  ∃ r, reported = some r ∧ origin.distance q ≤ origin.distance r

/-- The cursor lies ahead of an origin, if there is one. -/
def CursorAhead (reported : Option SeqNum) : Prop :=
  ∀ r, reported = some r → 0 ≤ origin.distance r

theorem cursorAhead_advanceTo (reported : Option SeqNum) (last : SeqNum)
    (h : CursorAhead origin reported) (hlast : 0 ≤ origin.distance last) :
    CursorAhead origin (advanceTo reported last) := by
  intro r hr
  cases reported with
  | none =>
      cases hr
      exact hlast
  | some t =>
      rw [advanceTo] at hr
      split at hr
      · cases hr
        exact hlast
      · exact h r hr

/-- A message takes the cursor to where it ends, unless it was further already. -/
theorem behind_advanceTo (reported : Option SeqNum) (last q : SeqNum)
    (h : CursorAhead origin reported) (hlast : 0 ≤ origin.distance last) :
    Behind origin (advanceTo reported last) q
      ↔ Behind origin reported q ∨ origin.distance q ≤ origin.distance last := by
  have hsome (r : SeqNum) :
      Behind origin (some r) q ↔ origin.distance q ≤ origin.distance r := by
    constructor
    · rintro ⟨t, ht, hq⟩
      cases ht
      exact hq
    · intro hq
      exact ⟨r, rfl, hq⟩
  cases hreported : reported with
  | none =>
      have hnone : ¬ Behind origin none q := by
        rintro ⟨t, ht, _⟩
        cases ht
      rw [advanceTo, hsome]
      simp only [hnone, false_or]
  | some r =>
      have hdistance := SeqNum.distance_eq_sub origin r last (h r hreported) hlast
      rw [advanceTo, hsome]
      by_cases hnewer : r.precedes last = true
      · rw [if_pos hnewer, hsome]
        rw [SeqNum.precedes, decide_eq_true_eq] at hnewer
        omega
      · rw [if_neg hnewer, hsome]
        rw [SeqNum.precedes, decide_eq_true_eq] at hnewer
        omega

/-- Several messages take it to where the furthest of them ends. -/
theorem behind_foldl_advanceTo (reported : Option SeqNum) (ends : List SeqNum) (q : SeqNum)
    (h : CursorAhead origin reported) (hends : ∀ e ∈ ends, 0 ≤ origin.distance e) :
    CursorAhead origin (ends.foldl advanceTo reported)
      ∧ (Behind origin (ends.foldl advanceTo reported) q
        ↔ Behind origin reported q ∨ ∃ e ∈ ends, origin.distance q ≤ origin.distance e) := by
  induction ends generalizing reported with
  | nil =>
      refine ⟨h, ?_⟩
      simp only [List.foldl_nil, List.not_mem_nil, false_and, exists_false, or_false]
  | cons e rest ih =>
      have he := hends e List.mem_cons_self
      rcases ih (advanceTo reported e) (cursorAhead_advanceTo origin reported e h he)
        (fun t ht => hends t (List.mem_cons_of_mem _ ht)) with ⟨hahead, hbehind⟩
      refine ⟨hahead, ?_⟩
      rw [List.foldl_cons, hbehind, behind_advanceTo origin reported e q h he, or_assoc]
      simp only [List.mem_cons, exists_eq_or_imp]

end Cursor

namespace ArrivalLog

-- The messages of some windows take the cursor to where each of them ends.
theorem reportedTo_foldl_addWindow (ws : List Window) (log : ArrivalLog)
    (hlen : ∀ w ∈ ws, w.statuses.length < 65536) :
    (ws.foldl addWindow log).reportedTo = (ws.map Window.last).foldl advanceTo log.reportedTo := by
  induction ws generalizing log with
  | nil => rfl
  | cons w rest ih =>
      have hstep : (log.addWindow w).reportedTo = advanceTo log.reportedTo w.last := by
        rw [← w.last_message log.sender (log.media.getD ⟨0⟩) log.feedbackCount
          (hlen w List.mem_cons_self), addWindow]
        cases log.reportedTo with
        | none => rfl
        | some r => rfl
      rw [List.foldl_cons, List.map_cons, List.foldl_cons, ← hstep]
      exact ih _ fun v hv => hlen v (List.mem_cons_of_mem _ hv)

/-- After a report, the cursor has got to the numbers of the batch, to those
    before them, and to those that it had got to already. -/
theorem behind_report_iff (origin : SeqNum) (log : ArrivalLog) (q : SeqNum)
    (hspan : span log.pending < 65536) (hhalf : ∀ q ∈ log.pending, 0 ≤ origin.distance q)
    (hcursor : CursorAhead origin log.reportedTo) :
    CursorAhead origin log.report.reportedTo
      ∧ (Behind origin log.report.reportedTo q ↔ Behind origin log.reportedTo q
        ∨ ∃ p ∈ log.pending, origin.distance q ≤ origin.distance p) := by
  have hlen (w : Window) (hw : w ∈ windows (inOrder log.batch)) : w.statuses.length < 65536 :=
    Nat.lt_of_le_of_lt (Window.length_statuses_le log.batch w hw) hspan
  have hrange := Window.range_of_mem_windows origin log.batch hhalf
  have hends : ∀ e ∈ (windows (inOrder log.batch)).map Window.last, 0 ≤ origin.distance e := by
    intro e he
    rcases List.mem_map.1 he with ⟨w, hw, rfl⟩
    exact hhalf _ (hrange w hw).2.1
  have hfold := behind_foldl_advanceTo origin log.reportedTo
    ((windows (inOrder log.batch)).map Window.last) q hcursor hends
  rw [report, reportedTo_foldl_addWindow _ _ hlen]
  refine ⟨hfold.1, hfold.2.trans (or_congr_right ?_)⟩
  constructor
  · rintro ⟨e, he, hq⟩
    rcases List.mem_map.1 he with ⟨w, hw, rfl⟩
    exact ⟨w.last, (hrange w hw).2.1, hq⟩
  · rintro ⟨p, hp, hq⟩
    rcases Window.exists_window_of_mem origin log.batch hhalf p hp with ⟨w, hw, _, hpw⟩
    exact ⟨w.last, List.mem_map_of_mem hw, Int.le_trans hq hpw⟩

/-- A report takes the cursor to the newest number of the batch, or leaves it where it is
    if that is newer. -/
theorem reportedTo_report_of_newest (log : ArrivalLog) (newest : SeqNum)
    (hspan : span log.pending < 65536) (hpending : ∀ q ∈ log.pending, 0 ≤ q.distance newest)
    (hcursor : ∀ t, log.reportedTo = some t → 0 ≤ t.distance newest)
    (hnewest : log.reportedTo = some newest ∨ newest ∈ log.pending) :
    log.report.reportedTo = some newest := by
  -- Seen from half a turn before it, the newest number is the furthest one.
  have hself := SeqNum.distance_half newest newest (Int.le_of_eq newest.distance_self.symm)
  rw [newest.distance_self] at hself
  rcases log.behind_report_iff (newest.advance 32769) newest hspan
    (fun q hq => by
      have hq := hpending q hq
      have hlt := q.distance_lt newest
      rw [SeqNum.distance_half q newest hq]
      omega)
    (fun t ht => by
      have ht := hcursor t ht
      have hlt := t.distance_lt newest
      rw [SeqNum.distance_half t newest ht]
      omega) with ⟨_, hbehind⟩
  have hreached : Behind (newest.advance 32769) log.reportedTo newest
      ∨ ∃ p ∈ log.pending, (newest.advance 32769).distance newest
        ≤ (newest.advance 32769).distance p := by
    rcases hnewest with hnewest | hnewest
    · exact Or.inl ⟨newest, hnewest, Int.le_refl _⟩
    · exact Or.inr ⟨newest, hnewest, Int.le_refl _⟩
  rcases hbehind.2 hreached with ⟨t, ht, hle⟩
  have hlt := (newest.advance 32769).distance_lt t
  rw [ht, SeqNum.distance_injective (newest.advance 32769) t newest (by omega)]

end ArrivalLog

end Feedback

end VideoTransport

import VideoTransport.Proofs.Feedback.PacketSize
import VideoTransport.Proofs.Feedback.ReportCursor

/-!
# Ranges of Feedback

The ranges of the messages that a log queues, one after the other.

As long as no number comes that is 2048 or more away from another, an arrival is
recorded only if the cursor has not got to its number. A report covers numbers
that have been recorded, and takes the cursor over all of them, so its range
begins behind everything that has been reported before.

There is one step that breaks the order. An arrival that does not fit beside the
batch is tested against the cursor first, and the batch is reported after that.
The cursor may then have got past the arrival, which is recorded all the same.
`GoesForward` rules this out: an arrival that makes the batch be reported is
newer than the batch.

## Main definitions

* `Message.Precedes`: All numbers of a message are older than those of another.
* `ArrivalLog.Forward`, `ArrivalLog.GoesForward`: No arrival is behind a batch that it closes.
* `Ranges`: Messages that lead from one cursor to another.
* `ArrivalLog.Clear`: The cursor has not got to any number of the batch.

## Theorems

* `ArrivalLog.ranges_report`: A report leads the cursor on from where it is.
* `ArrivalLog.ranges_step`, `ArrivalLog.ranges_run`: So do a call and a run of calls.
* `ArrivalLog.queuedIn_pairwise_precedes`: The ranges of a run move forward only.
-/

namespace VideoTransport

namespace Feedback

/-- All numbers of the first range are older than those of the second one. In
    particular no number is in both. -/
def Message.Precedes (m m' : Message) : Prop :=
  ∀ q q', m.Covers q → m'.Covers q' → q.precedes q' = true

/-- As seen from an origin, the range of a message is what lies between its first
    number and its last one, and these are in order. -/
structure Message.Spans (origin : SeqNum) (m : Message) : Prop where
  count_pos : 0 < m.statusCount.toNat
  base_nonneg : 0 ≤ origin.distance m.baseSeq
  last_eq : origin.distance m.last = origin.distance m.baseSeq + (m.statusCount.toNat - 1)

theorem Message.Spans.bounds_of_covers {origin : SeqNum} {m : Message} (h : m.Spans origin)
    (q : SeqNum) (hq : m.Covers q) :
    origin.distance m.baseSeq ≤ origin.distance q ∧ origin.distance q ≤ origin.distance m.last := by
  have hlt := origin.distance_lt m.last
  have hbase := SeqNum.stepsTo_eq_distance origin m.baseSeq h.base_nonneg
  have hlast := h.last_eq
  have hbetween := (SeqNum.stepsTo_lt_iff origin m.baseSeq q m.statusCount.toNat (by omega)).1 hq
  rw [SeqNum.distance_eq_stepsTo origin q (by omega)]
  omega

-- If a message ends before another one begins, its numbers are older.
theorem Message.Spans.precedes {origin : SeqNum} {m m' : Message} (h : m.Spans origin)
    (h' : m'.Spans origin) (hlt : origin.distance m.last < origin.distance m'.baseSeq) :
    m.Precedes m' := by
  intro q q' hq hq'
  have hbounds := h.bounds_of_covers q hq
  have hbounds' := h'.bounds_of_covers q' hq'
  have hpos := h.base_nonneg
  rw [SeqNum.precedes, SeqNum.distance_eq_sub origin q q' (by omega) (by omega), decide_eq_true_eq]
  omega

/-- Messages that lead from one cursor to another: they begin behind what the
    first one has got to, each of them begins behind the end of those before it,
    and the second one has got to the end of all of them. -/
structure Ranges (origin : SeqNum) (before : Option SeqNum) (ms : List Message)
    (after : Option SeqNum) : Prop where
  spans : ∀ m ∈ ms, m.Spans origin
  ahead : ∀ m ∈ ms, ¬ Behind origin before m.baseSeq
  behind : ∀ m ∈ ms, Behind origin after m.last
  follow : ms.Pairwise fun m m' => origin.distance m.last < origin.distance m'.baseSeq
  mono : ∀ q, Behind origin before q → Behind origin after q

namespace Ranges

variable {origin : SeqNum}

theorem nil (reported : Option SeqNum) : Ranges origin reported [] reported where
  spans _ hm := absurd hm List.not_mem_nil
  ahead _ hm := absurd hm List.not_mem_nil
  behind _ hm := absurd hm List.not_mem_nil
  follow := List.Pairwise.nil
  mono _ h := h

-- What lies behind the cursor is older than what does not.
theorem lt_of_behind (reported : Option SeqNum) (p q : SeqNum) (hp : Behind origin reported p)
    (hq : ¬ Behind origin reported q) : origin.distance p < origin.distance q := by
  rcases hp with ⟨r, hr, hpr⟩
  by_contra hle
  exact hq ⟨r, hr, by omega⟩

/-- Messages that lead on from where others have led to. -/
theorem append {a b c : Option SeqNum} {ms ms' : List Message} (h : Ranges origin a ms b)
    (h' : Ranges origin b ms' c) : Ranges origin a (ms ++ ms') c where
  spans m hm := (List.mem_append.1 hm).elim (h.spans m) (h'.spans m)
  ahead m hm := (List.mem_append.1 hm).elim (h.ahead m) fun hm hbehind =>
    h'.ahead m hm (h.mono _ hbehind)
  behind m hm := (List.mem_append.1 hm).elim (fun hm => h'.mono _ (h.behind m hm)) (h'.behind m)
  follow := List.pairwise_append.2 ⟨h.follow, h'.follow, fun m hm m' hm' =>
    lt_of_behind b _ _ (h.behind m hm) (h'.ahead m' hm')⟩
  mono q hq := h'.mono q (h.mono q hq)

end Ranges

namespace ArrivalLog

/-- A report leads the cursor on from where it is, if it has not got to any
    number of the batch. -/
theorem ranges_report (origin : SeqNum) (log : ArrivalLog) (hspan : span log.pending < 65536)
    (hhalf : ∀ q ∈ log.pending, 0 ≤ origin.distance q)
    (hcursor : CursorAhead origin log.reportedTo)
    (hahead : ∀ q ∈ log.pending, ¬ Behind origin log.reportedTo q) :
    Ranges origin log.reportedTo (log.pendingReport.map Reported.message)
      log.report.reportedTo := by
  rw [message_pendingReport]
  have hbehind (q : SeqNum) := (log.behind_report_iff origin q hspan hhalf hcursor).2
  have hlen (w : Window) (hw : w ∈ windows (inOrder log.batch)) : w.statuses.length < 65536 :=
    Nat.lt_of_le_of_lt (Window.length_statuses_le log.batch w hw) hspan
  have hrange := Window.range_of_mem_windows origin log.batch hhalf
  have hwindow (m : Message) (hm : m ∈ log.messages (windows (inOrder log.batch))) :
      ∃ w ∈ windows (inOrder log.batch), m.baseSeq = w.base ∧ m.last = w.last
        ∧ m.statusCount.toNat = w.statuses.length := by
    rcases log.mem_messages _ m hm with ⟨w, hw, count, rfl⟩
    exact ⟨w, hw, rfl, w.last_message _ _ _ (hlen w hw), w.toNat_statusCount _ _ _ (hlen w hw)⟩
  refine ⟨?_, ?_, ?_, ?_, ?_⟩
  · intro m hm
    rcases hwindow m hm with ⟨w, hw, hbase, hlast, hcount⟩
    have hpos : 0 < w.statuses.length := Nat.succ_pos _
    refine ⟨by omega, ?_, ?_⟩
    · rw [hbase]
      exact hhalf _ (hrange w hw).1
    · rw [hbase, hlast, hcount]
      exact (hrange w hw).2.2
  · intro m hm
    rcases hwindow m hm with ⟨w, hw, hbase, _⟩
    rw [hbase]
    exact hahead _ (hrange w hw).1
  · intro m hm
    rcases hwindow m hm with ⟨w, hw, _, hlast, _⟩
    rw [hlast, hbehind]
    exact Or.inr ⟨w.last, (hrange w hw).2.1, Int.le_refl _⟩
  · have hfollow := Window.pairwise_windows origin log.batch hhalf
    rw [← List.zipIdx_map_fst 0 (windows (inOrder log.batch)), List.pairwise_map] at hfollow
    rw [messages, List.pairwise_map]
    refine hfollow.imp_of_mem ?_
    intro a b ha _ hab
    have hw : a.1 ∈ windows (inOrder log.batch) := by
      rw [← List.zipIdx_map_fst 0 (windows (inOrder log.batch))]
      exact List.mem_map_of_mem ha
    simp only [a.1.last_message _ _ _ (hlen a.1 hw)]
    exact hab
  · intro q hq
    exact (hbehind q).2 (Or.inl hq)

/-- A number lies ahead of an origin, by less than what counts as a restart. -/
def InReach (origin q : SeqNum) : Prop :=
  0 ≤ origin.distance q ∧ origin.distance q < restartDistance

theorem inReach_of_stepsTo_lt (origin q : SeqNum) (h : origin.stepsTo q < 2048) :
    InReach origin q := by
  rw [InReach, SeqNum.distance_eq_stepsTo origin q (by omega), restartDistance]
  omega

/-- The cursor has not got to any number of the batch, and all numbers are in
    reach of the origin. -/
structure Clear (origin : SeqNum) (limit : Nat) (log : ArrivalLog) : Prop where
  holds : log.Holds (fun r => InReach origin r.seq) limit
  cursor : ∀ r, log.reportedTo = some r → InReach origin r
  ahead : ∀ q ∈ log.pending, ¬ Behind origin log.reportedTo q

/-- A number comes from the 2048 numbers that begin at the origin, and nothing is
    forgotten. -/
def Call.From (origin : SeqNum) : Call → Prop
  | .record r _ _ => origin.stepsTo r.seq < 2048
  | .report => True
  | .poll => True
  | .reset => False

/-- An arrival that does not fit beside the batch is newer than the batch. -/
def Forward (log : ArrivalLog) : Call → Prop
  | .record r _ _ => log.ignores r.seq = false → log.overflows r.seq = true →
    ∀ q ∈ log.pending, q.precedes r.seq = true
  | .report => True
  | .poll => True
  | .reset => True

/-- This is so for each call of a run. -/
def GoesForward (log : ArrivalLog) : List Call → Prop
  | [] => True
  | c :: rest => log.Forward c ∧ (log.step c).GoesForward rest

section Clear

variable {origin : SeqNum} {limit : Nat}

theorem Clear.inReach {log : ArrivalLog} (h : log.Clear origin limit) (q : SeqNum)
    (hq : q ∈ log.pending) : InReach origin q := by
  rcases List.mem_map.1 hq with ⟨a, ha, rfl⟩
  exact h.holds.arrivals a ha

-- What the cursor has got to after a report of the batch.
theorem Clear.behind_report {log : ArrivalLog} (h : log.Clear origin limit)
    (hlimit : limit < 65536) (q : SeqNum) :
    CursorAhead origin log.report.reportedTo
      ∧ (Behind origin log.report.reportedTo q ↔ Behind origin log.reportedTo q
        ∨ ∃ p ∈ log.pending, origin.distance q ≤ origin.distance p) :=
  log.behind_report_iff origin q (Nat.lt_of_le_of_lt h.holds.span_le hlimit)
    (fun q hq => (h.inReach q hq).1) fun r hr => (h.cursor r hr).1

theorem Clear.ranges {log : ArrivalLog} (h : log.Clear origin limit) (hlimit : limit < 65536) :
    Ranges origin log.reportedTo (log.pendingReport.map Reported.message)
      log.report.reportedTo :=
  log.ranges_report origin (Nat.lt_of_le_of_lt h.holds.span_le hlimit)
    (fun q hq => (h.inReach q hq).1) (fun r hr => (h.cursor r hr).1) h.ahead

theorem clear_report (log : ArrivalLog) (h : log.Clear origin limit) (hlimit : limit < 65536) :
    log.report.Clear origin limit where
  holds := log.holds_report h.holds
  cursor r hr := by
    rcases h.behind_report hlimit r with ⟨hahead, hbehind⟩
    refine ⟨hahead r hr, ?_⟩
    rcases hbehind.1 ⟨r, hr, Int.le_refl _⟩ with ⟨t, ht, hrt⟩ | ⟨q, hq, hrq⟩
    · exact Int.lt_of_le_of_lt hrt (h.cursor t ht).2
    · exact Int.lt_of_le_of_lt hrq (h.inReach q hq).2
  ahead q hq := by
    rw [pending_report] at hq
    exact absurd hq List.not_mem_nil

-- An arrival that is not late is one that the cursor has not got to.
theorem Clear.not_behind {log : ArrivalLog} (h : log.Clear origin limit) (seq : SeqNum)
    (hseq : InReach origin seq) (hlate : log.isLate seq = false) :
    ¬ Behind origin log.reportedTo seq := by
  rintro ⟨r, hr, hbehind⟩
  have hcursor := h.cursor r hr
  have hdistance := SeqNum.distance_eq_sub origin r seq hcursor.1 hseq.1
  have htrue : log.isLate seq = true := by
    rw [isLate, hr]
    simp only [Bool.and_eq_true, decide_eq_true_eq]
    have hfar := hcursor.2
    have hpos := hseq.1
    omega
  rw [hlate] at htrue
  exact Bool.false_ne_true htrue

/-- An arrival is recorded behind the cursor that the report of the batch before
    it, if there is one, has led to. -/
theorem clear_join (log : ArrivalLog) (r : Arrival) (ssrc : Ssrc) (h : log.Clear origin limit)
    (hpos : 1 ≤ limit) (hlimit : limit < 65536) (hr : InReach origin r.seq)
    (hignores : log.ignores r.seq = false)
    (hforward : log.overflows r.seq = true → ∀ q ∈ log.pending, q.precedes r.seq = true) :
    Ranges origin log.reportedTo
        ((if log.overflows r.seq then log.pendingReport else []).map Reported.message)
        (log.join r ssrc).reportedTo
      ∧ (log.join r ssrc).Clear origin limit := by
  have hlate : log.isLate r.seq = false := by
    rw [ignores, Bool.or_eq_false_iff] at hignores
    exact hignores.2
  have hbehind := h.not_behind r.seq hr hlate
  have hholds := log.holds_join r ssrc h.holds hpos hr
  have hahead (q : SeqNum) (hq : q ∈ (log.join r ssrc).pending)
      (hroom : ∀ p ∈ (log.makeRoom r.seq).pending, ¬ Behind origin (log.makeRoom r.seq).reportedTo p)
      (hseq : ¬ Behind origin (log.makeRoom r.seq).reportedTo r.seq) :
      ¬ Behind origin (log.join r ssrc).reportedTo q := by
    rw [pending_join] at hq
    rcases List.mem_append.1 hq with hq | hq
    · exact hroom q hq
    · rw [List.mem_singleton.1 hq]
      exact hseq
  by_cases hover : log.overflows r.seq = true
  · have hroom : log.makeRoom r.seq = log.report := if_pos hover
    have hreport := log.clear_report h hlimit
    have hcursor : (log.join r ssrc).reportedTo = log.report.reportedTo := by
      rw [join, hroom]
      rfl
    have hnew : ¬ Behind origin log.report.reportedTo r.seq := by
      rw [(h.behind_report hlimit r.seq).2]
      rintro (hold | ⟨p, hp, hle⟩)
      · exact hbehind hold
      · have hprecedes := hforward hover p hp
        rw [SeqNum.precedes, SeqNum.distance_eq_sub origin p r.seq (h.inReach p hp).1 hr.1,
          decide_eq_true_eq] at hprecedes
        omega
    rw [if_pos hover, hcursor]
    refine ⟨h.ranges hlimit, hholds, fun t ht => hreport.cursor t (hcursor ▸ ht), ?_⟩
    intro q hq
    rw [hroom] at hahead
    exact hahead q hq hreport.ahead hnew
  · have hroom : log.makeRoom r.seq = log := if_neg hover
    have hcursor : (log.join r ssrc).reportedTo = log.reportedTo := by
      rw [join, hroom]
      rfl
    rw [if_neg hover, hcursor]
    refine ⟨Ranges.nil _, hholds, fun t ht => h.cursor t (hcursor ▸ ht), ?_⟩
    intro q hq
    rw [hroom] at hahead
    exact hahead q hq h.ahead hbehind

/-- A call leads the cursor on, and keeps it behind the batch. -/
theorem ranges_step (log : ArrivalLog) (c : Call) (h : log.Clear origin limit) (hpos : 1 ≤ limit)
    (hlimit : limit < 65536) (hc : c.From origin) (hforward : log.Forward c) :
    Ranges origin log.reportedTo ((log.reportedBy c).map Reported.message) (log.step c).reportedTo
      ∧ (log.step c).Clear origin limit := by
  cases c with
  | record r ssrc marker =>
      rw [step, record_eq, reportedBy]
      by_cases hignores : log.ignores r.seq = true
      · rw [if_pos hignores, if_pos hignores]
        exact ⟨Ranges.nil _, h⟩
      · rw [if_neg hignores, if_neg hignores, List.map_append]
        rw [Bool.not_eq_true] at hignores
        rcases log.clear_join r ssrc h hpos hlimit (inReach_of_stepsTo_lt origin r.seq hc) hignores
          (hforward hignores) with ⟨hranges, hjoin⟩
        by_cases hreport : (marker || (log.join r ssrc).isLossy) = true
        · rw [if_pos hreport, if_pos hreport]
          exact ⟨hranges.append (hjoin.ranges hlimit), clear_report _ hjoin hlimit⟩
        · rw [if_neg hreport, if_neg hreport, List.map_nil, List.append_nil]
          exact ⟨hranges, hjoin⟩
  | report => exact ⟨h.ranges hlimit, log.clear_report h hlimit⟩
  | poll => exact ⟨Ranges.nil _, ⟨h.holds.limit_eq, h.holds.span_le, h.holds.arrivals⟩, h.cursor,
      h.ahead⟩
  | reset => exact absurd hc (by rw [Call.From]; exact not_false)

/-- A run of calls leads the cursor on, and keeps it behind the batch. -/
theorem ranges_run (log : ArrivalLog) (calls : List Call) (h : log.Clear origin limit)
    (hpos : 1 ≤ limit) (hlimit : limit < 65536) (hcalls : ∀ c ∈ calls, c.From origin)
    (hforward : log.GoesForward calls) :
    Ranges origin log.reportedTo (log.queuedIn calls) (log.run calls).reportedTo
      ∧ (log.run calls).Clear origin limit := by
  induction calls generalizing log with
  | nil => exact ⟨Ranges.nil _, h⟩
  | cons c rest ih =>
      rcases log.ranges_step c h hpos hlimit (hcalls c List.mem_cons_self) hforward.1 with
        ⟨hranges, hclear⟩
      rcases ih (log.step c) hclear (fun d hd => hcalls d (List.mem_cons_of_mem _ hd)) hforward.2
        with ⟨hrest, hend⟩
      rw [message_reportedBy] at hranges
      exact ⟨hranges.append hrest, hend⟩

end Clear

-- In a new log there is nothing that could be out of order.
theorem clear_start (origin : SeqNum) (mtu : Nat) (sender : Ssrc) (log : ArrivalLog)
    (hstart : start mtu sender = .ok log) (hmtu : mtu ≤ 65535) :
    ∃ limit, 1 ≤ limit ∧ limit < 65536 ∧ log.Clear origin limit := by
  rcases holds_start (P := fun r => InReach origin r.seq) mtu sender log hstart with
    ⟨limit, hlimit, hholds, _⟩
  rcases statusLimit_eq mtu limit hlimit with ⟨heq, hpos⟩
  have hlog := eq_of_start mtu sender log limit hstart hlimit
  refine ⟨limit, by omega, by omega, hholds, ?_, ?_⟩
  · intro r hr
    rw [hlog] at hr
    cases hr
  · intro q hq
    rw [hlog] at hq
    exact absurd hq List.not_mem_nil

/-- The ranges of what a run of calls reports move forward only: each message
    tells something, and all its numbers are older than those of the messages
    after it, and than those that wait to be reported. This is so if all numbers
    come from 2048 in a row, and no arrival is behind a batch that it closes. -/
theorem queuedIn_pairwise_precedes (mtu : Nat) (sender : Ssrc) (log : ArrivalLog)
    (hstart : start mtu sender = .ok log) (hmtu : mtu ≤ 65535) (origin : SeqNum)
    (calls : List Call) (hcalls : ∀ c ∈ calls, c.From origin) (hforward : log.GoesForward calls) :
    (∀ m ∈ log.queuedIn calls, m.statusCount ≠ 0)
      ∧ (log.queuedIn calls).Pairwise Message.Precedes
      ∧ ∀ m ∈ log.queuedIn calls, ∀ p, m.Covers p →
        ∀ q ∈ (log.run calls).pending, p.precedes q = true := by
  rcases clear_start origin mtu sender log hstart hmtu with ⟨limit, hpos, hlimit, hclear⟩
  rcases log.ranges_run calls hclear hpos hlimit hcalls hforward with ⟨hranges, hend⟩
  refine ⟨?_, ?_, ?_⟩
  · intro m hm hzero
    have hcount := (hranges.spans m hm).count_pos
    rw [hzero] at hcount
    exact absurd hcount (by decide)
  · exact hranges.follow.imp_of_mem fun hm hm' hlt =>
      (hranges.spans _ hm).precedes (hranges.spans _ hm') hlt
  · intro m hm p hp q hq
    have hbounds := (hranges.spans m hm).bounds_of_covers p hp
    have hbase := (hranges.spans m hm).base_nonneg
    have hlt := Ranges.lt_of_behind _ _ _ (hranges.behind m hm) (hend.ahead q hq)
    rw [SeqNum.precedes, SeqNum.distance_eq_sub origin p q (by omega) (hend.inReach q hq).1,
      decide_eq_true_eq]
    omega

-- Three arrivals out of order, of which the third does not fit beside the others.
theorem queuedIn_pairwise_precedes_reordered :
    ∃ log calls, start 41 ⟨1⟩ = .ok log
      ∧ calls = [.record ⟨12, ⟨1000000⟩⟩ ⟨2⟩ false, .record ⟨10, ⟨2000000⟩⟩ ⟨2⟩ false,
        .record ⟨19, ⟨3000000⟩⟩ ⟨2⟩ true, .record ⟨21, ⟨4000000⟩⟩ ⟨2⟩ false]
      ∧ (∀ c ∈ calls, c.From 10) ∧ log.GoesForward calls
      ∧ (log.queuedIn calls).map (fun m => (m.baseSeq, m.statusCount)) = [(10, 3), (19, 1)]
      ∧ (log.run calls).pending = [21]
      ∧ (log.queuedIn calls).Pairwise Message.Precedes
      ∧ ∀ m ∈ log.queuedIn calls, ∀ p, m.Covers p →
        ∀ q ∈ (log.run calls).pending, p.precedes q = true := by
  have hcalls : ∀ c ∈ [Call.record ⟨12, ⟨1000000⟩⟩ ⟨2⟩ false, .record ⟨10, ⟨2000000⟩⟩ ⟨2⟩ false,
      .record ⟨19, ⟨3000000⟩⟩ ⟨2⟩ true, .record ⟨21, ⟨4000000⟩⟩ ⟨2⟩ false], c.From 10 := by
    simp only [List.forall_mem_cons, List.not_mem_nil, false_imp_iff, implies_true, and_true,
      Call.From]
    decide
  -- The sorting is not computed, so the batch is put in order here.
  have hsorted : inOrder [⟨12, ⟨1000000⟩⟩, ⟨10, ⟨2000000⟩⟩]
      = [⟨10, ⟨2000000⟩⟩, ⟨12, ⟨1000000⟩⟩] :=
    inOrder_of_perm _ _ _ (List.Perm.swap _ _ _) (by decide)
  have hthird : ((step { limit := 7, sender := ⟨1⟩ } (.record ⟨12, ⟨1000000⟩⟩ ⟨2⟩ false)).step
        (.record ⟨10, ⟨2000000⟩⟩ ⟨2⟩ false)).step (.record ⟨19, ⟨3000000⟩⟩ ⟨2⟩ true)
      = (append ((windows [⟨10, ⟨2000000⟩⟩, ⟨12, ⟨1000000⟩⟩]).foldl addWindow
        { limit := 7, sender := ⟨1⟩, media := some ⟨2⟩, latest := some 10 })
        ⟨19, ⟨3000000⟩⟩ ⟨2⟩).report := by
    rw [← hsorted]
    rfl
  have hforward : GoesForward { limit := 7, sender := ⟨1⟩ }
      [.record ⟨12, ⟨1000000⟩⟩ ⟨2⟩ false, .record ⟨10, ⟨2000000⟩⟩ ⟨2⟩ false,
        .record ⟨19, ⟨3000000⟩⟩ ⟨2⟩ true, .record ⟨21, ⟨4000000⟩⟩ ⟨2⟩ false] := by
    refine ⟨?_, ?_, ?_, ?_, trivial⟩
    · intro _ hover
      exact absurd hover (by decide)
    · intro _ hover
      exact absurd hover (by decide)
    · intro _ _ q hq
      have hpending : q ∈ [(12 : SeqNum), 10] := hq
      rcases List.mem_pair.1 hpending with rfl | rfl
      · decide
      · decide
    · intro _ hover
      rw [hthird] at hover
      exact absurd hover (by decide +kernel)
  have hqueue : (queuedIn { limit := 7, sender := ⟨1⟩ }
      [.record ⟨12, ⟨1000000⟩⟩ ⟨2⟩ false, .record ⟨10, ⟨2000000⟩⟩ ⟨2⟩ false,
        .record ⟨19, ⟨3000000⟩⟩ ⟨2⟩ true, .record ⟨21, ⟨4000000⟩⟩ ⟨2⟩ false]).map
        (fun m => (m.baseSeq, m.statusCount)) = [(10, 3), (19, 1)] := by
    rw [queuedIn, queuedIn, queuedIn, hthird]
    decide +kernel
  have hlast : (run { limit := 7, sender := ⟨1⟩ }
      [.record ⟨12, ⟨1000000⟩⟩ ⟨2⟩ false, .record ⟨10, ⟨2000000⟩⟩ ⟨2⟩ false,
        .record ⟨19, ⟨3000000⟩⟩ ⟨2⟩ true, .record ⟨21, ⟨4000000⟩⟩ ⟨2⟩ false]).pending = [21] := by
    rw [run, List.foldl_cons, List.foldl_cons, List.foldl_cons, hthird]
    decide +kernel
  rcases queuedIn_pairwise_precedes 41 ⟨1⟩ _ rfl (by decide) 10 _ hcalls hforward with
    ⟨_, hpairwise, hpending⟩
  exact ⟨_, _, rfl, rfl, hcalls, hforward, hqueue, hlast, hpairwise, hpending⟩

-- An arrival that is older than a batch, and too far from it to fit beside it. It
-- makes the batch be reported, and is reported after that itself.
theorem queuedIn_step_back :
    ∃ log calls, start 200 ⟨1⟩ = .ok log
      ∧ calls = [.record ⟨100, ⟨1000000⟩⟩ ⟨2⟩ false, .record ⟨10, ⟨2000000⟩⟩ ⟨2⟩ true]
      ∧ (∀ c ∈ calls, c.From 10)
      ∧ (log.queuedIn calls).map (fun m => (m.baseSeq, m.statusCount)) = [(100, 1), (10, 1)]
      ∧ ¬ (log.queuedIn calls).Pairwise Message.Precedes := by
  have hqueue : (queuedIn { limit := 70, sender := ⟨1⟩ } [.record ⟨100, ⟨1000000⟩⟩ ⟨2⟩ false,
      .record ⟨10, ⟨2000000⟩⟩ ⟨2⟩ true]).map (fun m => (m.baseSeq, m.statusCount))
        = [(100, 1), (10, 1)] := by decide +kernel
  refine ⟨_, _, rfl, rfl, ?_, hqueue, ?_⟩
  · simp only [List.forall_mem_cons, List.not_mem_nil, false_imp_iff, implies_true, and_true,
      Call.From]
    decide
  · intro hpairwise
    rcases List.map_eq_cons_iff.1 hqueue with ⟨m, rest, heq, hm, hrest⟩
    rcases List.map_eq_cons_iff.1 hrest with ⟨m', last, rfl, hm', _⟩
    rw [Prod.mk.injEq] at hm hm'
    rw [heq] at hpairwise
    have hprecedes := List.rel_of_pairwise_cons hpairwise List.mem_cons_self 100 10
      (by rw [Message.Covers, hm.1, hm.2]; decide) (by rw [Message.Covers, hm'.1, hm'.2]; decide)
    exact absurd hprecedes (by decide)

end ArrivalLog

end Feedback

end VideoTransport

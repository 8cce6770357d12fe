import VideoTransport.Feedback.ArrivalLog

/-!
# Reported Batches

Which batches a log of arrivals turns into feedback, over whole runs.

A call can report up to two batches: the one that an arrival does not fit
beside, and the one that begins with that arrival. `reportedBy` lists each
message that a call adds to the queue with the batch it reports on, and
`ready_step` says that nothing else is ever queued. What holds of a
batch between calls therefore has to be shown only once for all messages, and
`Holds` is the part of it that does not depend on losses: a batch never covers
more numbers than fit in a feedback, and only arrivals that were recorded are
in it.

## Main definitions

* `ArrivalLog.makeRoom`: The log that an arrival is added to.
* `Reported`, `Reported.Sound`: A message, with the batch that it reports on.
* `ArrivalLog.reportedBy`, `ArrivalLog.reportedIn`: What a call, or a run, reports.
* `ArrivalLog.queuedIn`: The messages that a run adds to the queue.
* `ArrivalLog.Holds`: A batch fits in a feedback, and holds only certain arrivals.

## Theorems

* `ArrivalLog.ready_report`: A report adds the messages of its windows to the queue.
* `ArrivalLog.ready_step`: What a call adds to the queue is what it reports.
* `ArrivalLog.holds_step`: A call keeps what is known about the batch.
* `ArrivalLog.reportedIn_of_holds`: What is known about the batch holds of all reports.
-/

namespace VideoTransport

namespace Feedback

/-- A message, with the batch of arrivals that it reports on. -/
structure Reported where
  batch : List Arrival
  message : Message

/-- A message is that of a window of its batch, which fits in a feedback and
    holds only arrivals with a property. -/
structure Reported.Sound (P : Arrival → Prop) (limit : Nat) (t : Reported) : Prop where
  span_le : span (t.batch.map Arrival.seq) ≤ limit
  arrivals : ∀ r ∈ t.batch, P r
  window : ∃ w ∈ windows (inOrder t.batch), ∃ sender media count,
    t.message = w.message sender media count

namespace ArrivalLog

theorem limit_foldl_addWindow (ws : List Window) (log : ArrivalLog) :
    (ws.foldl addWindow log).limit = log.limit := by
  induction ws generalizing log with
  | nil => rfl
  | cons w rest ih => exact ih (log.addWindow w)

@[simp] theorem limit_report (log : ArrivalLog) : log.report.limit = log.limit :=
  limit_foldl_addWindow _ _

/-- The messages of some windows, numbered in order. -/
def messages (log : ArrivalLog) (ws : List Window) : List Message :=
  ws.zipIdx.map fun (w, i) =>
    w.message log.sender (log.media.getD ⟨0⟩) (log.feedbackCount + UInt8.ofNat i)

theorem ready_foldl_addWindow (ws : List Window) (log : ArrivalLog) :
    (ws.foldl addWindow log).ready = log.ready ++ log.messages ws := by
  induction ws generalizing log with
  | nil => exact (List.append_nil _).symm
  | cons w rest ih =>
      have hnext : (log.addWindow w).messages rest
          = (rest.zipIdx 1).map fun (w, i) =>
            w.message log.sender (log.media.getD ⟨0⟩) (log.feedbackCount + UInt8.ofNat i) := by
        rw [messages, show rest.zipIdx 1 = rest.zipIdx.map fun (w, i) => (w, i + 1) from
          List.zipIdx_succ, List.map_map]
        apply List.map_congr_left
        intro e _
        simp only [Function.comp_apply, addWindow]
        rw [UInt8.ofNat_add, UInt8.add_assoc, UInt8.add_comm 1]
        rfl
      have hfirst : log.feedbackCount + UInt8.ofNat 0 = log.feedbackCount := UInt8.add_zero _
      rw [List.foldl_cons, ih, hnext, messages, List.zipIdx_cons, List.map_cons]
      simp only [hfirst]
      exact List.append_assoc _ _ _

/-- A report adds the messages of its windows to the queue, in order. -/
theorem ready_report (log : ArrivalLog) :
    log.report.ready = log.ready ++ log.messages (windows (inOrder log.batch)) :=
  ready_foldl_addWindow _ _

-- Every message of some windows is the message of one of them.
theorem mem_messages (log : ArrivalLog) (ws : List Window) (m : Message)
    (h : m ∈ log.messages ws) :
    ∃ w ∈ ws, ∃ count, m = w.message log.sender (log.media.getD ⟨0⟩) count := by
  rcases List.mem_map.1 h with ⟨⟨w, i⟩, hw, hm⟩
  exact ⟨w, (List.mem_zipIdx' hw).2 ▸ List.getElem_mem _, _, hm.symm⟩

/-- The log that an arrival is added to. If the arrival does not fit beside the
    batch, that has been reported. -/
def makeRoom (log : ArrivalLog) (seq : SeqNum) : ArrivalLog :=
  if log.overflows seq then log.report else log

/-- The log with an arrival in its batch, before it is decided whether the batch
    is reported. -/
def join (log : ArrivalLog) (r : Arrival) (ssrc : Ssrc) : ArrivalLog :=
  (log.makeRoom r.seq).append r ssrc

@[simp] theorem pending_report (log : ArrivalLog) : log.report.pending = [] := by
  rw [pending, batch_report]
  rfl

-- Making room adds nothing to the batch.
theorem mem_pending_of_mem_makeRoom (log : ArrivalLog) (seq q : SeqNum)
    (hq : q ∈ (log.makeRoom seq).pending) : q ∈ log.pending := by
  rw [makeRoom] at hq
  split at hq
  · rw [pending_report] at hq
    exact absurd hq List.not_mem_nil
  · exact hq

theorem pending_append (log : ArrivalLog) (r : Arrival) (ssrc : Ssrc) :
    (log.append r ssrc).pending = log.pending ++ [r.seq] := by
  simp only [append, pending, List.map_append, List.map_singleton]

theorem pending_join (log : ArrivalLog) (r : Arrival) (ssrc : Ssrc) :
    (log.join r ssrc).pending = (log.makeRoom r.seq).pending ++ [r.seq] :=
  (log.makeRoom r.seq).pending_append r ssrc

theorem record_eq (log : ArrivalLog) (r : Arrival) (ssrc : Ssrc) (marker : Bool) :
    log.record r ssrc marker
      = if log.ignores r.seq then log
        else if marker || (log.join r ssrc).isLossy then (log.join r ssrc).report
        else log.join r ssrc := rfl

/-- What a report of the batch adds to the queue. -/
def pendingReport (log : ArrivalLog) : List Reported :=
  (log.messages (windows (inOrder log.batch))).map fun m => ⟨log.batch, m⟩

/-- What a call adds to the queue, with the batches that are reported. -/
def reportedBy (log : ArrivalLog) : Call → List Reported
  | .record r ssrc marker =>
    if log.ignores r.seq then []
    else (if log.overflows r.seq then log.pendingReport else [])
      ++ if marker || (log.join r ssrc).isLossy then (log.join r ssrc).pendingReport else []
  | .report => log.pendingReport
  | .poll => []
  | .reset => []

/-- What a run of calls adds to the queue, with the batches that are reported. -/
def reportedIn (log : ArrivalLog) : List Call → List Reported
  | [] => []
  | c :: rest => log.reportedBy c ++ (log.step c).reportedIn rest

/-- The messages that a run of calls adds to the end of the queue, whether they
    are still there in the end or not. -/
def queuedIn (log : ArrivalLog) : List Call → List Message
  | [] => []
  | c :: rest => (log.step c).ready.drop log.ready.length ++ (log.step c).queuedIn rest

theorem message_pendingReport (log : ArrivalLog) :
    log.pendingReport.map Reported.message = log.messages (windows (inOrder log.batch)) := by
  rw [pendingReport, List.map_map]
  exact List.map_id _

theorem ready_makeRoom (log : ArrivalLog) (seq : SeqNum) :
    (log.makeRoom seq).ready = log.ready
      ++ (if log.overflows seq then log.pendingReport else []).map Reported.message := by
  rw [makeRoom]
  by_cases h : log.overflows seq = true
  · rw [if_pos h, if_pos h, message_pendingReport, ready_report]
  · rw [if_neg h, if_neg h, List.map_nil, List.append_nil]

/-- What a call leaves in the queue of what was there before. -/
def kept (log : ArrivalLog) : Call → List Message
  | .record _ _ _ => log.ready
  | .report => log.ready
  | .poll => log.ready.tail
  | .reset => []

/-- What a call adds to the queue is what it reports. -/
theorem ready_step (log : ArrivalLog) (c : Call) :
    (log.step c).ready = log.kept c ++ (log.reportedBy c).map Reported.message := by
  cases c with
  | record r ssrc marker =>
      have hjoin : (log.join r ssrc).ready = log.ready
          ++ (if log.overflows r.seq then log.pendingReport else []).map Reported.message :=
        log.ready_makeRoom r.seq
      rw [step, record_eq, reportedBy, kept]
      by_cases hignores : log.ignores r.seq = true
      · rw [if_pos hignores, if_pos hignores, List.map_nil, List.append_nil]
      · rw [if_neg hignores, if_neg hignores, List.map_append, ← List.append_assoc, ← hjoin]
        by_cases hreport : (marker || (log.join r ssrc).isLossy) = true
        · rw [if_pos hreport, if_pos hreport, ready_report, message_pendingReport]
        · rw [if_neg hreport, if_neg hreport, List.map_nil, List.append_nil]
  | report => rw [reportedBy, step, kept, message_pendingReport, ready_report]
  | poll => exact (List.append_nil _).symm
  | reset => rfl

-- What a call reports is what is new at the end of the queue.
theorem message_reportedBy (log : ArrivalLog) (c : Call) :
    (log.reportedBy c).map Reported.message = (log.step c).ready.drop log.ready.length := by
  rw [ready_step]
  cases c with
  | record r ssrc marker => exact List.drop_left.symm
  | report => exact List.drop_left.symm
  | poll =>
      rw [kept, reportedBy, List.map_nil, List.append_nil, List.drop_eq_nil_of_le]
      rw [List.length_tail]
      exact Nat.sub_le _ _
  | reset => rw [kept, reportedBy, List.map_nil, List.append_nil, List.drop_nil]

theorem message_reportedIn (log : ArrivalLog) (calls : List Call) :
    (log.reportedIn calls).map Reported.message = log.queuedIn calls := by
  induction calls generalizing log with
  | nil => rfl
  | cons c rest ih => rw [reportedIn, queuedIn, List.map_append, message_reportedBy, ih]

/-- Between two calls, the batch fits in a feedback, and only arrivals with a
    property are in it. -/
structure Holds (P : Arrival → Prop) (limit : Nat) (log : ArrivalLog) : Prop where
  limit_eq : log.limit = limit
  span_le : span log.pending ≤ limit
  arrivals : ∀ r ∈ log.batch, P r

/-- A call records nothing but arrivals with a property. -/
def Call.Records (P : Arrival → Prop) : Call → Prop
  | .record r _ _ => P r
  | _ => True

-- A new log knows of nothing but its limit and its sender.
theorem eq_of_start (mtu : Nat) (sender : Ssrc) (log : ArrivalLog) (limit : Nat)
    (h : start mtu sender = .ok log) (hlimit : statusLimit mtu = .ok limit) :
    log = { limit, sender } := by
  rw [start, hlimit] at h
  cases h
  rfl

section Run

variable {P : Arrival → Prop} {limit : Nat}

theorem holds_of_batch_nil (log : ArrivalLog) (hlimit : log.limit = limit) (h : log.batch = []) :
    log.Holds P limit where
  limit_eq := hlimit
  span_le := by
    rw [pending, h]
    exact Nat.zero_le _
  arrivals := by
    rw [h]
    intro r hr
    exact absurd hr List.not_mem_nil

theorem holds_report (log : ArrivalLog) (h : log.Holds P limit) : log.report.Holds P limit :=
  holds_of_batch_nil _ (log.limit_report.trans h.limit_eq) log.batch_report

-- An arrival that has been made room for fits beside the batch. One that is
-- alone in it always fits.
theorem holds_join (log : ArrivalLog) (r : Arrival) (ssrc : Ssrc) (h : log.Holds P limit)
    (hlimit : 1 ≤ limit) (hr : P r) : (log.join r ssrc).Holds P limit := by
  have halone (l : ArrivalLog) (hl : l.limit = limit) (hbatch : l.batch = []) :
      (l.append r ssrc).Holds P limit := by
    refine ⟨hl, ?_, ?_⟩
    · simp only [pending, append, hbatch, List.nil_append, List.map_cons, List.map_nil,
        span_singleton]
      exact hlimit
    · intro q hq
      simp only [append, hbatch, List.nil_append, List.mem_singleton] at hq
      rw [hq]
      exact hr
  rw [join, makeRoom]
  by_cases hover : log.overflows r.seq = true
  · rw [if_pos hover]
    exact halone _ (log.limit_report.trans h.limit_eq) log.batch_report
  · rw [if_neg hover]
    by_cases hbatch : log.batch = []
    · exact halone log h.limit_eq hbatch
    · have hpending : log.hasPending = true := by
        rw [hasPending, Bool.not_eq_true', List.isEmpty_eq_false_iff]
        exact hbatch
      rw [overflows, hpending, Bool.true_and, decide_eq_true_eq, h.limit_eq, Nat.not_lt] at hover
      refine ⟨h.limit_eq, ?_, ?_⟩
      · simp only [pending, append, List.map_append, List.map_cons, List.map_nil]
        exact hover
      · intro q hq
        rcases List.mem_append.1 hq with hq | hq
        · exact h.arrivals q hq
        · rw [List.mem_singleton.1 hq]
          exact hr

/-- A call keeps what is known about the batch. -/
theorem holds_step (log : ArrivalLog) (c : Call) (h : log.Holds P limit) (hlimit : 1 ≤ limit)
    (hc : c.Records P) : (log.step c).Holds P limit := by
  cases c with
  | record r ssrc marker =>
      have hjoin := holds_join log r ssrc h hlimit hc
      rw [step, record_eq]
      by_cases hignores : log.ignores r.seq = true
      · rw [if_pos hignores]
        exact h
      · rw [if_neg hignores]
        by_cases hreport : (marker || (log.join r ssrc).isLossy) = true
        · rw [if_pos hreport]
          exact holds_report _ hjoin
        · rw [if_neg hreport]
          exact hjoin
  | report => exact holds_report log h
  | poll => exact ⟨h.limit_eq, h.span_le, h.arrivals⟩
  | reset => exact holds_of_batch_nil _ h.limit_eq rfl

-- What a log reports is sound if that is known about its batch.
theorem pendingReport_of_holds (log : ArrivalLog) (h : log.Holds P limit) (t : Reported)
    (ht : t ∈ log.pendingReport) : t.Sound P limit := by
  rcases List.mem_map.1 ht with ⟨m, hm, rfl⟩
  rcases log.mem_messages _ m hm with ⟨w, hw, count, heq⟩
  exact ⟨h.span_le, h.arrivals, w, hw, _, _, _, heq⟩

-- What a call reports is sound. The second of its two batches is the one that
-- the arrival has joined.
theorem reportedBy_of_holds (log : ArrivalLog) (c : Call) (h : log.Holds P limit)
    (hlimit : 1 ≤ limit) (hc : c.Records P) (t : Reported) (ht : t ∈ log.reportedBy c) :
    t.Sound P limit := by
  cases c with
  | record r ssrc marker =>
      rw [reportedBy] at ht
      by_cases hignores : log.ignores r.seq = true
      · rw [if_pos hignores] at ht
        exact absurd ht List.not_mem_nil
      · rw [if_neg hignores] at ht
        rcases List.mem_append.1 ht with ht | ht
        · exact log.pendingReport_of_holds h t (List.mem_ite_nil_right.1 ht).2
        · exact (log.join r ssrc).pendingReport_of_holds (holds_join log r ssrc h hlimit hc) t
            (List.mem_ite_nil_right.1 ht).2
  | report => exact log.pendingReport_of_holds h t ht
  | poll => exact absurd ht List.not_mem_nil
  | reset => exact absurd ht List.not_mem_nil

/-- What a run reports is sound. -/
theorem reportedIn_of_holds (log : ArrivalLog) (calls : List Call) (h : log.Holds P limit)
    (hlimit : 1 ≤ limit) (hcalls : ∀ c ∈ calls, c.Records P) (t : Reported)
    (ht : t ∈ log.reportedIn calls) : t.Sound P limit := by
  induction calls generalizing log with
  | nil => exact absurd ht List.not_mem_nil
  | cons c rest ih =>
      have hc := hcalls c List.mem_cons_self
      rcases List.mem_append.1 ht with ht | ht
      · exact log.reportedBy_of_holds c h hlimit hc t ht
      · exact ih (log.step c) (log.holds_step c h hlimit hc)
          (fun d hd => hcalls d (List.mem_cons_of_mem c hd)) ht

-- A new log has nothing in its batch, and room for seven statuses at least.
theorem holds_start (mtu : Nat) (sender : Ssrc) (log : ArrivalLog)
    (h : start mtu sender = .ok log) :
    ∃ limit, statusLimit mtu = .ok limit ∧ log.Holds P limit ∧ log.ready = [] := by
  rw [start] at h
  cases hlimit : statusLimit mtu with
  | error e =>
      rw [hlimit] at h
      cases h
  | ok limit =>
      rw [hlimit] at h
      cases h
      exact ⟨limit, rfl, holds_of_batch_nil _ rfl rfl, rfl⟩

end Run

end ArrivalLog

end Feedback

end VideoTransport

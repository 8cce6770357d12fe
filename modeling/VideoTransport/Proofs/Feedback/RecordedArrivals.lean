import VideoTransport.Proofs.Feedback.ReportCursor

/-!
# What Becomes of Recorded Arrivals

A number that has been recorded stays in the batch until the batch is reported,
and then one of the messages says that it has been received. So between any two
moments it is accounted for, unless all is forgotten on purpose. And a number that
is accounted for was in the batch before, or has been recorded since.

Sorting a batch and cutting it into windows loses no number and adds none, and the
statuses of a window that announce a delta are those of its arrivals. What remains
is to follow a number through the calls of a run, forward from where it is recorded,
and back to where it comes from.

## Main definitions

* `Message.Receives`: A message says that a number has been received.
* `ArrivalLog.Accounts`: A number is in the batch after a run, or has been reported.

## Theorems

* `ArrivalLog.receives_of_mem_pending`: A report tells all numbers of the batch.
* `ArrivalLog.mem_pending_of_receives`: It tells no others.
* `ArrivalLog.accounts_of_mem_pending`: What is in the batch is accounted for.
* `ArrivalLog.accounts_of_recorded`: So is what is recorded in the course of a run.
* `ArrivalLog.recorded_of_accounts`: Nothing else is accounted for.
-/

namespace VideoTransport

namespace Feedback

/-- The message says of the number that it has been received. -/
def Message.Receives (m : Message) (q : SeqNum) : Prop :=
  ∃ status, (q, status) ∈ m.statuses ∧ status.isReceived = true

namespace ArrivalLog

/-- After a run of calls the number waits in the batch, or a message that was
    queued in the run says that it has been received. -/
def Accounts (log : ArrivalLog) (calls : List Call) (q : SeqNum) : Prop :=
  q ∈ (log.run calls).pending ∨ ∃ m ∈ log.queuedIn calls, m.Receives q

/-- A call that forgets nothing. -/
def Call.Keeps : Call → Prop
  | .record _ _ _ => True
  | .report => True
  | .poll => True
  | .reset => False

-- Each window has its message.
theorem exists_mem_messages (log : ArrivalLog) (ws : List Window) (w : Window) (h : w ∈ ws) :
    ∃ m ∈ log.messages ws, ∃ sender media count, m = w.message sender media count := by
  rw [← List.zipIdx_map_fst 0 ws] at h
  rcases List.mem_map.1 h with ⟨⟨v, i⟩, hv, rfl⟩
  exact ⟨_, List.mem_map_of_mem hv, _, _, _, rfl⟩

/-- A report tells all numbers of the batch as received. -/
theorem receives_of_mem_pending (log : ArrivalLog) (hspan : span log.pending < 65536) (q : SeqNum)
    (hq : q ∈ log.pending) :
    ∃ m ∈ log.pendingReport.map Reported.message, m.Receives q := by
  rw [message_pendingReport]
  cases hbatch : log.batch with
  | nil =>
      rw [pending, hbatch] at hq
      exact absurd hq List.not_mem_nil
  | cons first rest =>
      rw [pending, hbatch] at hq hspan
      rcases Window.exists_tells_of_mem first.seq (first :: rest) q hq
        (Window.ahead_inOrder first rest) with ⟨w, hw, part, htells, hahead, hqpart⟩
      rcases log.exists_mem_messages _ w hw with ⟨m, hm, sender, media, count, heq⟩
      have hlen := Nat.lt_of_le_of_lt (Window.length_statuses_le _ w hw) hspan
      rw [← Window.received_number first.seq w part htells hahead,
        ← w.statuses_message sender media count hlen, ← heq] at hqpart
      rcases List.mem_map.1 hqpart with ⟨⟨seq, status⟩, hentry, rfl⟩
      exact ⟨m, hm, status, List.mem_filter.1 hentry⟩

/-- A report tells nothing as received but numbers of the batch. -/
theorem mem_pending_of_receives (log : ArrivalLog) (hspan : span log.pending < 65536) (m : Message)
    (hm : m ∈ log.pendingReport.map Reported.message) (q : SeqNum) (h : m.Receives q) :
    q ∈ log.pending := by
  rw [message_pendingReport] at hm
  rcases log.mem_messages _ m hm with ⟨w, hw, count, rfl⟩
  rcases h with ⟨status, hstatus, hreceived⟩
  have hlen := Nat.lt_of_le_of_lt (Window.length_statuses_le _ w hw) hspan
  rcases Window.tells_of_mem_windows _ w hw with ⟨before, part, after, hsplit, htells⟩
  rw [pending]
  cases hbatch : log.batch with
  | nil =>
      rw [hbatch] at hw
      exact absurd hw List.not_mem_nil
  | cons first rest =>
      rw [hbatch] at hsplit
      have hahead := Window.ahead_of_piece first rest before part after hsplit
      rw [w.statuses_message _ _ _ hlen] at hstatus
      have hentry : (q, status) ∈ (Message.number w.base w.statuses).filter fun e =>
          e.2.isReceived := List.mem_filter.2 ⟨hstatus, hreceived⟩
      have hqpart := List.mem_map_of_mem (f := Prod.fst) hentry
      rw [Window.received_number first.seq w part htells hahead] at hqpart
      exact Window.seq_mem_of_piece _ before part after q hsplit hqpart

-- An arrival joins what is left of the batch.
theorem mem_pending_of_mem_join (log : ArrivalLog) (r : Arrival) (ssrc : Ssrc) (q : SeqNum)
    (hq : q ∈ (log.join r ssrc).pending) : q ∈ log.pending ∨ q = r.seq := by
  rw [pending_join] at hq
  rcases List.mem_append.1 hq with hq | hq
  · exact Or.inl (log.mem_pending_of_mem_makeRoom r.seq q hq)
  · exact Or.inr (List.mem_singleton.1 hq)

section Run

variable {limit : Nat}

-- An arrival that is not passed over joins the batch, and of what was there
-- before nothing is lost.
theorem mem_join_of_mem (log : ArrivalLog) (r : Arrival) (ssrc : Ssrc)
    (hspan : span log.pending < 65536) (q : SeqNum) (hq : q ∈ log.pending ∨ q = r.seq) :
    q ∈ (log.join r ssrc).pending
      ∨ ∃ m ∈ (if log.overflows r.seq then log.pendingReport else []).map Reported.message,
        m.Receives q := by
  rw [pending_join]
  rcases hq with hq | hq
  · by_cases hover : log.overflows r.seq = true
    · rw [if_pos hover]
      exact Or.inr (log.receives_of_mem_pending hspan q hq)
    · rw [makeRoom, if_neg hover]
      exact Or.inl (List.mem_append_left _ hq)
  · rw [hq]
    exact Or.inl List.mem_concat_self

/-- A call that records an arrival keeps track of it, and of the batch. -/
theorem mem_record_of_mem (log : ArrivalLog) (r : Arrival) (ssrc : Ssrc) (marker : Bool)
    (h : log.Holds (fun _ => True) limit) (hpos : 1 ≤ limit) (hlimit : limit < 65536)
    (hignores : log.ignores r.seq = false) (q : SeqNum) (hq : q ∈ log.pending ∨ q = r.seq) :
    q ∈ (log.step (.record r ssrc marker)).pending
      ∨ ∃ m ∈ (log.reportedBy (.record r ssrc marker)).map Reported.message, m.Receives q := by
  have hjoin := log.holds_join r ssrc h hpos trivial
  have hnot : ¬ log.ignores r.seq = true :=
    ne_true_of_eq_false hignores
  rw [step, record_eq, reportedBy, if_neg hnot, if_neg hnot, List.map_append]
  rcases log.mem_join_of_mem r ssrc (Nat.lt_of_le_of_lt h.span_le hlimit) q hq with
    hmem | ⟨m, hm, hreceives⟩
  · by_cases hreport : (marker || (log.join r ssrc).isLossy) = true
    · rcases (log.join r ssrc).receives_of_mem_pending
        (Nat.lt_of_le_of_lt hjoin.span_le hlimit) q hmem with ⟨m, hm, hreceives⟩
      rw [if_pos hreport, if_pos hreport]
      exact Or.inr ⟨m, List.mem_append_right _ hm, hreceives⟩
    · rw [if_neg hreport]
      exact Or.inl hmem
  · exact Or.inr ⟨m, List.mem_append_left _ hm, hreceives⟩

-- A call that forgets nothing keeps track of the batch.
theorem mem_step_of_mem (log : ArrivalLog) (c : Call) (h : log.Holds (fun _ => True) limit)
    (hpos : 1 ≤ limit) (hlimit : limit < 65536) (hc : c.Keeps) (q : SeqNum) (hq : q ∈ log.pending) :
    q ∈ (log.step c).pending
      ∨ ∃ m ∈ (log.reportedBy c).map Reported.message, m.Receives q := by
  cases c with
  | record r ssrc marker =>
      by_cases hignores : log.ignores r.seq = true
      · rw [step, record_eq, if_pos hignores]
        exact Or.inl hq
      · rw [Bool.not_eq_true] at hignores
        exact log.mem_record_of_mem r ssrc marker h hpos hlimit hignores q (Or.inl hq)
  | report => exact Or.inr (log.receives_of_mem_pending (Nat.lt_of_le_of_lt h.span_le hlimit) q hq)
  | poll => exact Or.inl hq
  | reset => exact absurd hc (by rw [Call.Keeps]; exact not_false)

theorem call_records (c : Call) : c.Records fun _ => True := by
  cases c with
  | record r ssrc marker => exact trivial
  | report => exact trivial
  | poll => exact trivial
  | reset => exact trivial

theorem holds_run (log : ArrivalLog) (calls : List Call) (h : log.Holds (fun _ => True) limit)
    (hpos : 1 ≤ limit) : (log.run calls).Holds (fun _ => True) limit := by
  induction calls generalizing log with
  | nil => exact h
  | cons c rest ih => exact ih _ (log.holds_step c h hpos (call_records c))

-- What is accounted for in a run is accounted for after its first call, or reported
-- by that.
theorem accounts_cons (log : ArrivalLog) (c : Call) (rest : List Call) (q : SeqNum) :
    log.Accounts (c :: rest) q ↔ (log.step c).Accounts rest q
      ∨ ∃ m ∈ (log.reportedBy c).map Reported.message, m.Receives q := by
  rw [message_reportedBy]
  constructor
  · rintro (hmem | ⟨m, hm, hreceives⟩)
    · exact Or.inl (Or.inl hmem)
    · rcases List.mem_append.1 hm with hm | hm
      · exact Or.inr ⟨m, hm, hreceives⟩
      · exact Or.inl (Or.inr ⟨m, hm, hreceives⟩)
  · rintro ((hmem | ⟨m, hm, hreceives⟩) | ⟨m, hm, hreceives⟩)
    · exact Or.inl hmem
    · exact Or.inr ⟨m, List.mem_append_right _ hm, hreceives⟩
    · exact Or.inr ⟨m, List.mem_append_left _ hm, hreceives⟩

/-- What is in the batch is accounted for after any run that forgets nothing. -/
theorem accounts_of_mem_pending (log : ArrivalLog) (calls : List Call)
    (h : log.Holds (fun _ => True) limit) (hpos : 1 ≤ limit) (hlimit : limit < 65536)
    (hcalls : ∀ c ∈ calls, c.Keeps) (q : SeqNum) (hq : q ∈ log.pending) :
    log.Accounts calls q := by
  induction calls generalizing log with
  | nil => exact Or.inl hq
  | cons c rest ih =>
      rw [accounts_cons]
      refine (log.mem_step_of_mem c h hpos hlimit (hcalls c List.mem_cons_self) q hq).imp_left ?_
      exact ih _ (log.holds_step c h hpos (call_records c))
        fun d hd => hcalls d (List.mem_cons_of_mem _ hd)

/-- What is recorded in the course of a run is accounted for at its end, if it is
    not passed over at the time. -/
theorem accounts_of_recorded (log : ArrivalLog) (front rest : List Call) (r : Arrival) (ssrc : Ssrc)
    (marker : Bool) (h : log.Holds (fun _ => True) limit) (hpos : 1 ≤ limit) (hlimit : limit < 65536)
    (hrest : ∀ c ∈ rest, c.Keeps) (hignores : (log.run front).ignores r.seq = false) :
    log.Accounts (front ++ .record r ssrc marker :: rest) r.seq := by
  induction front generalizing log with
  | nil =>
      rw [List.nil_append, accounts_cons]
      refine (log.mem_record_of_mem r ssrc marker h hpos hlimit hignores r.seq
        (Or.inr rfl)).imp_left ?_
      exact accounts_of_mem_pending _ rest (log.holds_step _ h hpos (call_records _)) hpos hlimit hrest
        r.seq
  | cons c front ih =>
      rw [List.cons_append, accounts_cons]
      exact Or.inl (ih _ (log.holds_step c h hpos (call_records c)) hignores)

-- Where a number comes from that a call leaves in the batch, or reports, when it
-- records an arrival. It was in the batch with the arrival, or was reported to make
-- room for that.
theorem mem_pending_of_mem_record (log : ArrivalLog) (r : Arrival) (ssrc : Ssrc) (marker : Bool)
    (h : log.Holds (fun _ => True) limit) (hpos : 1 ≤ limit) (hlimit : limit < 65536)
    (hignores : log.ignores r.seq = false) (q : SeqNum)
    (hq : q ∈ (log.step (.record r ssrc marker)).pending
      ∨ ∃ m ∈ (log.reportedBy (.record r ssrc marker)).map Reported.message, m.Receives q) :
    q ∈ log.pending ∨ q = r.seq := by
  have hspan := Nat.lt_of_le_of_lt h.span_le hlimit
  have hspanJoin := Nat.lt_of_le_of_lt (log.holds_join r ssrc h hpos trivial).span_le hlimit
  have hnot : ¬ log.ignores r.seq = true :=
    ne_true_of_eq_false hignores
  rw [step, record_eq, reportedBy, if_neg hnot, if_neg hnot, List.map_append] at hq
  rcases hq with hq | ⟨m, hm, hreceives⟩
  · split at hq
    · rw [pending_report] at hq
      exact absurd hq List.not_mem_nil
    · exact log.mem_pending_of_mem_join r ssrc q hq
  · rcases List.mem_append.1 hm with hm | hm
    · split at hm
      · exact Or.inl (log.mem_pending_of_receives hspan m hm q hreceives)
      · exact absurd hm List.not_mem_nil
    · split at hm
      · have hjoined := (log.join r ssrc).mem_pending_of_receives hspanJoin m hm q hreceives
        exact log.mem_pending_of_mem_join r ssrc q hjoined
      · exact absurd hm List.not_mem_nil

-- A call that leaves a number in the batch, or reports it, has found it there or
-- records it.
theorem recorded_of_mem_step (log : ArrivalLog) (c : Call) (h : log.Holds (fun _ => True) limit)
    (hpos : 1 ≤ limit) (hlimit : limit < 65536) (q : SeqNum)
    (hq : q ∈ (log.step c).pending
      ∨ ∃ m ∈ (log.reportedBy c).map Reported.message, m.Receives q) :
    q ∈ log.pending
      ∨ ∃ r ssrc marker, c = .record r ssrc marker ∧ r.seq = q ∧ log.ignores q = false := by
  have hspan := Nat.lt_of_le_of_lt h.span_le hlimit
  cases c with
  | record r ssrc marker =>
      by_cases hignores : log.ignores r.seq = true
      · rw [step, record_eq, reportedBy, if_pos hignores, if_pos hignores] at hq
        rcases hq with hq | ⟨m, hm, _⟩
        · exact Or.inl hq
        · exact absurd hm List.not_mem_nil
      · rw [Bool.not_eq_true] at hignores
        rcases log.mem_pending_of_mem_record r ssrc marker h hpos hlimit hignores q hq with hq | rfl
        · exact Or.inl hq
        · exact Or.inr ⟨r, ssrc, marker, rfl, rfl, hignores⟩
  | report =>
      rcases hq with hq | ⟨m, hm, hreceives⟩
      · rw [step, pending_report] at hq
        exact absurd hq List.not_mem_nil
      · exact Or.inl (log.mem_pending_of_receives hspan m hm q hreceives)
  | poll =>
      rcases hq with hq | ⟨m, hm, _⟩
      · exact Or.inl hq
      · exact absurd hm List.not_mem_nil
  | reset =>
      rcases hq with hq | ⟨m, hm, _⟩
      · exact absurd hq List.not_mem_nil
      · exact absurd hm List.not_mem_nil

/-- What is accounted for at the end of a run was in the batch at its beginning, or is
    recorded in the course of it and not passed over at the time. -/
theorem recorded_of_accounts (log : ArrivalLog) (calls : List Call)
    (h : log.Holds (fun _ => True) limit) (hpos : 1 ≤ limit) (hlimit : limit < 65536) (q : SeqNum)
    (hq : log.Accounts calls q) :
    q ∈ log.pending ∨ ∃ front r ssrc marker rest, calls = front ++ .record r ssrc marker :: rest
      ∧ r.seq = q ∧ (log.run front).ignores q = false := by
  induction calls generalizing log with
  | nil =>
      rcases hq with hq | ⟨m, hm, _⟩
      · exact Or.inl hq
      · exact absurd hm List.not_mem_nil
  | cons c rest ih =>
      have hstep (hq : q ∈ (log.step c).pending
          ∨ ∃ m ∈ (log.reportedBy c).map Reported.message, m.Receives q) :
          q ∈ log.pending ∨ ∃ front r ssrc marker back,
            c :: rest = front ++ .record r ssrc marker :: back
              ∧ r.seq = q ∧ (log.run front).ignores q = false := by
        refine (log.recorded_of_mem_step c h hpos hlimit q hq).imp_right ?_
        rintro ⟨r, ssrc, marker, rfl, hseq, hignores⟩
        exact ⟨[], r, ssrc, marker, rest, rfl, hseq, hignores⟩
      rcases (log.accounts_cons c rest q).1 hq with hrest | hnow
      · rcases ih _ (log.holds_step c h hpos (call_records c)) hrest with
          hmem | ⟨front, r, ssrc, marker, back, hsplit, hseq, hignores⟩
        · exact hstep (Or.inl hmem)
        · refine Or.inr ⟨c :: front, r, ssrc, marker, back, ?_, hseq, hignores⟩
          rw [hsplit, List.cons_append]
      · exact hstep (Or.inr hnow)

end Run

end ArrivalLog

end Feedback

end VideoTransport

import VideoTransport.Proofs.Feedback.BatchReports

/-!
# Logs After a Reset

A log of arrivals that has been reset can be told from a new one by nothing but the
running numbers of its feedback, whatever is asked of the two.

A reset keeps the running number, so the two logs are not equal, and they stay different.
But they differ in a way that every call keeps: all running numbers, of the
feedback that waits and of the feedback to come, are larger by the same amount. No call
looks at a running number to decide anything. So the two go on side by side, and what they
give out differs by that amount as well, which counts modulo 256.

How large it is, is how much feedback the log had made before the reset.

## Main definitions

* `Message.renumber`, `ArrivalLog.renumber`: The same with larger running numbers.
* `ArrivalLog.Request`, `ArrivalLog.Answer`: What can be asked of a log, and what is seen of it.
* `ArrivalLog.answers`: The answers to some requests in a row.

## Theorems

* `ArrivalLog.step_renumber`: A call keeps the difference in running numbers.
* `ArrivalLog.answers_renumber`: Answers differ by that as well.
* `ArrivalLog.reset_run`: A reset leaves nothing of a run but its running numbers.
* `ArrivalLog.answers_reset`: A reset is a fresh start.
-/

namespace VideoTransport

namespace Feedback

/-- The message with a running number that is larger by `k`, counted modulo 256. -/
def Message.renumber (k : UInt8) (m : Message) : Message :=
  { m with feedbackCount := m.feedbackCount + k }

namespace ArrivalLog

/-- The log with running numbers that are larger by `k`: that of the next feedback, and
    those of the feedback that waits. -/
def renumber (k : UInt8) (log : ArrivalLog) : ArrivalLog :=
  { log with
    feedbackCount := log.feedbackCount + k
    ready := log.ready.map (Message.renumber k) }

/-- What can be asked of a log. -/
inductive Request where
  | call (c : Call)
  /-- Whether there are arrivals that have not been reported. -/
  | hasPending

/-- What is seen of a request. -/
inductive Answer where
  /-- Nothing. -/
  | done
  /-- The oldest feedback, if there is any. -/
  | feedback (m : Option Message)
  | pending (waits : Bool)
deriving DecidableEq

/-- The answer with a running number that is larger by `k`, if there is one in it. -/
def Answer.renumber (k : UInt8) : Answer → Answer
  | done => done
  | feedback m => feedback (m.map (Message.renumber k))
  | pending waits => pending waits

/-- The answer to a request. Of the calls, only the question for feedback has one. -/
def answer (log : ArrivalLog) : Request → Answer
  | .call .poll => .feedback log.poll.1
  | .call _ => .done
  | .hasPending => .pending log.hasPending

/-- The log after a request. -/
def after (log : ArrivalLog) : Request → ArrivalLog
  | .call c => log.step c
  | .hasPending => log

/-- The answers to some requests, one after the other. -/
def answers (log : ArrivalLog) : List Request → List Answer
  | [] => []
  | q :: rest => log.answer q :: (log.after q).answers rest

section Renumbered

variable (k : UInt8)

theorem addWindow_renumber (log : ArrivalLog) (w : Window) :
    (log.renumber k).addWindow w = (log.addWindow w).renumber k := by
  have hnext : log.feedbackCount + k + 1 = log.feedbackCount + 1 + k := by
    rw [UInt8.add_assoc, UInt8.add_comm k, UInt8.add_assoc]
  simp only [addWindow, renumber, hnext, List.map_append, List.map_cons, List.map_nil]
  rfl

theorem foldl_addWindow_renumber (ws : List Window) (log : ArrivalLog) :
    ws.foldl addWindow (log.renumber k) = (ws.foldl addWindow log).renumber k := by
  induction ws generalizing log with
  | nil => rfl
  | cons w rest ih => rw [List.foldl_cons, List.foldl_cons, addWindow_renumber, ih]

theorem report_renumber (log : ArrivalLog) :
    (log.renumber k).report = log.report.renumber k :=
  foldl_addWindow_renumber k _ { log with batch := [] }

theorem join_renumber (log : ArrivalLog) (r : Arrival) (ssrc : Ssrc) :
    (log.renumber k).join r ssrc = (log.join r ssrc).renumber k := by
  have hroom : (log.renumber k).makeRoom r.seq = (log.makeRoom r.seq).renumber k := by
    rw [makeRoom, makeRoom, report_renumber]
    change (if log.overflows r.seq then log.report.renumber k else log.renumber k) = _
    split
    · rfl
    · rfl
  rw [join, hroom]
  rfl

/-- A call keeps the difference in running numbers: none of its decisions depends on
    them. -/
theorem step_renumber (log : ArrivalLog) (c : Call) :
    (log.renumber k).step c = (log.step c).renumber k := by
  cases c with
  | record r ssrc marker =>
      have hjoin := join_renumber k log r ssrc
      simp only [step, record_eq, hjoin, report_renumber]
      change (if log.ignores r.seq then _
        else if marker || (log.join r ssrc).isLossy then _ else _) = _
      split
      · rfl
      · split
        · rfl
        · rfl
  | report => exact report_renumber k log
  | poll =>
      simp only [step, poll, renumber, List.map_tail]
  | reset => rfl

theorem answer_renumber (log : ArrivalLog) (q : Request) :
    (log.renumber k).answer q = (log.answer q).renumber k := by
  cases q with
  | call c =>
      cases c with
      | poll =>
          simp only [answer, poll, renumber, Answer.renumber, List.head?_map]
      | _ => rfl
  | hasPending => rfl

/-- What is seen of two logs that differ in running numbers differs by them, and by
    nothing else. -/
theorem answers_renumber (log : ArrivalLog) (requests : List Request) :
    (log.renumber k).answers requests = (log.answers requests).map (Answer.renumber k) := by
  induction requests generalizing log with
  | nil => rfl
  | cons q rest ih =>
      have hafter : (log.renumber k).after q = (log.after q).renumber k := by
        cases q with
        | call c => exact step_renumber k log c
        | hasPending => rfl
      rw [answers, answers, List.map_cons, answer_renumber, hafter, ih]

end Renumbered

/-- What a log is made with. -/
def made (log : ArrivalLog) : Nat × Ssrc :=
  (log.limit, log.sender)

theorem made_report (log : ArrivalLog) : log.report.made = log.made := by
  have hfold (ws : List Window) (log : ArrivalLog) : (ws.foldl addWindow log).made = log.made := by
    induction ws generalizing log with
    | nil => rfl
    | cons w rest ih => exact ih (log.addWindow w)
  exact hfold _ _

theorem made_step (log : ArrivalLog) (c : Call) : (log.step c).made = log.made := by
  cases c with
  | record r ssrc marker =>
      have hjoin : (log.join r ssrc).made = log.made := by
        change (log.makeRoom r.seq).made = _
        rw [makeRoom]
        split
        · exact log.made_report
        · rfl
      rw [step, record_eq]
      split
      · rfl
      · split
        · rw [made_report, hjoin]
        · exact hjoin
  | report => exact log.made_report
  | poll => rfl
  | reset => rfl

theorem made_run (log : ArrivalLog) (calls : List Call) : (log.run calls).made = log.made := by
  induction calls generalizing log with
  | nil => rfl
  | cons c rest ih => exact (ih (log.step c)).trans (log.made_step c)

/-- A reset leaves nothing of a run, but that running numbers go on behind those that the
    run has used. -/
theorem reset_run (log : ArrivalLog) (calls : List Call) :
    (log.run calls).reset
      = log.reset.renumber (UInt8.ofNat (log.queuedIn calls).length) := by
  have hmade := log.made_run calls
  rw [made, made, Prod.mk.injEq] at hmade
  have hcount := (log.numbers_run calls).next_eq
  simp only [reset, renumber, List.map_nil, hmade.1, hmade.2, hcount]

/-- A reset is a fresh start. Whatever is asked of a log after a reset, it answers what a
    new log for packets of the same size and the same source answers. Only the running
    numbers of the feedback differ, and all of them by how much feedback had been
    made before the reset, modulo 256. -/
theorem answers_reset (mtu : Nat) (sender : Ssrc) (fresh : ArrivalLog)
    (hstart : start mtu sender = .ok fresh) (before : List Call) (requests : List Request) :
    (fresh.run before).reset.answers requests
      = (fresh.answers requests).map
        (Answer.renumber (UInt8.ofNat (fresh.queuedIn before).length)) := by
  -- A new log has nothing that a reset would forget.
  have hreset : fresh.reset = fresh := by
    cases hlimit : statusLimit mtu with
    | error e =>
        rw [start, hlimit] at hstart
        cases hstart
    | ok limit =>
        rw [eq_of_start mtu sender fresh limit hstart hlimit]
        rfl
  rw [reset_run, answers_renumber, hreset]

-- Before the reset, one feedback has been made and not asked for, and one arrival waits. The
-- number that arrives after it would have come too late otherwise.
theorem answers_reset_waiting :
    ∃ (fresh : ArrivalLog) (before : List Call) (requests : List Request) (m : Message),
      start 1200 ⟨1⟩ = .ok fresh ∧ (fresh.run before).ready.length = 1
        ∧ (fresh.run before).pending = [9] ∧ (fresh.run before).ignores 7 = true
        ∧ fresh.answers requests
          = [.pending false, .done, .pending true, .done, .feedback (some m), .feedback none]
        ∧ (fresh.run before).reset.answers requests
          = [.pending false, .done, .pending true, .done, .feedback (some (m.renumber 1)),
            .feedback none] := by
  let fresh : ArrivalLog := { limit := 511, sender := ⟨1⟩ }
  let before : List Call :=
    [.record ⟨8, .ofMicros 1000⟩ ⟨2⟩ true, .record ⟨9, .ofMicros 2000⟩ ⟨2⟩ false]
  let requests : List Request :=
    [.hasPending, .call (.record ⟨7, .ofMicros 3000⟩ ⟨3⟩ false), .hasPending, .call .report,
      .call .poll, .call .poll]
  let m : Message := ⟨⟨1⟩, ⟨3⟩, 7, 1, 0, 0, [.single 8192], [.small 12]⟩
  have hanswers : fresh.answers requests
      = [.pending false, .done, .pending true, .done, .feedback (some m), .feedback none] := by
    decide +kernel +revert
  have hmade : (fresh.queuedIn before).length = 1 := by
    decide +kernel +revert
  have hreset := answers_reset 1200 ⟨1⟩ fresh rfl before requests
  rw [hanswers, hmade] at hreset
  exact ⟨fresh, before, requests, m, rfl, by decide +kernel +revert, by decide +kernel +revert,
    by decide +kernel +revert, hanswers, hreset⟩

end ArrivalLog

end Feedback

end VideoTransport

import VideoTransport.Proofs.Feedback.RecordedArrivals

/-!
# Arrivals in Order

What becomes of packets that arrive in the order of their numbers.

An arrival is passed over for one of two reasons. It may have the number recorded
last, but that never happens to consecutive numbers: the one recorded last is
among those before it, and it takes a whole turn for a number to come again. Or
it is late, and that depends on how far the cursor has got.

Usually no arrival in a row is late. The cursor does not get past the arrivals
themselves, since a batch ends with the last of them. For this they have to be
in front: newer than all that waits in the batch, and not older than the cursor,
nor so far ahead of it that it looks the other way round. `InFront` is that, and
it stays true from one arrival to the next.

A row need not begin in front. Its first number may be recorded behind a newer one
of the batch, and then the batch goes past what follows on it, and reports that as
not received. Or the sender has begun to count anew. A number 2048 or more behind
the cursor is recorded for that reason, but the cursor stays where it is, and the row
runs into it from behind: when 3000 has been reported, 952 is recorded, and 953, which
follows on it, is late. What becomes of such a row is the matter of `Trails`.

## Main definitions

* `ArrivalLog.Consecutive`: Calls that record consecutive numbers.
* `ArrivalLog.InFront`: The number recorded last is in front of all others.
* `ArrivalLog.Leads`: What an arrival needs so that it is in front.

## Theorems

* `ArrivalLog.front_eq_of_consecutive`: A number comes once in a row.
* `ArrivalLog.ignores_of_consecutive`: A number in a row is no repetition.
* `ArrivalLog.InFront.ignores_next`: What follows on the number in front is not passed over.
* `ArrivalLog.InFront.record`: The number recorded next is in front itself.
* `ArrivalLog.InFront.ignores_of_consecutive`: No number of a row that follows on it is.
* `ArrivalLog.inFront_of_leads`: An arrival that leads is in front.
-/

namespace VideoTransport

namespace Feedback

-- No number is as far ahead of another as the span of both, nor as far behind.
theorem distance_within_span (numbers : List SeqNum) (p q : SeqNum) (hp : p ∈ numbers)
    (hq : q ∈ numbers) (hspan : span numbers ≤ 32768) :
    -(span numbers : Int) < p.distance q ∧ p.distance q < span numbers := by
  cases numbers with
  | nil => exact absurd hp List.not_mem_nil
  | cons anchor rest =>
      have hforward := sub_lt_span anchor rest p q hp hq
      have hbackward := sub_lt_span anchor rest q p hq hp
      rw [SeqNum.distance_eq_sub_of_lt anchor p q (by omega) (by omega)]
      omega

namespace ArrivalLog

/-- The calls record the numbers that follow on a number, one after the other. -/
def Consecutive (seq : SeqNum) : List Call → Prop
  | [] => True
  | .record r _ _ :: rest => r.seq = seq.next ∧ Consecutive r.seq rest
  | .report :: _ => False
  | .poll :: _ => False
  | .reset :: _ => False

theorem consecutive_cons (seq : SeqNum) (c : Call) (rest : List Call)
    (h : Consecutive seq (c :: rest)) :
    ∃ r ssrc marker, c = .record r ssrc marker ∧ r.seq = seq.next ∧ Consecutive r.seq rest := by
  cases c with
  | record r ssrc marker => exact ⟨r, ssrc, marker, rfl, h⟩
  | report => exact absurd h (by rw [Consecutive]; exact not_false)
  | poll => exact absurd h (by rw [Consecutive]; exact not_false)
  | reset => exact absurd h (by rw [Consecutive]; exact not_false)

theorem keeps_of_consecutive (seq : SeqNum) (calls : List Call) (h : Consecutive seq calls) :
    ∀ c ∈ calls, c.Keeps := by
  induction calls generalizing seq with
  | nil =>
      intro c hc
      exact absurd hc List.not_mem_nil
  | cons c rest ih =>
      rcases consecutive_cons seq c rest h with ⟨r, ssrc, marker, rfl, _, hrest⟩
      intro d hd
      rcases List.mem_cons.1 hd with hd | hd
      · rw [hd]
        exact trivial
      · exact ih r.seq hrest d hd

-- How far an arrival of a row is from where the row begins.
theorem seq_of_consecutive (seq : SeqNum) (front rest : List Call) (r : Arrival) (ssrc : Ssrc)
    (marker : Bool) (hrow : Consecutive seq (front ++ .record r ssrc marker :: rest)) :
    r.seq = seq.advance (front.length + 1) := by
  induction front generalizing seq with
  | nil => exact hrow.1
  | cons c front ih =>
      rcases consecutive_cons _ c _ hrow with ⟨r', ssrc', marker', rfl, hseq, hrest⟩
      rw [ih r'.seq hrest, hseq, SeqNum.next, SeqNum.advance_advance, List.length_cons,
        Nat.add_comm 1]

/-- A number comes once in a row that is shorter than a turn. -/
theorem front_eq_of_consecutive (seq : SeqNum) (front rest front' rest' : List Call)
    (q r : Arrival) (ssrc ssrc' : Ssrc) (marker marker' : Bool)
    (hrow : Consecutive seq (front ++ .record q ssrc marker :: rest))
    (hcount : (front ++ .record q ssrc marker :: rest).length < 65536)
    (hsplit : front ++ .record q ssrc marker :: rest = front' ++ .record r ssrc' marker' :: rest')
    (hseq : r.seq = q.seq) : front = front' := by
  have hq := seq_of_consecutive seq front rest q ssrc marker hrow
  have hlength := congrArg List.length hsplit
  rw [hsplit] at hrow
  have hr := seq_of_consecutive seq front' rest' r ssrc' marker' hrow
  rw [List.length_append, List.length_cons] at hcount hlength
  rw [List.length_append, List.length_cons] at hlength
  rw [hseq, hq] at hr
  have hsame := seq.advance_injective (front.length + 1) (front'.length + 1) (by omega) (by omega) hr
  exact List.append_inj_left hsplit (by omega)

theorem latest_report (log : ArrivalLog) : log.report.latest = log.latest := by
  have hfold (ws : List Window) (log : ArrivalLog) :
      (ws.foldl addWindow log).latest = log.latest := by
    induction ws generalizing log with
    | nil => rfl
    | cons w rest ih => exact ih (log.addWindow w)
  exact hfold _ _

theorem report_of_batch_nil (log : ArrivalLog) (h : log.batch = []) : log.report = log := by
  cases log
  simp only at h
  subst h
  rfl

-- An arrival that is not passed over is the one recorded last, whatever is
-- reported with it.
theorem latest_record (log : ArrivalLog) (r : Arrival) (ssrc : Ssrc) (marker : Bool) :
    (log.record r ssrc marker).latest
      = if log.ignores r.seq then log.latest else some r.seq := by
  rw [record_eq]
  split
  · rfl
  · split
    · exact latest_report _
    · rfl

/-- A number in a row is no repetition, so it can only be passed over as late. -/
theorem ignores_of_consecutive (base : SeqNum) (j : Nat) (log : ArrivalLog) (front rest : List Call)
    (r : Arrival) (ssrc : Ssrc) (marker : Bool)
    (hlatest : ∃ k ≤ j, log.latest = some (base.advance k))
    (hrow : Consecutive (base.advance j) (front ++ .record r ssrc marker :: rest))
    (hcircle : j + front.length + 1 < 65536) :
    (log.run front).ignores r.seq = (log.run front).isLate r.seq := by
  induction front generalizing j log with
  | nil =>
      rcases hlatest with ⟨k, hk, hlatest⟩
      have hseq : r.seq = base.advance (j + 1) := by
        rw [hrow.1, SeqNum.next, SeqNum.advance_advance]
      have hne : ¬ base.advance k = r.seq := by
        intro heq
        rw [hseq] at heq
        rw [List.length_nil] at hcircle
        have hsame := base.advance_injective k (j + 1) (by omega) (by omega) heq
        omega
      have hrepeats : (log.latest == some r.seq) = false := by
        rw [hlatest, beq_eq_false_iff_ne]
        exact fun heq => hne (Option.some.inj heq)
      change log.ignores r.seq = log.isLate r.seq
      rw [ignores, hrepeats, Bool.false_or]
  | cons c front ih =>
      rcases consecutive_cons _ c _ hrow with ⟨r', ssrc', marker', rfl, hseq, hrest⟩
      rw [SeqNum.next, SeqNum.advance_advance] at hseq
      rw [hseq] at hrest
      rw [List.length_cons] at hcircle
      refine ih (j + 1) _ ?_ hrest (by omega)
      rw [step, latest_record, hseq]
      split
      · rcases hlatest with ⟨k, hk, hlatest⟩
        exact ⟨k, by omega, hlatest⟩
      · exact ⟨j + 1, Nat.le_refl _, rfl⟩

/-- The number recorded last is in front: no number of the batch is newer, and
    the cursor has not got past it. The cursor is also near enough to stay behind
    until the batch is reported, which covers no more numbers than the limit. -/
structure InFront (limit : Nat) (log : ArrivalLog) (seq : SeqNum) : Prop where
  holds : log.Holds (fun _ => True) limit
  latest : log.latest = some seq
  newest : ∀ q ∈ log.pending, 0 ≤ q.distance seq
  joined : log.pending = [] ∨ seq ∈ log.pending
  cursor : ∀ t, log.reportedTo = some t → 0 ≤ t.distance seq
  near : ∀ t, log.reportedTo = some t →
    (log.pending = [] ∧ t.distance seq + limit < 32768)
      ∨ ∃ p ∈ log.pending, t.distance p + limit ≤ 32768

namespace InFront

variable {limit : Nat} {log : ArrivalLog} {seq : SeqNum}

/-- What follows on the number in front is not passed over. -/
theorem ignores_next (h : log.InFront limit seq) : log.ignores seq.next = false := by
  have hrepeats : (log.latest == some seq.next) = false := by
    rw [h.latest, beq_eq_false_iff_ne]
    intro heq
    have hsame := seq.advance_injective 0 1 (by decide) (by decide)
      (seq.advance_zero.trans (Option.some.inj heq))
    exact absurd hsame (by decide)
  have hlate : log.isLate seq.next = false := by
    rw [isLate]
    cases ht : log.reportedTo with
    | none => rfl
    | some t =>
        have hcursor := h.cursor t ht
        simp only
        rcases t.distance_next seq hcursor with hnext | hnext
        · rw [hnext, decide_eq_false (by omega), Bool.false_and]
        · rw [hnext]
          rfl
  rw [ignores, hrepeats, hlate, Bool.or_false]

/-- The number is still in front after a report. -/
theorem report (h : log.InFront limit seq) (hlimit : limit < 32768) :
    log.report.InFront limit seq := by
  by_cases hnil : log.pending = []
  · rw [report_of_batch_nil log (List.map_eq_nil_iff.1 hnil)]
    exact h
  · have hspan := h.holds.span_le
    have hcursor := log.reportedTo_report_of_newest seq (by omega) h.newest h.cursor
      (Or.inr (h.joined.resolve_left hnil))
    refine ⟨log.holds_report h.holds, (latest_report log).trans h.latest, ?_,
      Or.inl log.pending_report, ?_, ?_⟩
    · intro q hq
      rw [pending_report] at hq
      exact absurd hq List.not_mem_nil
    · intro t ht
      rw [hcursor] at ht
      cases ht
      exact Int.le_of_eq seq.distance_self.symm
    · intro t ht
      rw [hcursor] at ht
      cases ht
      rw [seq.distance_self]
      exact Or.inl ⟨log.pending_report, by omega⟩

/-- The next number is one further from the cursor, if it is so from the batch:
    the cursor is not so far behind that the next number looks older than it. -/
theorem distance_next_of_cursor (h : log.InFront limit seq) (hpos : 1 ≤ limit)
    (hbatch : ∀ q ∈ log.pending, q.distance seq + 1 < limit) (t : SeqNum)
    (ht : log.reportedTo = some t) : t.distance seq.next = t.distance seq + 1 := by
  have hnear : t.distance seq + 1 < 32768 := by
    rcases h.near t ht with ⟨_, hnear⟩ | ⟨p, hp, hnear⟩
    · omega
    · have hstep := hbatch p hp
      rw [SeqNum.distance_add t p seq (h.newest p hp) (by omega)]
      omega
  exact SeqNum.distance_advance t seq 1 hnear

-- An arrival that is appended to the batch is in front of it, if it is the next
-- one and fits.
theorem append (h : log.InFront limit seq) (hpos : 1 ≤ limit) (hlimit : limit < 32768) (r : Arrival)
    (ssrc : Ssrc) (hr : r.seq = seq.next)
    (hholds : (log.append r ssrc).Holds (fun _ => True) limit) :
    (log.append r ssrc).InFront limit r.seq := by
  have hpending := log.pending_append r ssrc
  have hself := r.seq.distance_self
  have hspan := hholds.span_le
  rw [hpending] at hspan
  have hbatch (q : SeqNum) (hq : q ∈ log.pending) :
      q.distance r.seq = q.distance seq + 1 ∧ q.distance r.seq < limit := by
    have hspanOld := h.holds.span_le
    have hold := distance_within_span log.pending q seq hq
      (h.joined.resolve_left (List.ne_nil_of_mem hq)) (by omega)
    have hnew := distance_within_span (log.pending ++ [r.seq]) q r.seq
      (List.mem_append_left _ hq) List.mem_concat_self (by omega)
    refine ⟨?_, by omega⟩
    rw [hr, SeqNum.next, SeqNum.distance_advance q seq 1 (by omega)]
    rfl
  have hcursor (t : SeqNum) (ht : log.reportedTo = some t) :
      t.distance r.seq = t.distance seq + 1 := by
    rw [hr]
    refine h.distance_next_of_cursor hpos (fun q hq => ?_) t ht
    have hstep := hbatch q hq
    omega
  refine ⟨hholds, rfl, ?_, ?_, ?_, ?_⟩
  · intro q hq
    rw [hpending] at hq
    rcases List.mem_append.1 hq with hq | hq
    · have hnewest := h.newest q hq
      rw [(hbatch q hq).1]
      omega
    · rw [List.mem_singleton.1 hq, hself]
  · rw [hpending]
    exact Or.inr List.mem_concat_self
  · intro t ht
    have hold := h.cursor t ht
    rw [hcursor t ht]
    omega
  · intro t ht
    rw [hpending]
    rcases h.near t ht with ⟨_, hnear⟩ | ⟨p, hp, hnear⟩
    · refine Or.inr ⟨r.seq, List.mem_concat_self, ?_⟩
      rw [hcursor t ht]
      omega
    · exact Or.inr ⟨p, List.mem_append_left _ hp, hnear⟩

/-- The next arrival is in front of the batch that it joins. -/
theorem join (h : log.InFront limit seq) (hpos : 1 ≤ limit) (hlimit : limit < 32768) (r : Arrival)
    (ssrc : Ssrc) (hr : r.seq = seq.next) : (log.join r ssrc).InFront limit r.seq := by
  have hholds := log.holds_join r ssrc h.holds hpos trivial
  rw [ArrivalLog.join, makeRoom] at hholds ⊢
  by_cases hover : log.overflows r.seq = true
  · rw [if_pos hover] at hholds ⊢
    exact (h.report hlimit).append hpos hlimit r ssrc hr hholds
  · rw [if_neg hover] at hholds ⊢
    exact h.append hpos hlimit r ssrc hr hholds

-- An arrival that is in front of the batch that it joins is so when that has been
-- reported or not.
theorem record_of_join (r : Arrival) (ssrc : Ssrc) (marker : Bool) (hlimit : limit < 32768)
    (hignores : log.ignores r.seq = false) (hjoin : (log.join r ssrc).InFront limit r.seq) :
    (log.record r ssrc marker).InFront limit r.seq := by
  rw [record_eq, if_neg (ne_true_of_eq_false hignores)]
  split
  · exact hjoin.report hlimit
  · exact hjoin

/-- The next arrival is in front once it has been recorded. -/
theorem record (h : log.InFront limit seq) (hpos : 1 ≤ limit) (hlimit : limit < 32768)
    (r : Arrival) (ssrc : Ssrc) (marker : Bool) (hr : r.seq = seq.next) :
    (log.record r ssrc marker).InFront limit r.seq := by
  refine record_of_join r ssrc marker hlimit ?_ (h.join hpos hlimit r ssrc hr)
  rw [hr]
  exact h.ignores_next

/-- No arrival of a row that follows on the number in front is passed over. -/
theorem ignores_of_consecutive (h : log.InFront limit seq) (hpos : 1 ≤ limit)
    (hlimit : limit < 32768) (front rest : List Call) (r : Arrival) (ssrc : Ssrc) (marker : Bool)
    (hrow : Consecutive seq (front ++ .record r ssrc marker :: rest)) :
    (log.run front).ignores r.seq = false := by
  induction front generalizing log seq with
  | nil =>
      have hr : r.seq = seq.next := hrow.1
      rw [hr]
      exact h.ignores_next
  | cons c front ih =>
      rcases consecutive_cons _ c _ hrow with ⟨r', ssrc', marker', rfl, hseq, hrest⟩
      exact ih (h.record hpos hlimit r' ssrc' marker' hseq) hrest

end InFront

/-- A number leads: no number of the batch is newer, and it is not older than the
    cursor, nor so far ahead of it that a batch could go round the circle. -/
structure Leads (log : ArrivalLog) (seq : SeqNum) : Prop where
  newest : ∀ q ∈ log.pending, 0 ≤ q.distance seq
  cursor : ∀ t, log.reportedTo = some t → 0 ≤ t.distance seq ∧ t.distance seq + log.limit < 32768

-- An arrival that leads after it has been recorded is in front.
theorem inFront_of_leads (limit : Nat) (log : ArrivalLog) (r : Arrival) (ssrc : Ssrc)
    (marker : Bool) (h : log.Holds (fun _ => True) limit) (hpos : 1 ≤ limit)
    (hignores : log.ignores r.seq = false) (hleads : (log.record r ssrc marker).Leads r.seq) :
    (log.record r ssrc marker).InFront limit r.seq := by
  have hnot : ¬ log.ignores r.seq = true :=
    ne_true_of_eq_false hignores
  have hholds := log.holds_step (.record r ssrc marker) h hpos trivial
  have hlimit : (log.record r ssrc marker).limit = limit := hholds.limit_eq
  have hjoined : (log.record r ssrc marker).pending = []
      ∨ r.seq ∈ (log.record r ssrc marker).pending := by
    rw [record_eq, if_neg hnot]
    split
    · exact Or.inl (pending_report _)
    · rw [pending_join]
      exact Or.inr List.mem_concat_self
  refine ⟨hholds, ?_, hleads.newest, hjoined, fun t ht => (hleads.cursor t ht).1, ?_⟩
  · rw [latest_record, if_neg hnot]
  · intro t ht
    have hnear := (hleads.cursor t ht).2
    rw [hlimit] at hnear
    rcases hjoined with hnil | hmem
    · exact Or.inl ⟨hnil, hnear⟩
    · exact Or.inr ⟨r.seq, hmem, by omega⟩

end ArrivalLog

end Feedback

end VideoTransport

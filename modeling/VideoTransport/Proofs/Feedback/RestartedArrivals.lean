import VideoTransport.Proofs.Feedback.InOrderArrivals
import VideoTransport.Proofs.Feedback.PacketSize

/-!
# Arrivals after a Restart

What is accounted for of consecutive numbers, wherever they begin.

A number that is 2048 or more behind the cursor is recorded, since the sender has
begun to count anew. But the cursor does not go back with it: a report only ever
moves it forward. So the numbers that follow are on their way to a cursor that is
left over from before the restart. When they have come near it, they are late, one
after the other, until they have got past it. If 952 is recorded when 3000 has been
reported, that happens to the very next number. If 5000 is recorded when 10000 has
been reported, it happens thousands of packets later, to the 2048 numbers from 7953
on.

`Trails` is what holds on the way: the cursor stays, and no number of the batch is
between the number recorded last and the cursor. The number that follows on the
cursor is in front, and from there on none is late.

So which numbers of a row are lost can be told from where the cursor is when the row
begins: all that are late for it then, if the row comes from behind, and none if it
begins in front.

## Main definitions

* `ArrivalLog.Trails`: The number recorded last has not got past the cursor.
* `ArrivalLog.StartsBehind`: What an arrival needs so that the cursor stays where it is.

## Theorems

* `ArrivalLog.Trails.report`: A report leaves the cursor where it is.
* `ArrivalLog.Trails.record`: So does the next arrival, up to the cursor.
* `ArrivalLog.Trails.inFront_of_next`: The arrival that follows on the cursor is in front.
* `ArrivalLog.Trails.isLate_of_consecutive`: What is late in a row was so when it began.
* `ArrivalLog.accounts_iff_isLate`: A number of a row is lost only if it is late.
* `ArrivalLog.accounts_of_consecutive`: What is accounted for of numbers in a row.
* `ArrivalLog.not_accounts_of_restart`: After a restart, not all of them are.
-/

namespace VideoTransport

namespace Feedback

namespace ArrivalLog

-- Which numbers are late is a matter of the cursor alone.
theorem isLate_eq_of_cursor (log other : ArrivalLog) (h : log.reportedTo = other.reportedTo)
    (seq : SeqNum) : log.isLate seq = other.isLate seq := by
  rw [isLate, isLate, h]

/-- The number recorded last, or passed over, has not got past the cursor, and no
    number of the batch is newer. -/
structure Trails (limit : Nat) (log : ArrivalLog) (t seq : SeqNum) : Prop where
  holds : log.Holds (fun _ => True) limit
  cursor : log.reportedTo = some t
  behind : 0 ≤ seq.distance t
  older : ∀ q ∈ log.pending, seq.distance t ≤ q.distance t
  latest : ∀ q, log.latest = some q → seq.distance t ≤ q.distance t

namespace Trails

variable {limit : Nat} {log : ArrivalLog} {t seq : SeqNum}

/-- A report leaves the cursor where it is, since all of the batch is behind it. -/
theorem report (h : log.Trails limit t seq) (hlimit : limit < 32768) :
    log.report.Trails limit t seq := by
  have hspan := h.holds.span_le
  have hbatch (q : SeqNum) (hq : q ∈ log.pending) : 0 ≤ q.distance t :=
    Int.le_trans h.behind (h.older q hq)
  have hcursor (s : SeqNum) (hs : log.reportedTo = some s) : 0 ≤ s.distance t := by
    rw [h.cursor] at hs
    cases hs
    exact Int.le_of_eq t.distance_self.symm
  refine ⟨log.holds_report h.holds, ?_, h.behind, ?_, ?_⟩
  · exact log.reportedTo_report_of_newest t (by omega) hbatch hcursor (Or.inl h.cursor)
  · intro q hq
    rw [pending_report] at hq
    exact absurd hq List.not_mem_nil
  · rw [latest_report]
    exact h.latest

theorem makeRoom (h : log.Trails limit t seq) (hlimit : limit < 32768) (next : SeqNum) :
    (log.makeRoom next).Trails limit t seq := by
  rw [ArrivalLog.makeRoom]
  split
  · exact h.report hlimit
  · exact h

-- One step nearer to the cursor, the batch that the arrival joins is still behind.
theorem join (h : log.Trails limit t seq) (hpos : 1 ≤ limit) (hlimit : limit < 32768) (r : Arrival)
    (ssrc : Ssrc) (hr : r.seq.distance t = seq.distance t - 1) (hpast : 0 < seq.distance t) :
    (log.join r ssrc).Trails limit t r.seq := by
  refine ⟨log.holds_join r ssrc h.holds hpos trivial, (h.makeRoom hlimit r.seq).cursor, by omega,
    ?_, ?_⟩
  · intro q hq
    rcases log.mem_pending_of_mem_join r ssrc q hq with hq | rfl
    · have holder := h.older q hq
      omega
    · exact Int.le_refl _
  · intro q hq
    cases hq
    exact Int.le_refl _

/-- The next arrival leaves the cursor where it is, if that has not been reached yet. It
    may be passed over, and then nothing changes. -/
theorem record (h : log.Trails limit t seq) (hpos : 1 ≤ limit) (hlimit : limit < 32768)
    (r : Arrival) (ssrc : Ssrc) (marker : Bool) (hr : r.seq = seq.next)
    (hpast : 0 < seq.distance t) : (log.record r ssrc marker).Trails limit t r.seq := by
  have hnext : r.seq.distance t = seq.distance t - 1 := by
    rw [hr]
    exact seq.next_distance t (by omega)
  have hjoin := h.join hpos hlimit r ssrc hnext hpast
  rw [record_eq]
  split
  · refine ⟨h.holds, h.cursor, by omega, ?_, ?_⟩
    · intro q hq
      have holder := h.older q hq
      omega
    · intro q hq
      have hlatest := h.latest q hq
      omega
  · split
    · exact hjoin.report hlimit
    · exact hjoin

-- What follows on the cursor is not passed over.
theorem ignores_next (h : log.Trails limit t t) : log.ignores t.next = false := by
  have hback : t.next.distance t = -1 := by
    rw [t.next_distance t (by rw [t.distance_self]; decide), t.distance_self]
    rfl
  have hforward : t.distance t.next = 1 := by
    rw [SeqNum.next, SeqNum.distance_advance t t 1 (by rw [t.distance_self]; decide),
      t.distance_self]
    rfl
  have hrepeats : (log.latest == some t.next) = false := by
    rw [beq_eq_false_iff_ne]
    intro heq
    have hlatest := h.latest t.next heq
    rw [t.distance_self, hback] at hlatest
    exact absurd hlatest (by decide)
  have hlate : log.isLate t.next = false := by
    rw [isLate, h.cursor]
    simp only [hforward]
    rfl
  rw [ignores, hrepeats, hlate, Bool.or_false]

/-- The arrival that follows on the cursor is in front, since the batch has come up to
    the cursor at most. -/
theorem inFront_of_next (h : log.Trails limit t t) (hpos : 1 ≤ limit) (hlimit : limit < 32768)
    (r : Arrival) (ssrc : Ssrc) (marker : Bool) (hr : r.seq = t.next) :
    (log.record r ssrc marker).InFront limit r.seq := by
  have hstep (q : SeqNum) (hq : q.distance t + 1 < 32768) :
      q.distance r.seq = q.distance t + 1 := by
    rw [hr]
    exact SeqNum.distance_advance q t 1 hq
  have hself := t.distance_self
  have hcursor := hstep t (by omega)
  have hholds := log.holds_join r ssrc h.holds hpos trivial
  have hspan := hholds.span_le
  have hjoined : r.seq ∈ (log.join r ssrc).pending := by
    rw [pending_join]
    exact List.mem_concat_self
  have hreached : (log.join r ssrc).reportedTo = some t := (h.makeRoom hlimit r.seq).cursor
  refine InFront.record_of_join r ssrc marker hlimit (by rw [hr]; exact h.ignores_next)
    ⟨hholds, rfl, ?_, Or.inr hjoined, ?_, ?_⟩
  · intro q hq
    have hnear := distance_within_span _ q r.seq hq hjoined (by omega)
    rcases log.mem_pending_of_mem_join r ssrc q hq with hq | rfl
    · have holder := h.older q hq
      -- The batch fits in a feedback, so none of it lies opposite the arrival.
      have hopposite := q.distance_next t (by omega)
      rw [← hr] at hopposite
      omega
    · exact Int.le_of_eq r.seq.distance_self.symm
  · intro s hs
    rw [hreached] at hs
    cases hs
    omega
  · intro s hs
    rw [hreached] at hs
    cases hs
    exact Or.inr ⟨r.seq, hjoined, by omega⟩

/-- What is late in a row that begins behind the cursor was so when the row began. Up to
    the cursor that is because the cursor stays, and past it no number is late. -/
theorem isLate_of_consecutive (h : log.Trails limit t seq) (hpos : 1 ≤ limit)
    (hlimit : limit < 32768) (front rest : List Call) (r : Arrival) (ssrc : Ssrc) (marker : Bool)
    (hrow : Consecutive seq (front ++ .record r ssrc marker :: rest))
    (hcount : front.length + 1 < 32768) : (log.run front).isLate r.seq = log.isLate r.seq := by
  induction front generalizing log seq with
  | nil => rfl
  | cons c front ih =>
      have hr := seq_of_consecutive seq (c :: front) rest r ssrc marker hrow
      rcases consecutive_cons _ c _ hrow with ⟨r', ssrc', marker', rfl, hseq, hrest⟩
      rw [List.length_cons] at hcount hr
      by_cases hpast : 0 < seq.distance t
      · have hnext := h.record hpos hlimit r' ssrc' marker' hseq hpast
        exact (ih hnext hrest (by omega)).trans
          (isLate_eq_of_cursor _ log (hnext.cursor.trans h.cursor.symm) r.seq)
      · have hbehind := h.behind
        have hreached : t = seq := by
          apply SeqNum.distance_injective seq
          rw [seq.distance_self]
          omega
        subst hreached
        have hfront := h.inFront_of_next hpos hlimit r' ssrc' marker' hseq
        have hignores := hfront.ignores_of_consecutive hpos hlimit front rest r ssrc marker hrest
        have hself := t.distance_self
        have hahead : t.distance r.seq = front.length + 1 + 1 := by
          rw [hr, SeqNum.distance_advance t t _ (by omega), hself]
          omega
        have hlate : log.isLate r.seq = false := by
          rw [isLate, h.cursor]
          simp only [hahead]
          rw [decide_eq_false (by omega), Bool.false_and]
        rw [hlate]
        exact (Bool.or_eq_false_iff.1 hignores).2

end Trails

/-- A number starts behind the cursor, which is at `t`: it is not newer than that, and no
    number of the batch is newer than it. -/
structure StartsBehind (log : ArrivalLog) (t seq : SeqNum) : Prop where
  cursor : log.reportedTo = some t
  behind : 0 ≤ seq.distance t
  older : ∀ q ∈ log.pending, seq.distance t ≤ q.distance t

-- What is accounted for of a row that is recorded after an arrival. No number comes
-- twice in it, so each of them is the one that was recorded there.
theorem accounts_iff_ignores (limit : Nat) (log : ArrivalLog) (r : Arrival) (ssrc : Ssrc)
    (marker : Bool) (h : log.Holds (fun _ => True) limit) (hpos : 1 ≤ limit) (hlimit : limit < 65536)
    (front rest : List Call) (q : Arrival) (ssrc' : Ssrc) (marker' : Bool)
    (hrow : Consecutive r.seq (front ++ .record q ssrc' marker' :: rest))
    (hcount : (front ++ .record q ssrc' marker' :: rest).length < 65535) :
    log.Accounts (.record r ssrc marker :: (front ++ .record q ssrc' marker' :: rest)) q.seq
      ↔ q.seq ∈ log.pending ∨ (log.run (.record r ssrc marker :: front)).ignores q.seq = false := by
  have hkeeps := keeps_of_consecutive r.seq _ hrow
  constructor
  · intro haccounts
    refine (log.recorded_of_accounts _ h hpos hlimit q.seq haccounts).imp_right ?_
    rintro ⟨front', r', ssrc'', marker'', rest', hsplit, hseq, hignores⟩
    cases front' with
    | nil =>
        -- The first arrival is less than a turn before all others.
        rw [List.nil_append, List.cons.injEq, Call.record.injEq] at hsplit
        rw [← hsplit.1.1, seq_of_consecutive r.seq front rest q ssrc' marker' hrow] at hseq
        rw [List.length_append, List.length_cons] at hcount
        have hsame := r.seq.advance_injective 0 (front.length + 1) (by omega) (by omega)
          (r.seq.advance_zero.trans hseq)
        omega
    | cons c front' =>
        rw [List.cons_append, List.cons.injEq] at hsplit
        rcases hsplit with ⟨rfl, hsplit⟩
        rw [front_eq_of_consecutive r.seq front rest front' rest' q r' ssrc' ssrc'' marker' marker''
          hrow (by omega) hsplit hseq]
        exact hignores
  · rintro (hmem | hignores)
    · refine log.accounts_of_mem_pending _ h hpos hlimit ?_ q.seq hmem
      intro c hc
      rcases List.mem_cons.1 hc with rfl | hc
      · exact trivial
      · exact hkeeps c hc
    · refine log.accounts_of_recorded (.record r ssrc marker :: front) rest q ssrc' marker' h hpos
        hlimit ?_ hignores
      exact fun c hc => hkeeps c (List.mem_append_right _ (List.mem_cons_of_mem _ hc))

/-- A number of a row is accounted for if it is not late at the time, and otherwise only
    if it waited in the batch before. -/
theorem accounts_iff_isLate (limit : Nat) (log : ArrivalLog) (r : Arrival) (ssrc : Ssrc)
    (marker : Bool) (h : log.Holds (fun _ => True) limit) (hpos : 1 ≤ limit) (hlimit : limit < 65536)
    (haccepted : log.ignores r.seq = false) (front rest : List Call) (q : Arrival) (ssrc' : Ssrc)
    (marker' : Bool) (hrow : Consecutive r.seq (front ++ .record q ssrc' marker' :: rest))
    (hcount : (front ++ .record q ssrc' marker' :: rest).length < 65535) :
    log.Accounts (.record r ssrc marker :: (front ++ .record q ssrc' marker' :: rest)) q.seq
      ↔ q.seq ∈ log.pending ∨ (log.run (.record r ssrc marker :: front)).isLate q.seq = false := by
  have hlatest : ∃ k ≤ 0, (log.record r ssrc marker).latest = some (r.seq.advance k) := by
    refine ⟨0, Nat.le_refl 0, ?_⟩
    rw [latest_record, if_neg (ne_true_of_eq_false haccepted), SeqNum.advance_zero]
  have hrow' : Consecutive (r.seq.advance 0) (front ++ .record q ssrc' marker' :: rest) := by
    rw [SeqNum.advance_zero]
    exact hrow
  have hlength : 0 + front.length + 1 < 65536 := by
    rw [List.length_append, List.length_cons] at hcount
    omega
  have hignores : (log.run (.record r ssrc marker :: front)).ignores q.seq
      = (log.run (.record r ssrc marker :: front)).isLate q.seq :=
    ignores_of_consecutive r.seq 0 _ front rest q ssrc' marker' hlatest hrow' hlength
  rw [accounts_iff_ignores limit log r ssrc marker h hpos hlimit front rest q ssrc' marker' hrow
    hcount, hignores]

-- An arrival that starts behind the cursor trails it.
theorem trails_of_startsBehind (limit : Nat) (log : ArrivalLog) (r : Arrival) (ssrc : Ssrc)
    (marker : Bool) (h : log.Holds (fun _ => True) limit) (hpos : 1 ≤ limit)
    (hignores : log.ignores r.seq = false) (t : SeqNum)
    (hbehind : (log.record r ssrc marker).StartsBehind t r.seq) :
    (log.record r ssrc marker).Trails limit t r.seq := by
  refine ⟨log.holds_step (.record r ssrc marker) h hpos trivial, hbehind.cursor, hbehind.behind,
    hbehind.older, ?_⟩
  intro q hq
  rw [latest_record, if_neg (ne_true_of_eq_false hignores)] at hq
  cases hq
  exact Int.le_refl _

/-- After an arrival that is not passed over, consecutive numbers are recorded.

    A number of them is accounted for if it waits in the batch in the end, or a message
    that has been queued since the first arrival says that it has been received. That is
    so if it is not late at the time, and otherwise only if it waited in the batch before.

    If the first arrival leads, none is late, and all of them are accounted for. If it
    starts behind the cursor, as it does after a restart, those are lost that the cursor
    makes late as it is then, and no others. -/
theorem accounts_of_consecutive (mtu : Nat) (sender : Ssrc) (log : ArrivalLog)
    (hstart : start mtu sender = .ok log) (hlimit : log.limit < 65536) (before : List Call)
    (r : Arrival) (ssrc : Ssrc) (marker : Bool)
    (haccepted : (log.run before).ignores r.seq = false) (arrivals : List Call)
    (hrow : Consecutive r.seq arrivals) (hcount : arrivals.length < 32768) :
    (∀ front q ssrc' marker' rest, arrivals = front ++ .record q ssrc' marker' :: rest →
        ((log.run before).Accounts (.record r ssrc marker :: arrivals) q.seq
          ↔ q.seq ∈ (log.run before).pending
            ∨ ((log.run before).run (.record r ssrc marker :: front)).isLate q.seq = false))
      ∧ (log.limit < 32768 → ((log.run before).record r ssrc marker).Leads r.seq →
        ∀ q ssrc' marker', .record q ssrc' marker' ∈ arrivals →
          (log.run before).Accounts (.record r ssrc marker :: arrivals) q.seq)
      ∧ (log.limit < 32768 → ∀ t, ((log.run before).record r ssrc marker).StartsBehind t r.seq →
        ∀ q ssrc' marker', .record q ssrc' marker' ∈ arrivals →
          ((log.run before).Accounts (.record r ssrc marker :: arrivals) q.seq
            ↔ q.seq ∈ (log.run before).pending
              ∨ ((log.run before).record r ssrc marker).isLate q.seq = false)) := by
  rcases holds_start (P := fun _ => True) mtu sender log hstart with ⟨limit, heq, hholds, _⟩
  have hpos := Nat.one_le_iff_ne_zero.2 (statusLimit_eq mtu limit heq).2
  rw [hholds.limit_eq] at hlimit ⊢
  have hrun := log.holds_run before hholds hpos
  have hexact (front : List Call) (q : Arrival) (ssrc' : Ssrc) (marker' : Bool) (rest : List Call)
      (hsplit : arrivals = front ++ .record q ssrc' marker' :: rest) :
      (log.run before).Accounts (.record r ssrc marker :: arrivals) q.seq
        ↔ q.seq ∈ (log.run before).pending
          ∨ ((log.run before).run (.record r ssrc marker :: front)).isLate q.seq = false := by
    rw [hsplit] at hrow hcount ⊢
    exact accounts_iff_isLate limit _ r ssrc marker hrun hpos hlimit haccepted front rest q ssrc'
      marker' hrow (by omega)
  refine ⟨hexact, ?_, ?_⟩
  · intro hhalf hleads q ssrc' marker' hmem
    rcases List.append_of_mem hmem with ⟨front, rest, hsplit⟩
    rw [hexact front q ssrc' marker' rest hsplit]
    rw [hsplit] at hrow
    have hfront := inFront_of_leads limit _ r ssrc marker hrun hpos haccepted hleads
    have hignores := hfront.ignores_of_consecutive hpos hhalf front rest q ssrc' marker' hrow
    exact Or.inr (Bool.or_eq_false_iff.1 hignores).2
  · intro hhalf t hbehind q ssrc' marker' hmem
    rcases List.append_of_mem hmem with ⟨front, rest, hsplit⟩
    rw [hexact front q ssrc' marker' rest hsplit]
    rw [hsplit] at hrow hcount
    rw [List.length_append, List.length_cons] at hcount
    have htrails := trails_of_startsBehind limit _ r ssrc marker hrun hpos haccepted t hbehind
    have hlate : ((log.run before).run (.record r ssrc marker :: front)).isLate q.seq
        = ((log.run before).record r ssrc marker).isLate q.seq :=
      htrails.isLate_of_consecutive hpos hhalf front rest q ssrc' marker' hrow (by omega)
    rw [hlate]

-- Two rows after one cursor. The one leads around the end of the circle. The other
-- starts anew, and is recorded until it comes within 2048 numbers of the cursor.
theorem accounts_of_consecutive_wrapped :
    ∃ log before arrivals restarted, start 41 ⟨1⟩ = .ok log
      ∧ before = [.record ⟨65534, ⟨1000000⟩⟩ ⟨2⟩ true]
      ∧ arrivals = [.record ⟨0, ⟨3000000⟩⟩ ⟨2⟩ false, .record ⟨1, ⟨4000000⟩⟩ ⟨2⟩ true]
      ∧ restarted = [.record ⟨63486, ⟨3000000⟩⟩ ⟨2⟩ true, .record ⟨63487, ⟨4000000⟩⟩ ⟨2⟩ true]
      ∧ (log.run before).ignores 65535 = false ∧ Consecutive 65535 arrivals
      ∧ ((log.run before).record ⟨65535, ⟨2000000⟩⟩ ⟨2⟩ false).Leads 65535
      ∧ (log.run before).Accounts (.record ⟨65535, ⟨2000000⟩⟩ ⟨2⟩ false :: arrivals) 0
      ∧ (log.run before).Accounts (.record ⟨65535, ⟨2000000⟩⟩ ⟨2⟩ false :: arrivals) 1
      ∧ (log.run before).ignores 63485 = false ∧ Consecutive 63485 restarted
      ∧ ((log.run before).record ⟨63485, ⟨2000000⟩⟩ ⟨2⟩ false).StartsBehind 65534 63485
      ∧ (log.run before).Accounts (.record ⟨63485, ⟨2000000⟩⟩ ⟨2⟩ false :: restarted) 63486
      ∧ ¬ (log.run before).Accounts (.record ⟨63485, ⟨2000000⟩⟩ ⟨2⟩ false :: restarted) 63487 := by
  let before : List Call := [.record ⟨65534, ⟨1000000⟩⟩ ⟨2⟩ true]
  let log : ArrivalLog := run { limit := 7, sender := ⟨1⟩ } before
  let leading : ArrivalLog := log.record ⟨65535, ⟨2000000⟩⟩ ⟨2⟩ false
  let restarting : ArrivalLog := log.record ⟨63485, ⟨2000000⟩⟩ ⟨2⟩ false
  have hnone : log.pending = [] := by decide +kernel +revert
  have haccepted : log.ignores 65535 = false := by decide +kernel +revert
  have hpending : leading.pending = [65535] := by decide +kernel +revert
  have hcursor : leading.reportedTo = some 65534 := by decide +kernel +revert
  have hlimit : leading.limit = 7 := by decide +kernel +revert
  have hzero : leading.isLate 0 = false := by decide +kernel +revert
  have haccepted' : log.ignores 63485 = false := by decide +kernel +revert
  have hpending' : restarting.pending = [63485] := by decide +kernel +revert
  have hcursor' : restarting.reportedTo = some 65534 := by decide +kernel +revert
  have hfirst : restarting.isLate 63486 = false := by decide +kernel +revert
  have hsecond : restarting.isLate 63487 = true := by decide +kernel +revert
  have hleads : leading.Leads 65535 := by
    refine ⟨?_, ?_⟩
    · intro q hq
      rw [hpending, List.mem_singleton] at hq
      rw [hq]
      decide
    · intro t ht
      rw [hcursor] at ht
      cases ht
      rw [hlimit]
      decide
  have hbehind : restarting.StartsBehind 65534 63485 := by
    refine ⟨hcursor', by decide, ?_⟩
    intro q hq
    rw [hpending', List.mem_singleton] at hq
    rw [hq]
  have hrow : Consecutive 65535 [.record ⟨0, ⟨3000000⟩⟩ ⟨2⟩ false,
      .record ⟨1, ⟨4000000⟩⟩ ⟨2⟩ true] := ⟨by decide, by decide, trivial⟩
  have hrow' : Consecutive 63485 [.record ⟨63486, ⟨3000000⟩⟩ ⟨2⟩ true,
      .record ⟨63487, ⟨4000000⟩⟩ ⟨2⟩ true] := ⟨by decide, by decide, trivial⟩
  rcases accounts_of_consecutive 41 ⟨1⟩ _ rfl (by decide) before ⟨65535, ⟨2000000⟩⟩ ⟨2⟩ false
    haccepted _ hrow (by decide) with ⟨hexact, hall, _⟩
  rcases accounts_of_consecutive 41 ⟨1⟩ _ rfl (by decide) before ⟨63485, ⟨2000000⟩⟩ ⟨2⟩ false
    haccepted' _ hrow' (by decide) with ⟨_, _, hlost⟩
  have hlost := hlost (by decide) 65534 hbehind
  refine ⟨_, _, _, _, rfl, rfl, rfl, rfl, haccepted, hrow, hleads, ?_, ?_, haccepted', hrow',
    hbehind, ?_, ?_⟩
  · exact (hexact [] ⟨0, ⟨3000000⟩⟩ ⟨2⟩ false _ rfl).2 (Or.inr hzero)
  · exact hall (by decide) hleads ⟨1, ⟨4000000⟩⟩ ⟨2⟩ true (List.mem_cons_of_mem _ List.mem_cons_self)
  · exact (hlost ⟨63486, ⟨3000000⟩⟩ ⟨2⟩ true List.mem_cons_self).2 (Or.inr hfirst)
  · intro haccounts
    rcases (hlost ⟨63487, ⟨4000000⟩⟩ ⟨2⟩ true (List.mem_cons_of_mem _ List.mem_cons_self)).1
      haccounts with hmem | hlate
    · have hmem : 63487 ∈ log.pending := hmem
      rw [hnone] at hmem
      exact absurd hmem List.not_mem_nil
    · exact Bool.false_ne_true (hlate.symm.trans hsecond)

-- After a restart a number is recorded, and the one that follows on it is late.
theorem not_accounts_of_restart :
    ∃ log before arrivals, start 1200 ⟨1⟩ = .ok log
      ∧ before = [.record ⟨3000, ⟨1000000⟩⟩ ⟨2⟩ true]
      ∧ arrivals = [.record ⟨953, ⟨3000000⟩⟩ ⟨2⟩ true]
      ∧ (log.run before).ignores 952 = false ∧ Consecutive 952 arrivals
      ∧ ¬ (log.run before).Accounts (.record ⟨952, ⟨2000000⟩⟩ ⟨2⟩ false :: arrivals) 953 := by
  have hpending : ((run { limit := 511, sender := ⟨1⟩ } [.record ⟨3000, ⟨1000000⟩⟩ ⟨2⟩ true]).run
      [.record ⟨952, ⟨2000000⟩⟩ ⟨2⟩ false, .record ⟨953, ⟨3000000⟩⟩ ⟨2⟩ true]).pending = [952] := by
    decide +kernel
  have hqueued : (run { limit := 511, sender := ⟨1⟩ } [.record ⟨3000, ⟨1000000⟩⟩ ⟨2⟩ true]).queuedIn
      [.record ⟨952, ⟨2000000⟩⟩ ⟨2⟩ false, .record ⟨953, ⟨3000000⟩⟩ ⟨2⟩ true] = [] := by decide +kernel
  refine ⟨_, _, _, rfl, rfl, rfl, by decide +kernel, ⟨by decide, trivial⟩, ?_⟩
  rintro (hmem | ⟨m, hm, _⟩)
  · rw [hpending, List.mem_singleton] at hmem
    exact absurd hmem (by decide)
  · rw [hqueued] at hm
    exact absurd hm List.not_mem_nil

end ArrivalLog

end Feedback

end VideoTransport

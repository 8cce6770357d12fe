import Mathlib.Data.List.Induction
import VideoTransport.Proofs.Feedback.HistoryUpdates
import VideoTransport.Proofs.Feedback.WrittenReport

/-!
# Lost Packets

Which packets the history says are lost, after all that was reported about them.

A report that a packet has arrived settles the matter, whatever was said before
and whatever is said later, if it gives the time of arrival. A report without a
time, which there is if the deltas lead to before the origin of the clock, only
takes back what was said before. So a packet is lost if the last that was said is
that it has not arrived, and no time of arrival was ever told.

A packet is followed through the calls from the end of the history, where its
place is told by how many packets have been recorded behind it. Reports about its
number are about this packet as long as it is found under this number, as it
always is if the numbers are recorded in a row.

## Main definitions

* `SendHistory.Call`, `SendHistory.run`: All that can be done with a history.
* `SendHistory.fromLast?`: The packet behind which some others have been recorded.
* `SendHistory.saidOf`: All that is said of a number in the reports that are read.
* `SendHistory.heard`: What is said of it while a packet is found under it.
* `SendHistory.InARow`, `SendHistory.StaysInARow`: The numbers of packets follow on each other.

## Theorems

* `SentPacket.lost_applyAll_iff`: When a packet is lost after some reports about it.
* `SendHistory.exists_of_step`, `SendHistory.exists_of_run`: A packet that is kept has heard all.
* `SendHistory.heard_of_inARow`: Without gaps, nothing is missed.
* `SendHistory.lost_iff_of_run`: When a packet is lost, in any run.
* `SendHistory.lost_of_no_time`: A report without a time can be undone.
-/

namespace VideoTransport

namespace Feedback

namespace SentPacket

theorem seq_applyAll (p : SentPacket) (rs : List Reception) : (p.applyAll rs).seq = p.seq := by
  induction rs generalizing p with
  | nil => rfl
  | cons r rest ih => exact (ih _).trans (p.seq_apply r.status r.arrival)

/-- The record with another time at which the socket sent the packet. -/
def setSocketTime (time : Option Duration) (p : SentPacket) : SentPacket :=
  { p with socketTime := time }

theorem setSocketTime_self (p : SentPacket) : p.setSocketTime p.socketTime = p := rfl

-- Reports do not look at what the socket has said.
theorem applyAll_setSocketTime (p : SentPacket) (time : Option Duration) (rs : List Reception) :
    (p.setSocketTime time).applyAll rs = (p.applyAll rs).setSocketTime time := by
  induction rs generalizing p with
  | nil => rfl
  | cons r rest ih =>
      have hstep : (p.setSocketTime time).apply r.status r.arrival
          = (p.apply r.status r.arrival).setSocketTime time := by
        rw [apply, apply]
        by_cases hreceived : r.status.isReceived = true
        · rw [if_pos hreceived, if_pos hreceived]
          rfl
        · have hsame : (p.setSocketTime time).arrival = p.arrival := rfl
          rw [if_neg hreceived, if_neg hreceived, hsame]
          by_cases hunknown : p.arrival.isNone = true
          · rw [if_pos hunknown, if_pos hunknown]
            rfl
          · rw [if_neg hunknown, if_neg hunknown]
      change ((p.setSocketTime time).apply r.status r.arrival).applyAll rest = _
      rw [hstep, ih]
      rfl

/-- The time of arrival is known as soon as one report gives it. -/
theorem arrival_applyAll_eq_none_iff (p : SentPacket) (hp : p.arrival = none)
    (rs : List Reception) :
    (p.applyAll rs).arrival = none
      ↔ ∀ r ∈ rs, r.status.isReceived = true → r.arrival = none := by
  induction rs using List.reverseRecOn with
  | nil => exact ⟨fun _ r hr => absurd hr List.not_mem_nil, fun _ => hp⟩
  | append_singleton rs r ih =>
      rw [applyAll_append, List.forall_mem_append, List.forall_mem_singleton, ← ih]
      change ((p.applyAll rs).apply r.status r.arrival).arrival = none ↔ _
      by_cases hreceived : r.status.isReceived = true
      · rw [apply_of_isReceived _ _ _ hreceived, Option.or_eq_none_iff]
        tauto
      · rw [apply_of_not_isReceived _ _ _ hreceived]
        split
        · tauto
        · tauto

/-- After some reports a packet is lost if the last one says so, unless one of them
    has given a time of arrival. -/
theorem lost_applyAll_iff (p : SentPacket) (hp : p.arrival = none) (hnot : p.lost = false)
    (rs : List Reception) :
    (p.applyAll rs).lost = true
      ↔ (∃ last, rs.getLast? = some last ∧ ¬ last.status.isReceived = true)
        ∧ ∀ r ∈ rs, r.status.isReceived = true → r.arrival = none := by
  induction rs using List.reverseRecOn with
  | nil =>
      refine ⟨fun hlost => ?_, fun ⟨⟨last, hlast, _⟩, _⟩ => ?_⟩
      · exact absurd (hnot.symm.trans hlost) Bool.false_ne_true
      · cases hlast
  | append_singleton rs r ih =>
      rw [← arrival_applyAll_eq_none_iff p hp] at ih ⊢
      rw [List.getLast?_concat, applyAll_append]
      change ((p.applyAll rs).apply r.status r.arrival).lost = true
        ↔ _ ∧ ((p.applyAll rs).apply r.status r.arrival).arrival = none
      simp only [Option.some.injEq, exists_eq_left']
      by_cases hreceived : r.status.isReceived = true
      · rw [apply_of_isReceived _ _ _ hreceived]
        exact iff_of_false Bool.false_ne_true fun h => h.1 hreceived
      · rw [apply_of_not_isReceived _ _ _ hreceived]
        by_cases hunknown : (p.applyAll rs).arrival = none
        · rw [if_pos hunknown]
          exact iff_of_true rfl ⟨hreceived, hunknown⟩
        · rw [if_neg hunknown]
          exact iff_of_false (fun hlost => hunknown (ih.1 hlost).2) fun h => hunknown h.2

/-- If each report that a packet has arrived gives the time, the order does not
    matter: it is lost if some report says so, and none says that it has arrived. -/
theorem lost_applyAll_iff_of_times (p : SentPacket) (hp : p.arrival = none)
    (hnot : p.lost = false) (rs : List Reception)
    (htimes : ∀ r ∈ rs, r.status.isReceived = true → r.arrival ≠ none) :
    (p.applyAll rs).lost = true
      ↔ (∃ r ∈ rs, ¬ r.status.isReceived = true) ∧ ∀ r ∈ rs, ¬ r.status.isReceived = true := by
  rw [lost_applyAll_iff p hp hnot]
  constructor
  · rintro ⟨⟨last, hlast, hmissed⟩, hnone⟩
    exact ⟨⟨last, List.mem_of_getLast? hlast, hmissed⟩, fun r hr hreceived =>
      htimes r hr hreceived (hnone r hr hreceived)⟩
  · rintro ⟨⟨r, hr, _⟩, hmissed⟩
    refine ⟨⟨_, List.getLast?_eq_some_getLast (List.ne_nil_of_mem hr),
      hmissed _ (List.getLast_mem _)⟩, fun r hr hreceived => absurd hreceived (hmissed r hr)⟩

end SentPacket

-- What is read changes the history by what the report says, and by nothing else.
theorem ReportReader.history_of_read (r r' : ReportReader) (h h' : SendHistory) (info : List UInt8)
    (report : Report) (hread : r.read h info = .ok (report, r', h')) :
    h' = h.applyAll report.receptions := by
  unfold read at hread
  split at hread
  · cases hread
    rw [Report.receptions, SendHistory.map_toReception_join]
  · cases hread

namespace SendHistory

/-- What can be done with a history. Feedback is read by any reader, wherever that
    expects it to begin. -/
inductive Call where
  | send (sentAt : Duration) (size : Nat)
  | record (seq : SeqNum) (sentAt : Duration) (size : Nat)
  | attach (seq : SeqNum) (time : Duration)
  | read (r : ReportReader) (info : List UInt8)
  | reset

/-- How many packets a call records. -/
def Call.recorded : Call → Nat
  | .send _ _ | .record _ _ _ => 1
  | .attach _ _ | .read _ _ | .reset => 0

/-- What the report says that a call reads, if it reads one. -/
def Call.said (h : SendHistory) : Call → List Reception
  | .read r info =>
    match r.read h info with
    | .ok (report, _) => report.receptions
    | .error _ => []
  | .send _ _ | .record _ _ _ | .attach _ _ | .reset => []

/-- One call. -/
def step (h : SendHistory) : Call → SendHistory
  | .send sentAt size => h.send sentAt size
  | .record seq sentAt size => h.record seq sentAt size
  | .attach seq time => (h.attach seq time).2
  | .read r info =>
    match r.read h info with
    | .ok (_, _, h) => h
    | .error _ => h
  | .reset => h.reset

/-- A list of calls. -/
def run (h : SendHistory) (calls : List Call) : SendHistory :=
  calls.foldl step h

/-- How many packets some calls record. -/
def recordedIn (calls : List Call) : Nat :=
  (calls.map Call.recorded).sum

/-- The packet behind which `n` others have been recorded, if it is kept. -/
def fromLast? (h : SendHistory) (n : Nat) : Option SentPacket :=
  h.toList.reverse[n]?

/-- The packet behind which `n` others have been recorded is found under a number. -/
def Finds (h : SendHistory) (q : SeqNum) (n : Nat) : Prop :=
  h.indexOf? q = some (h.size - 1 - n)

instance (h : SendHistory) (q : SeqNum) (n : Nat) : Decidable (h.Finds q n) :=
  inferInstanceAs (Decidable (_ = _))

/-- All that is said of a number in the reports that some calls read. -/
def saidOf (q : SeqNum) (h : SendHistory) : List Call → List Reception
  | [] => []
  | c :: rest => (c.said h).filter (·.seq = q) ++ saidOf q (h.step c) rest

/-- What is said of a number while the packet is found under it behind which `n`
    others have been recorded before the calls. -/
def heard (q : SeqNum) (h : SendHistory) (n : Nat) : List Call → List Reception
  | [] => []
  | c :: rest => (if h.Finds q n then (c.said h).filter (·.seq = q) else [])
      ++ heard q (h.step c) (n + c.recorded) rest

theorem step_read (h : SendHistory) (r : ReportReader) (info : List UInt8) :
    h.step (.read r info) = h.applyAll ((Call.read r info).said h) := by
  rw [step, Call.said]
  cases hread : r.read h info with
  | error e => rfl
  | ok out =>
      rcases out with ⟨report, r', h'⟩
      exact r.history_of_read r' h h' info report hread

-- Where no packet is added or dropped, each has its place from the end.
theorem fromLast?_of_places (h h' : SendHistory) (f : Nat → SentPacket → SentPacket)
    (hplaces : ∀ i, h'.toList[i]? = h.toList[i]?.map (f i)) (n : Nat) :
    h'.fromLast? n = (h.fromLast? n).map (f (h.size - 1 - n)) := by
  have hsize : h.toList.length = h.size := h.packets.length_toList
  have hle (i : Nat) : h'.toList.length ≤ i ↔ h.toList.length ≤ i := by
    rw [← List.getElem?_eq_none_iff, ← List.getElem?_eq_none_iff, hplaces, Option.map_eq_none_iff]
  have hlength : h'.toList.length = h.toList.length :=
    Nat.le_antisymm ((hle _).2 (Nat.le_refl _)) ((hle _).1 (Nat.le_refl _))
  rw [fromLast?, fromLast?]
  by_cases hn : n < h.toList.length
  · rw [List.getElem?_reverse (by omega), List.getElem?_reverse hn, hlength, hplaces, hsize]
  · rw [List.getElem?_eq_none (by rw [List.length_reverse]; omega),
      List.getElem?_eq_none (by rw [List.length_reverse]; omega)]
    rfl

-- The packets behind a new one are those that were there before.
theorem fromLast?_record (h : SendHistory) (q : SeqNum) (sentAt : Duration) (size : Nat) (n : Nat)
    (p : SentPacket) (hp : (h.record q sentAt size).fromLast? n = some p) :
    (({ seq := q, sentAt, size } : SentPacket) :: h.toList.reverse)[n]? = some p := by
  rw [fromLast?, toList_record, List.reverse_drop, List.getElem?_take] at hp
  split at hp
  · rw [List.reverse_concat] at hp
    exact hp
  · cases hp

/-- A packet that is kept through a call has heard what the call says about it, and
    nothing else has changed but what the socket says. -/
theorem exists_of_step (h : SendHistory) (c : Call) (n : Nat) (p' : SentPacket)
    (hkept : (h.step c).fromLast? (n + c.recorded) = some p') :
    ∃ p time, h.fromLast? n = some p ∧ p' = (p.applyAll
      (if h.Finds p.seq n then (c.said h).filter (·.seq = p.seq) else [])).setSocketTime time := by
  have hquiet (p : SentPacket) :
      p.applyAll (if h.Finds p.seq n then [] else []) = p := by
    rw [ite_self]
    rfl
  cases c with
  | send sentAt size =>
      refine ⟨p', p'.socketTime, h.fromLast?_record h.nextSeq sentAt size (n + 1) p' hkept, ?_⟩
      rw [Call.said, List.filter_nil, hquiet, SentPacket.setSocketTime_self]
  | record seq sentAt size =>
      refine ⟨p', p'.socketTime, h.fromLast?_record seq sentAt size (n + 1) p' hkept, ?_⟩
      rw [Call.said, List.filter_nil, hquiet, SentPacket.setSocketTime_self]
  | attach seq time =>
      rw [step, attach, Call.recorded, Nat.add_zero,
        h.fromLast?_of_places _ _ (h.getElem?_modify seq _), Option.map_eq_some_iff] at hkept
      rcases hkept with ⟨p, hp, rfl⟩
      by_cases hfound : h.indexOf? seq = some (h.size - 1 - n)
      · refine ⟨p, some time, hp, ?_⟩
        rw [if_pos hfound, Call.said, List.filter_nil, hquiet]
        rfl
      · refine ⟨p, p.socketTime, hp, ?_⟩
        rw [if_neg hfound, Call.said, List.filter_nil, hquiet, SentPacket.setSocketTime_self]
  | read r info =>
      rw [step_read, Call.recorded, Nat.add_zero,
        h.fromLast?_of_places _ _ (h.getElem?_applyAll _), Option.map_eq_some_iff] at hkept
      rcases hkept with ⟨p, hp, hp'⟩
      refine ⟨p, p'.socketTime, hp, ?_⟩
      -- The reports are applied where the number is found, and so they are heard.
      by_cases hfound : h.indexOf? p.seq = some (h.size - 1 - n)
      · have hfinds : h.Finds p.seq n := hfound
        rw [if_pos hfound] at hp'
        rw [if_pos hfinds, hp', SentPacket.setSocketTime_self]
      · have hnot : ¬ h.Finds p.seq n := hfound
        rw [if_neg hfound] at hp'
        rw [if_neg hnot, ← hp']
        rfl
  | reset => cases hkept

/-- So has a packet that is kept through a list of calls. -/
theorem exists_of_run (h : SendHistory) (calls : List Call) (n : Nat) (p' : SentPacket)
    (hkept : (h.run calls).fromLast? (n + recordedIn calls) = some p') :
    ∃ p time, h.fromLast? n = some p
      ∧ p' = (p.applyAll (heard p.seq h n calls)).setSocketTime time := by
  induction calls generalizing h n with
  | nil => exact ⟨p', p'.socketTime, hkept, rfl⟩
  | cons c rest ih =>
      rw [recordedIn, List.map_cons, List.sum_cons, ← Nat.add_assoc] at hkept
      rcases ih (h.step c) (n + c.recorded) hkept with ⟨p₁, time₁, hp₁, hp'⟩
      rcases h.exists_of_step c n p₁ hp₁ with ⟨p, time, hp, hstep⟩
      have hseq : p₁.seq = p.seq := by
        rw [hstep]
        exact p.seq_applyAll _
      refine ⟨p, time₁, hp, ?_⟩
      rw [hp', hseq, hstep, SentPacket.applyAll_setSocketTime, ← SentPacket.applyAll_append]
      rfl

/-- The numbers of the packets that are kept follow on each other, and there are so
    few that none comes twice. -/
structure InARow (h : SendHistory) : Prop where
  size_le : h.size ≤ 65536
  follows : (h.toList.map (·.seq)).IsChain fun q next => next = q.next

/-- They do so before and after each of some calls. -/
def StaysInARow (h : SendHistory) : List Call → Prop
  | [] => h.InARow
  | c :: rest => h.InARow ∧ (h.step c).StaysInARow rest

-- Numbers that follow on each other are those from the first one on.
theorem eq_map_advance_of_isChain (first : SeqNum) (rest : List SeqNum)
    (h : (first :: rest).IsChain fun q next => next = q.next) :
    first :: rest = (List.range (rest.length + 1)).map first.advance := by
  induction rest generalizing first with
  | nil => exact congrArg (· :: []) first.advance_zero.symm
  | cons second rest ih =>
      rw [List.isChain_cons_cons, SeqNum.next] at h
      have hrow := SeqNum.map_advance_range_add first 1 (rest.length + 1)
      rw [← h.1, ← ih second h.2] at hrow
      rw [List.length_cons, Nat.add_comm, hrow]
      exact congrArg (· :: second :: rest) first.advance_zero.symm

/-- If the numbers are in a row, each packet is found under its number. The place
    is as many steps from the first number as it is packets. -/
theorem indexOf?_of_inARow (h : SendHistory) (hrow : h.InARow) (i : Nat) (p : SentPacket)
    (hp : h.toList[i]? = some p) : h.indexOf? p.seq = some i := by
  have hsize : h.toList.length = h.size := h.packets.length_toList
  have hle := hrow.size_le
  have hfollows := hrow.follows
  have hi : i < h.toList.length := (List.getElem?_eq_some_iff.1 hp).1
  have hseq : (h.toList.map (·.seq))[i]? = some p.seq := by
    rw [List.getElem?_map, hp]
    rfl
  rw [indexOf?_eq]
  cases hseqs : h.toList.map (·.seq) with
  | nil =>
      rw [hseqs] at hseq
      cases hseq
  | cons first rest =>
      rw [hseqs] at hseq hfollows
      have hsteps : first.stepsTo p.seq = i := by
        have hplace := hseq
        rw [eq_map_advance_of_isChain first rest hfollows, List.getElem?_map,
          Option.map_eq_some_iff] at hplace
        rcases hplace with ⟨j, hj, hadvance⟩
        rcases List.getElem?_eq_some_iff.1 hj with ⟨_, hrange⟩
        rw [List.getElem_range] at hrange
        rw [← hadvance, ← hrange]
        exact first.stepsTo_advance _ (by omega)
      simp only [List.head?_cons, Option.bind_some, hsteps, hseq, if_true]

theorem finds_of_inARow (h : SendHistory) (hrow : h.InARow) (n : Nat) (p : SentPacket)
    (hp : h.fromLast? n = some p) : h.Finds p.seq n := by
  have hsize : h.toList.length = h.size := h.packets.length_toList
  rcases List.getElem?_eq_some_iff.1 hp with ⟨hn, _⟩
  rw [List.length_reverse] at hn
  rw [fromLast?, List.getElem?_reverse hn, hsize] at hp
  exact h.indexOf?_of_inARow hrow _ p hp

/-- If the numbers are in a row all the time, all that is said of the number of a
    packet is heard. -/
theorem heard_of_inARow (h : SendHistory) (calls : List Call) (n : Nat) (p p' : SentPacket)
    (hp : h.fromLast? n = some p)
    (hkept : (h.run calls).fromLast? (n + recordedIn calls) = some p')
    (hrow : h.StaysInARow calls) :
    heard p.seq h n calls = saidOf p.seq h calls := by
  induction calls generalizing h n p with
  | nil => rfl
  | cons c rest ih =>
      rw [recordedIn, List.map_cons, List.sum_cons, ← Nat.add_assoc] at hkept
      rcases exists_of_run (h.step c) rest _ p' hkept with ⟨p₁, _, hp₁, _⟩
      rcases h.exists_of_step c n p₁ hp₁ with ⟨p₀, time, hp₀, hstep⟩
      cases hp.symm.trans hp₀
      have hseq : p₁.seq = p.seq := by
        rw [hstep]
        exact p.seq_applyAll _
      have hrest := ih (h.step c) (n + c.recorded) p₁ hp₁ hkept hrow.2
      rw [heard, saidOf, if_pos (h.finds_of_inARow hrow.1 n p hp), ← hseq, hrest]

/-- When a packet that is kept is lost, whatever has been done and read since it was
    recorded.

    It is lost if the last that was said of it is that it has not arrived, and no
    report has given a time of arrival. If the numbers that are kept are in a row
    all the time, this is about all that was said of its number in any report. If
    besides each report that it has arrived gives the time, then it is lost if and
    only if some report says that it has not arrived, and none that it has. -/
theorem lost_iff_of_run (h : SendHistory) (q : SeqNum) (sentAt : Duration) (size : Nat)
    (calls : List Call) (p : SentPacket)
    (hkept : ((h.record q sentAt size).run calls).fromLast? (recordedIn calls) = some p) :
    (p.lost = true
        ↔ (∃ last, (heard q (h.record q sentAt size) 0 calls).getLast? = some last
            ∧ ¬ last.status.isReceived = true)
          ∧ ∀ r ∈ heard q (h.record q sentAt size) 0 calls,
            r.status.isReceived = true → r.arrival = none)
      ∧ ((h.record q sentAt size).StaysInARow calls →
        heard q (h.record q sentAt size) 0 calls = saidOf q (h.record q sentAt size) calls
          ∧ ((∀ r ∈ saidOf q (h.record q sentAt size) calls,
              r.status.isReceived = true → r.arrival ≠ none) →
            (p.lost = true
              ↔ (∃ r ∈ saidOf q (h.record q sentAt size) calls, ¬ r.status.isReceived = true)
                ∧ ∀ r ∈ saidOf q (h.record q sentAt size) calls,
                  ¬ r.status.isReceived = true))) := by
  rw [← Nat.zero_add (recordedIn calls)] at hkept
  rcases exists_of_run _ calls 0 p hkept with ⟨new, time, hnew, hp⟩
  have hrecorded := h.fromLast?_record q sentAt size 0 new hnew
  cases hrecorded
  have hlost : p.lost = (SentPacket.applyAll (heard q (h.record q sentAt size) 0 calls)
      { seq := q, sentAt, size }).lost := by
    rw [hp]
    rfl
  rw [hlost]
  refine ⟨SentPacket.lost_applyAll_iff _ rfl rfl _, fun hrow => ?_⟩
  have hheard := heard_of_inARow _ calls 0 _ p hnew hkept hrow
  refine ⟨hheard, fun htimes => ?_⟩
  have hsaid : heard q (h.record q sentAt size) 0 calls
      = saidOf q (h.record q sentAt size) calls := hheard
  rw [hsaid]
  exact SentPacket.lost_applyAll_iff_of_times _ rfl rfl _ htimes

-- The last number before zero is reported missing, then received, and then missing
-- again by feedback that is late. Another packet is sent in between.
theorem lost_iff_of_run_late :
    ∃ (calls : List Call) (p : SentPacket), recordedIn calls = 1
      ∧ (((start 4).record 65535 ⟨5⟩ 100).run calls).fromLast? 1 = some p
      ∧ saidOf 65535 ((start 4).record 65535 ⟨5⟩ 100) calls
        = [⟨65535, .notReceived, none⟩, ⟨65535, .smallDelta, some ⟨65000000⟩⟩,
          ⟨65535, .notReceived, none⟩]
      ∧ (p.lost = true
        ↔ (∃ r ∈ saidOf 65535 ((start 4).record 65535 ⟨5⟩ 100) calls,
            ¬ r.status.isReceived = true)
          ∧ ∀ r ∈ saidOf 65535 ((start 4).record 65535 ⟨5⟩ 100) calls,
            ¬ r.status.isReceived = true)
      ∧ p.lost = false := by
  let missing : Call := .read {} [255, 255, 0, 1, 0, 0, 0, 0, 0, 1]
  let calls : List Call := [missing, .send ⟨6⟩ 50, .attach 65535 ⟨7⟩,
    .read {} [255, 255, 0, 1, 0, 0, 1, 1, 32, 1, 4], missing]
  have hrow : ((start 4).record 65535 ⟨5⟩ 100).StaysInARow calls :=
    ⟨⟨by decide, by decide⟩, ⟨by decide, by decide⟩, ⟨by decide, by decide⟩,
      ⟨by decide, by decide⟩, ⟨by decide, by decide⟩, ⟨by decide, by decide⟩⟩
  have hsaid : saidOf 65535 ((start 4).record 65535 ⟨5⟩ 100) calls
      = [⟨65535, .notReceived, none⟩, ⟨65535, .smallDelta, some ⟨65000000⟩⟩,
        ⟨65535, .notReceived, none⟩] := by decide +kernel
  have hkept : (((start 4).record 65535 ⟨5⟩ 100).run calls).fromLast? (recordedIn calls)
      = some ⟨65535, ⟨5⟩, 100, some ⟨7⟩, some ⟨65000000⟩, false⟩ := by decide +kernel
  have hiff := ((lost_iff_of_run (start 4) 65535 ⟨5⟩ 100 calls _ hkept).2 hrow).2 (by
    rw [hsaid]
    decide)
  exact ⟨calls, _, rfl, hkept, hsaid, hiff, rfl⟩

/-- A packet can be lost after a report that it has arrived. The delta of that report
    leads to before the origin of the clock, so there is no time to go by, and a
    late report that it has not arrived undoes the other one. -/
theorem lost_of_no_time :
    ∃ (calls : List Call) (p : SentPacket),
      ((start 4).record 0 ⟨5000000⟩ 100).StaysInARow calls
        ∧ (((start 4).record 0 ⟨5000000⟩ 100).run calls).get? 0 = some p
        ∧ saidOf 0 ((start 4).record 0 ⟨5000000⟩ 100) calls
          = [⟨0, .largeDelta, none⟩, ⟨0, .notReceived, none⟩]
        ∧ p.lost = true := by
  let calls : List Call := [.read {} [0, 0, 0, 1, 0, 0, 0, 0, 224, 0, 255, 255],
    .read ⟨some 1⟩ [0, 0, 0, 1, 0, 0, 0, 1, 0, 1]]
  have hrow : ((start 4).record 0 ⟨5000000⟩ 100).StaysInARow calls :=
    ⟨⟨by decide, by decide⟩, ⟨by decide, by decide⟩, ⟨by decide, by decide⟩⟩
  exact ⟨calls, ⟨0, ⟨5000000⟩, 100, none, none, true⟩, hrow, by decide +kernel,
    by decide +kernel, rfl⟩

end SendHistory

end Feedback

end VideoTransport

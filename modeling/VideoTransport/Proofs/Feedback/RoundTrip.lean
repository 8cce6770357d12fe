import Mathlib.Data.List.Nodup
import VideoTransport.Proofs.Feedback.PacketSize

/-!
# Round Trip of Feedback

What a log of arrivals reports is what the other end reads.

The two ends share only bytes. The reader cuts them into chunks and deltas
again, and adds up the deltas to times. It cannot be off by more than one
rounding, because a window counts each delta from the time that this same sum
has come to. The log says which of the numbers in between have been recorded,
and the reader has to come to the same answer from the statuses alone: a number
of the batch that lies in the range of a feedback always has its delta there,
since the windows of a batch follow each other on the circle.

## Main definitions

* `PacketReport.Tells`: An entry says of its number what a batch knows of it.

## Theorems

* `Window.forall₂_received`: The entries with a delta are the arrivals, in order.
* `Window.mem_of_covered`: An arrival in the range of a window belongs to it.
* `Window.read_message`: What is read from the message of a window tells the batch.
* `ArrivalLog.read_reportedIn`: The same for all that a run reports.
-/

namespace VideoTransport

namespace Feedback

/-- An entry says of its number what a batch knows of it. If the number is in
    the batch, the entry has a time that is less than 250 microseconds from that
    of the arrival recorded first. If not, it has none. -/
def PacketReport.Tells (batch : List Arrival) (p : PacketReport) : Prop :=
  match firstOf batch p.seq with
  | some a => p.status.isReceived = true ∧ ∃ time, p.arrival = some time
    ∧ ((time.nanos : Int) - a.time.nanos).natAbs < 250000
  | none => p.status = .notReceived ∧ p.arrival = none

/-- The arrival is early enough for its reference time, of which 24 bits are
    sent in units of 64 milliseconds. -/
def Arrival.IsEarly (r : Arrival) : Prop :=
  r.time.nanos < 2 ^ 24 * 64000000

theorem Arrival.toNat_micros (r : Arrival) (h : r.IsEarly) :
    r.micros.toNat = r.time.nanos / 1000 ∧ r.micros.toNat < 2 ^ 24 * referenceUnit := by
  rw [IsEarly] at h
  have hmod : r.micros.toNat = r.time.nanos / 1000 := by
    rw [micros, UInt64.toNat_ofNat', Duration.micros]
    omega
  rw [hmod, referenceUnit]
  exact ⟨rfl, by omega⟩

-- A clock near an arrival is a time that is less than 250 microseconds from it,
-- in whole nanoseconds.
theorem Near.exists_timeOf (clock : Int) (r : Arrival) (h : Near clock r) (hr : r.IsEarly) :
    ∃ time, Reception.timeOf clock = some time
      ∧ ((time.nanos : Int) - r.time.nanos).natAbs < 250000 := by
  rcases h with ⟨hpos, hbelow, habove⟩
  have hmicros := (r.toNat_micros hr).1
  rw [deltaUnit] at hbelow habove
  refine ⟨.ofMicros clock.toNat, ?_, ?_⟩
  · rw [Reception.timeOf, if_neg (Int.not_lt.2 hpos)]
  · have hnanos : (Duration.ofMicros clock.toNat).nanos = clock.toNat * 1000 := rfl
    rw [hnanos]
    omega

/-- An entry is about an arrival: it has its number, and a clock near it. -/
def Reception.IsOf (r : Reception) (a : Arrival) : Prop :=
  r.seq = a.seq ∧ ∃ clock, Near clock a ∧ r.arrival = timeOf clock

-- Entries with the numbers of some arrivals, and with times that come from
-- clocks near them, are about these arrivals one by one.
theorem Reception.forall₂_isOf (rs : List Reception) (clocks : List Int) (part : List Arrival)
    (hseqs : rs.map (·.seq) = part.map Arrival.seq)
    (htimes : rs.map (·.arrival) = clocks.map timeOf) (hnear : List.Forall₂ Near clocks part) :
    List.Forall₂ IsOf rs part := by
  induction hnear generalizing rs with
  | nil =>
      rw [List.map_nil, List.map_eq_nil_iff] at hseqs
      rw [hseqs]
      exact List.Forall₂.nil
  | @cons clock a clocks part hclock _ ih =>
      rcases List.map_eq_cons_iff.1 hseqs with ⟨r, rest, rfl, hseq, hrest⟩
      rw [List.map_cons, List.map_cons, List.cons.injEq] at htimes
      exact List.Forall₂.cons ⟨hseq, clock, hclock, htimes.1⟩ (ih rest hrest htimes.2)

theorem Reception.exists_isOf_of_mem (rs : List Reception) (part : List Arrival)
    (h : List.Forall₂ IsOf rs part) (r : Reception) (hr : r ∈ rs) : ∃ a ∈ part, r.IsOf a := by
  induction h with
  | nil => exact absurd hr List.not_mem_nil
  | @cons r' a rs part hhead _ ih =>
      rcases List.mem_cons.1 hr with hr | hr
      · rw [hr]
        exact ⟨a, List.mem_cons_self, hhead⟩
      · rcases ih hr with ⟨b, hb, hisOf⟩
        exact ⟨b, List.mem_cons_of_mem a hb, hisOf⟩

namespace Window

/-- The entries of a window, as they are read from its statuses and deltas. -/
def entries (w : Window) : List Reception :=
  Reception.assign (w.reference * referenceUnit) (Message.number w.base w.statuses) w.deltas

theorem deltas_match (w : Window) :
    w.deltas.map Delta.status
      = ((Message.number w.base w.statuses).map Prod.snd).filter Status.isReceived := by
  rw [Message.map_snd_number, filter_statuses]

theorem map_entries (w : Window) :
    w.entries.map (fun r => (r.seq, r.status)) = Message.number w.base w.statuses :=
  Reception.map_assign _ _ _ w.deltas_match

/-- The entries with a delta are those of the arrivals, in order. -/
theorem forall₂_received (anchor : SeqNum) (w : Window) (part : List Arrival) (h : w.Tells part)
    (hahead : Ahead anchor (part.map Arrival.seq)) (hearly : ∀ r ∈ part, r.IsEarly) :
    List.Forall₂ Reception.IsOf (w.entries.filter fun r => r.status.isReceived) part := by
  have hseqs : (w.entries.filter fun r => r.status.isReceived).map (·.seq)
      = part.map Arrival.seq := by
    rw [← received_number anchor w part h hahead, ← w.map_entries, List.filter_map, List.map_map]
    rfl
  have htimes := Reception.arrival_assign (w.reference * referenceUnit)
    (Message.number w.base w.statuses) w.deltas w.deltas_match
  have hnear := h.near fun r hr => by
    have hlt := (r.toNat_micros (hearly r hr)).2
    rw [referenceUnit] at hlt
    omega
  exact Reception.forall₂_isOf _ _ part hseqs htimes hnear.2

/-- An arrival in the range of a window belongs to it: those of other windows
    lie before its first number, or behind its last one. -/
theorem mem_of_covered (first : Arrival) (rest before part after : List Arrival) (w : Window)
    (hsplit : inOrder (first :: rest) = before ++ part ++ after) (h : w.Tells part) (i : Nat)
    (hi : i < w.statuses.length) (a : Arrival) (ha : a ∈ inOrder (first :: rest))
    (hseq : a.seq = w.base.advance i) : a ∈ part := by
  have hahead := ahead_of_piece first rest before part after hsplit
  have hall := pairwise_inOrder first rest
  rcases length_statuses first.seq w part h hahead with ⟨last, hlast, hlen⟩
  have hlt := first.seq.distance_lt last.seq
  have hdistance : first.seq.distance a.seq = first.seq.distance w.base + i := by
    rw [hseq]
    exact SeqNum.distance_advance first.seq w.base i (by omega)
  have hbase : ∃ b ∈ part, b.seq = w.base := by
    have hmem : w.base ∈ part.map Arrival.seq := by
      rw [← h.numbers]
      exact List.mem_cons_self
    exact List.mem_map.1 hmem
  rcases hbase with ⟨b, hb, hbseq⟩
  -- Before the piece all distances are below that of its first number, and after
  -- it all are above that of its last one.
  rw [hsplit] at ha hall
  rcases List.pairwise_append.1 hall with ⟨hfront, _, hback⟩
  rcases List.pairwise_append.1 hfront with ⟨_, _, hbefore⟩
  rcases List.mem_append.1 ha with ha | ha
  · rcases List.mem_append.1 ha with ha | ha
    · have hab := hbefore a ha b hb
      rw [hbseq] at hab
      omega
    · exact ha
  · have hla := hback last (List.mem_append_right _ hlast) a ha
    omega

-- If a number in the range of a window is in the batch, its status says so.
theorem isReceived_of_covered (first : Arrival) (rest before part after : List Arrival)
    (w : Window) (hsplit : inOrder (first :: rest) = before ++ part ++ after) (h : w.Tells part)
    (hcircle : w.statuses.length ≤ 65536) (seq : SeqNum) (status : Status)
    (hnumber : (seq, status) ∈ Message.number w.base w.statuses) (a : Arrival)
    (hfirst : firstOf (first :: rest) seq = some a) : status.isReceived = true := by
  have hseq := (mem_of_firstOf _ _ _ hfirst).2
  have hrange : ∃ i < w.statuses.length, w.base.advance i = seq := by
    have hfst := List.mem_map_of_mem (f := Prod.fst) hnumber
    rw [Message.map_fst_number] at hfst
    rcases List.mem_map.1 hfst with ⟨i, hi, hadvance⟩
    exact ⟨i, List.mem_range.1 hi, hadvance⟩
  rcases hrange with ⟨i, hi, hadvance⟩
  have ha : a ∈ inOrder (first :: rest) := by
    rw [mem_inOrder, hseq]
    exact hfirst
  have hbelongs := mem_of_covered first rest before part after w hsplit h i hi a ha
    (hseq.trans hadvance.symm)
  -- So one of the statuses with a delta has this number, and it is the only one.
  have hdelta := List.mem_map_of_mem (f := Arrival.seq) hbelongs
  rw [← received_number first.seq w part h
    (ahead_of_piece first rest before part after hsplit)] at hdelta
  rcases List.mem_map.1 hdelta with ⟨e, he, heseq⟩
  rcases List.mem_filter.1 he with ⟨henumber, hestatus⟩
  have hsame := List.inj_on_of_nodup_map (Message.nodup_fst_number _ _ hcircle) henumber hnumber
    (heseq.trans hseq)
  rw [hsame] at hestatus
  exact hestatus

-- An entry of a window says of its number what the batch knows of it.
theorem entry_tells (first : Arrival) (rest before part after : List Arrival) (w : Window)
    (hsplit : inOrder (first :: rest) = before ++ part ++ after) (h : w.Tells part)
    (hearly : ∀ r ∈ first :: rest, r.IsEarly) (hcircle : w.statuses.length ≤ 65536)
    (p : PacketReport) (hp : p.toReception ∈ w.entries) : p.Tells (first :: rest) := by
  have hpart := firstOf_of_piece _ before part after hsplit
  have hparty (a : Arrival) (ha : a ∈ part) : a.IsEarly :=
    hearly a (mem_of_firstOf _ _ _ (hpart a ha)).1
  have hnumber : (p.seq, p.status) ∈ Message.number w.base w.statuses := by
    rw [← w.map_entries]
    exact List.mem_map_of_mem (f := fun r : Reception => (r.seq, r.status)) hp
  have hisOf (hstatus : p.status.isReceived = true) : ∃ a ∈ part, p.toReception.IsOf a :=
    Reception.exists_isOf_of_mem _ part (forall₂_received first.seq w part h
      (ahead_of_piece first rest before part after hsplit) hparty) _
      (List.mem_filter.2 ⟨hp, hstatus⟩)
  rw [PacketReport.Tells]
  cases hfirst : firstOf (first :: rest) p.seq with
  | some a =>
      have hstatus := isReceived_of_covered first rest before part after w hsplit h hcircle p.seq
        p.status hnumber a hfirst
      rcases hisOf hstatus with ⟨b, hb, hseq, clock, hnear, htime⟩
      rw [hseq, hpart b hb, Option.some.injEq] at hfirst
      rw [hfirst] at hnear hb
      rcases hnear.exists_timeOf clock a (hparty a hb) with ⟨time, htimeOf, hclose⟩
      exact ⟨hstatus, time, htime.trans htimeOf, hclose⟩
  | none =>
      have hstatus : ¬ p.status.isReceived = true := by
        intro hstatus
        rcases hisOf hstatus with ⟨b, hb, hseq, _⟩
        rw [hseq, hpart b hb] at hfirst
        exact Option.some_ne_none b hfirst
      have hmem := List.mem_map_of_mem (f := Prod.snd) hnumber
      rw [Message.map_snd_number] at hmem
      exact ⟨(w.mem_statuses p.status hmem).resolve_left hstatus,
        Reception.arrival_eq_none_of_mem_assign _ _ _ _ hp hstatus⟩

-- The time of an early arrival is told whole.
theorem toNat_referenceTime (w : Window) (part : List Arrival) (h : w.Tells part)
    (hearly : ∀ r ∈ part, r.IsEarly) (sender media : Ssrc) (count : UInt8) :
    (w.message sender media count).referenceTime.toNat = w.reference := by
  rcases h.reference_eq with ⟨r, hr, heq⟩
  have hlt := (r.toNat_micros (hearly r hr)).2
  rw [referenceUnit] at heq hlt
  rw [message, UInt32.toNat_ofNat']
  omega

-- A window has a status for its first arrival at least.
theorem statusCount_ne_zero (w : Window) (h : w.statuses.length < 65536) (sender media : Ssrc)
    (count : UInt8) : (w.message sender media count).statusCount ≠ 0 := by
  have hdeclared := w.toNat_statusCount sender media count h
  intro hzero
  rw [hzero, statuses, List.length_cons] at hdeclared
  exact absurd hdeclared (Nat.succ_ne_zero _).symm

/-- What a reader makes of the message of a window, if it has read no other, has
    an entry for each number in its range, and each of them tells the batch. -/
theorem read_message (batch : List Arrival) (w : Window) (hw : w ∈ windows (inOrder batch))
    (hearly : ∀ r ∈ batch, r.IsEarly) (hcircle : w.statuses.length < 65536)
    (sender media : Ssrc) (count : UInt8) (history : SendHistory) :
    ∃ info report reader history',
      controlInfo (w.message sender media count).bytes = .ok info
        ∧ ReportReader.read {} history info = .ok (report, reader, history')
        ∧ report.packets.map (·.seq) = (List.range w.statuses.length).map w.base.advance
        ∧ ∀ p ∈ report.packets, p.Tells batch := by
  rcases tells_of_mem_windows _ w hw with ⟨before, part, after, hsplit, htells⟩
  cases batch with
  | nil => exact absurd hw List.not_mem_nil
  | cons first rest =>
      have hparty (r : Arrival) (hr : r ∈ part) : r.IsEarly :=
        hearly r (mem_of_firstOf _ _ _ (firstOf_of_piece _ before part after hsplit r hr)).1
      have hreference := w.toNat_referenceTime part htells hparty sender media count
      rcases ReportReader.read_controlInfo {} history (w.message sender media count)
        (w.consistent_message sender media count hcircle)
        (w.statusCount_ne_zero hcircle sender media count) with ⟨receptions, heq, hread⟩
      have hentries : receptions = w.entries := by
        rw [heq, hreference, w.statuses_message sender media count hcircle]
        rfl
      have hinfo := (w.message sender media count).controlInfo_bytes_append
        (w.wordCount_le sender media count (Nat.le_of_lt hcircle)) []
      rw [List.append_nil] at hinfo
      refine ⟨_, _, _, _, hinfo, hread, ?_, ?_⟩
      · have hseqs := congrArg (List.map Prod.fst) w.map_entries
        rw [List.map_map, Message.map_fst_number] at hseqs
        rw [List.map_map, hentries]
        exact hseqs
      · intro p hp
        rcases List.mem_map.1 hp with ⟨r, hr, rfl⟩
        rw [hentries] at hr
        exact entry_tells first rest before part after w hsplit htells hearly
          (Nat.le_of_lt hcircle) _ hr

end Window

namespace ArrivalLog

/-- Whatever a run of calls reports is read by the other end as what has been
    recorded. What the messages are read with is new, but for the history of
    sent packets, and that has no part in it. -/
theorem read_reportedIn (mtu : Nat) (sender : Ssrc) (log : ArrivalLog)
    (hstart : start mtu sender = .ok log) (hmtu : mtu ≤ 65535) (calls : List Call)
    (htimes : ∀ r ssrc marker, .record r ssrc marker ∈ calls → r.IsEarly) :
    (log.reportedIn calls).map Reported.message = log.queuedIn calls
      ∧ ∀ t ∈ log.reportedIn calls,
        (∀ a ∈ t.batch, ∃ ssrc marker, .record a ssrc marker ∈ calls)
        ∧ ∀ history : SendHistory, ∃ info report reader history',
          controlInfo t.message.bytes = .ok info
            ∧ ReportReader.read {} history info = .ok (report, reader, history')
            ∧ report.packets.map (·.seq)
              = (List.range t.message.statusCount.toNat).map t.message.baseSeq.advance
            ∧ ∀ p ∈ report.packets, p.Tells t.batch := by
  refine ⟨log.message_reportedIn calls, fun t ht => ?_⟩
  rcases holds_start (P := fun r => ∃ ssrc marker, .record r ssrc marker ∈ calls) mtu sender log
    hstart with ⟨limit, hlimit, hholds, _⟩
  rcases statusLimit_eq mtu limit hlimit with ⟨heq, hpos⟩
  have hrecords : ∀ c ∈ calls, c.Records fun r => ∃ ssrc marker, .record r ssrc marker ∈ calls := by
    intro c hc
    cases c with
    | record r ssrc marker => exact ⟨ssrc, marker, hc⟩
    | _ => exact trivial
  have hsound := log.reportedIn_of_holds calls hholds (by omega) hrecords t ht
  refine ⟨hsound.arrivals, fun history => ?_⟩
  rcases hsound.window with ⟨w, hw, sender', media, count, hmessage⟩
  have hcircle : w.statuses.length < 65536 := by
    have hlen := Window.length_statuses_le t.batch w hw
    have hspan := hsound.span_le
    omega
  have hearly : ∀ r ∈ t.batch, r.IsEarly := by
    intro r hr
    rcases hsound.arrivals r hr with ⟨ssrc, marker, hr⟩
    exact htimes r ssrc marker hr
  rw [hmessage, w.toNat_statusCount sender' media count hcircle]
  exact w.read_message t.batch hw hearly hcircle sender' media count history

-- Two arrivals around the end of the circle, with one number lost between them:
-- the reader finds an entry for each of the three numbers.
theorem read_reportedIn_lost_number :
    ∃ log t report reader history', start 41 ⟨1⟩ = .ok log
      ∧ t ∈ log.reportedIn [.record ⟨65535, ⟨64001000⟩⟩ ⟨2⟩ false,
        .record ⟨1, ⟨64601000⟩⟩ ⟨2⟩ true]
      ∧ controlInfo t.message.bytes = .ok [255, 255, 0, 3, 0, 0, 1, 0, 168, 0, 0, 2]
      ∧ ReportReader.read {} (.start 16) [255, 255, 0, 3, 0, 0, 1, 0, 168, 0, 0, 2]
        = .ok (report, reader, history')
      ∧ report.packets.map (·.seq) = [65535, 0, 1] ∧ ∀ p ∈ report.packets, p.Tells t.batch := by
  have hsorted : inOrder [⟨65535, ⟨64001000⟩⟩, ⟨1, ⟨64601000⟩⟩]
      = [⟨65535, ⟨64001000⟩⟩, ⟨1, ⟨64601000⟩⟩] := inOrder_of_pairwise _ _ (by decide)
  have hreported : reportedIn { limit := 7, sender := ⟨1⟩ }
      [.record ⟨65535, ⟨64001000⟩⟩ ⟨2⟩ false, .record ⟨1, ⟨64601000⟩⟩ ⟨2⟩ true]
      = [⟨[⟨65535, ⟨64001000⟩⟩, ⟨1, ⟨64601000⟩⟩], {
        senderSsrc := ⟨1⟩
        mediaSsrc := ⟨2⟩
        baseSeq := 65535
        statusCount := 3
        referenceTime := 1
        feedbackCount := 0
        chunks := [.single 10240]
        deltas := [.small 0, .small 2] }⟩] := by
    -- The sorting is not computed, so it has to be in sight before it is replaced.
    change ((messages { limit := 7, sender := ⟨1⟩, media := some ⟨2⟩ }
      (windows (inOrder [⟨65535, ⟨64001000⟩⟩, ⟨1, ⟨64601000⟩⟩]))).map
      fun m => Reported.mk [⟨65535, ⟨64001000⟩⟩, ⟨1, ⟨64601000⟩⟩] m) ++ [] = _
    rw [hsorted]
    rfl
  have ht := List.mem_of_mem_head? (congrArg List.head? hreported)
  have htimes : ∀ r ssrc marker, Call.record r ssrc marker
      ∈ [.record ⟨65535, ⟨64001000⟩⟩ ⟨2⟩ false, .record ⟨1, ⟨64601000⟩⟩ ⟨2⟩ true] → r.IsEarly := by
    intro r ssrc marker hr
    simp only [List.mem_cons, Call.record.injEq, List.not_mem_nil, or_false] at hr
    rcases hr with ⟨rfl, _⟩ | ⟨rfl, _⟩
    · rw [Arrival.IsEarly]
      decide
    · rw [Arrival.IsEarly]
      decide
  rcases ((read_reportedIn 41 ⟨1⟩ _ rfl (by decide) _ htimes).2 _ ht).2 (.start 16) with
    ⟨info, report, reader, history', hinfo, hread, hseqs, htells⟩
  cases hinfo
  exact ⟨_, _, report, reader, history', rfl, ht, rfl, hread, hseqs, htells⟩

end ArrivalLog

end Feedback

end VideoTransport

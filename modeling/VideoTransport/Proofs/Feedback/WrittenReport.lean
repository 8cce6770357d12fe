import Mathlib.Data.List.Nodup
import VideoTransport.Feedback.Report
import VideoTransport.Proofs.Circle
import VideoTransport.Proofs.Feedback.ChunkCodec
import VideoTransport.Proofs.Feedback.PacketFraming

/-!
# Reports on Written Feedback

What a reader makes of the control information of a message that is consistent
in itself.

A reader works out three things that the bytes do not state: where the chunks
end, which deltas there are, and to which statuses they belong. A message is
`Consistent` if its fields agree on all three. Then the reader finds every
status and joins each one that says so with its own delta, and `Reception.join`
is what comes out: a plain walk over statuses and deltas, in which no bytes are
left.

The times of arrival are running sums of the deltas. `Delta.clocks` lists them,
and it is the same list whatever lies between the statuses that have one.

## Main definitions

* `Message.Consistent`: The fields of a message agree with each other.
* `Delta.clocks`: The running sums of deltas, beginning at some time.
* `Delta.clockAfter`: Where some deltas lead.
* `Reception.assign`: Statuses, each with the time that its delta leads to.
* `Report.receptions`: What a report says about each number.

## Theorems

* `Reception.describedStatuses_wire`: The chunks of a message end where its deltas begin.
* `Reception.ofStatuses_append`: Reading deltas from bytes is walking over them.
* `Reception.map_assign`: No status is lost, and the numbers stay in order.
* `Reception.arrival_assign`: The statuses with a delta have the running sums as times.
* `ReportReader.read_fields`: The report on control information, by its fields.
* `ReportReader.read_controlInfo`: The report on a consistent message.
-/

namespace VideoTransport

namespace Feedback

namespace Delta

/-- The running sums of deltas, in microseconds. -/
def clocks (clock : Int) : List Delta → List Int
  | [] => []
  | d :: rest => (clock + d.units * deltaUnit) :: clocks (clock + d.units * deltaUnit) rest

/-- Where some deltas lead, in microseconds. -/
def clockAfter (clock : Int) (deltas : List Delta) : Int :=
  deltas.foldl (fun clock d => clock + d.units * deltaUnit) clock

theorem isReceived_status (d : Delta) : d.status.isReceived = true := by
  cases d <;> rfl

theorem ofBytes_bytes (u : Int16) :
    ofBytes (UInt8.ofNat (u.toUInt16.toNat / 256)) (UInt8.ofNat u.toUInt16.toNat) = large u := by
  rw [ofBytes, BigEndian.join16_bytes16]
  rfl

end Delta

namespace Message

/-- The fields of a message agree: what each of them holds fits its place, the
    chunks describe as many statuses as declared, and there is one delta of the
    right size for each status that announces one. -/
structure Consistent (m : Message) : Prop where
  referenceTime_lt : m.referenceTime.toNat < 16777216
  fitsWire : ∀ c ∈ m.chunks, c.FitsWire
  covers : Chunk.Covers m.chunks m.statusCount.toNat
  deltas_match : m.deltas.map Delta.status = (m.statuses.map Prod.snd).filter Status.isReceived

theorem number_cons (base : SeqNum) (s : Status) (rest : List Status) :
    number base (s :: rest) = (base, s) :: number (base.advance 1) rest := by
  rw [number, List.zipIdx_cons', List.map_cons, List.map_map, number]
  simp only
  rw [SeqNum.advance_zero]
  congr 1
  apply List.map_congr_left
  intro entry _
  simp only [Function.comp_apply, Prod.map_fst, Prod.map_snd, id_eq]
  rw [SeqNum.advance_advance, Nat.add_comm]

theorem number_append (base : SeqNum) (ss ts : List Status) :
    number base (ss ++ ts) = number base ss ++ number (base.advance ss.length) ts := by
  induction ss generalizing base with
  | nil => rw [List.nil_append, List.length_nil, SeqNum.advance_zero]; rfl
  | cons s rest ih =>
      rw [List.cons_append, number_cons, number_cons, ih, SeqNum.advance_advance, List.length_cons,
        Nat.add_comm 1, List.cons_append]

@[simp] theorem length_number (base : SeqNum) (ss : List Status) :
    (number base ss).length = ss.length := by
  rw [number, List.length_map, List.length_zipIdx]

theorem map_snd_number (base : SeqNum) (ss : List Status) :
    (number base ss).map Prod.snd = ss := by
  induction ss generalizing base with
  | nil => rfl
  | cons s rest ih => rw [number_cons, List.map_cons, ih]

theorem map_fst_number (base : SeqNum) (ss : List Status) :
    (number base ss).map Prod.fst = (List.range ss.length).map base.advance := by
  rw [number, List.map_map, List.range_eq_range', ← List.zipIdx_map_snd 0 ss, List.map_map]
  rfl

-- Up to one turn, the numbers in a row are different from each other.
theorem nodup_fst_number (base : SeqNum) (ss : List Status) (h : ss.length ≤ 65536) :
    ((number base ss).map Prod.fst).Nodup := by
  rw [map_fst_number]
  refine List.Nodup.map_on ?_ List.nodup_range
  intro i hi j hj hij
  rw [List.mem_range] at hi hj
  exact base.advance_injective i j (by omega) (by omega) hij

end Message

namespace Reception

/-- The chunks of a message end where its deltas begin. A reader that counts
    down finds them all, since each of them is needed to get to the count. -/
theorem describedStatuses_wire (cs : List Chunk) (count : Nat) (found : Array Status)
    (rest : List UInt8) (hfits : ∀ c ∈ cs, c.FitsWire)
    (hcovers : Chunk.Covers cs (count - found.size)) :
    describedStatuses count found (cs.flatMap (fun c => BigEndian.bytes16 c.wire) ++ rest)
      = (found.toList ++ (cs.flatMap Chunk.statuses).take (count - found.size), rest) := by
  induction cs generalizing found with
  | nil =>
      have hdone : count ≤ found.size := by
        rw [Chunk.Covers] at hcovers
        omega
      have hstop : describedStatuses count found rest = (found.toList, rest) := by
        unfold describedStatuses
        split
        · rw [if_pos hdone]
        · rfl
      simp only [List.flatMap_nil, List.nil_append, List.take_nil, List.append_nil]
      exact hstop
  | cons c cs ih =>
      rcases hcovers with ⟨hpos, hcs⟩
      have hmore : ¬ count ≤ found.size := by omega
      have hsize : (found ++ c.firstStatuses (count - found.size)).size
          = found.size + min (count - found.size) c.statuses.length := by
        rw [← Array.length_toList, Array.toList_appendList]
        simp [Chunk.firstStatuses_eq]
      have hleft : count - (found ++ c.firstStatuses (count - found.size)).size
          = count - found.size - c.capacity := by
        rw [hsize, Chunk.length_statuses]
        omega
      rw [List.flatMap_cons, BigEndian.bytes16]
      simp only [List.cons_append, List.nil_append]
      rw [describedStatuses, if_neg hmore, BigEndian.join16_bytes16,
        Chunk.ofWire_wire c (hfits c (List.mem_cons_self ..))]
      rw [ih _ (fun d hd => hfits d (List.mem_cons_of_mem _ hd)) (by rw [hleft]; exact hcs), hleft,
        List.flatMap_cons, List.take_append, Array.toList_appendList, Chunk.firstStatuses_eq,
        List.append_assoc, Chunk.length_statuses]

/-- Statuses, each with the time that its delta leads to if it has one. The walk
    ends before a status whose delta is missing. -/
def assign (clock : Int) : List (SeqNum × Status) → List Delta → List Reception
  | [], _ => []
  | (seq, status) :: rest, deltas =>
    if status.isReceived then
      match deltas with
      | [] => []
      | d :: deltas =>
        ⟨seq, status, timeOf (clock + d.units * deltaUnit)⟩
          :: assign (clock + d.units * deltaUnit) rest deltas
    else ⟨seq, status, none⟩ :: assign clock rest deltas

theorem assign_skip (clock : Int) (seq : SeqNum) (status : Status) (rest : List (SeqNum × Status))
    (deltas : List Delta) (h : ¬ status.isReceived = true) :
    assign clock ((seq, status) :: rest) deltas = ⟨seq, status, none⟩ :: assign clock rest deltas := by
  rw [assign.eq_def]
  simp only
  rw [if_neg h]

theorem assign_take (clock : Int) (seq : SeqNum) (status : Status) (rest : List (SeqNum × Status))
    (d : Delta) (deltas : List Delta) (h : status.isReceived = true) :
    assign clock ((seq, status) :: rest) (d :: deltas)
      = ⟨seq, status, timeOf (clock + d.units * deltaUnit)⟩
        :: assign (clock + d.units * deltaUnit) rest deltas := by
  rw [assign, if_pos h]

theorem ofStatuses_eq_append (found : Array Reception) (clock : Int)
    (numbered : List (SeqNum × Status)) (bytes : List UInt8) :
    ofStatuses found clock numbered bytes
      = found.toList ++ ofStatuses #[] clock numbered bytes := by
  induction numbered generalizing found clock bytes with
  | nil => rw [ofStatuses, ofStatuses, List.append_nil]
  | cons entry rest ih =>
      rw [ofStatuses, ofStatuses]
      cases readUnits entry.2 bytes with
      | none => rw [List.append_nil]
      | some found' =>
          rcases found' with ⟨_ | units, bytes⟩
          · simp only
            rw [ih, ih (#[].push _), Array.toList_push, Array.toList_push, List.append_assoc]
            rfl
          · simp only
            rw [ih, ih (#[].push _), Array.toList_push, Array.toList_push, List.append_assoc]
            rfl

/-- A status is joined with the delta that it announces, if it does, and the
    clock is moved on by it. -/
theorem ofStatuses_cons (clock : Int) (seq : SeqNum) (status : Status)
    (rest : List (SeqNum × Status)) (bytes left : List UInt8) (units : Option Int)
    (hread : readUnits status bytes = some (units, left)) :
    ofStatuses #[] clock ((seq, status) :: rest) bytes
      = ⟨seq, status, units.bind fun u => timeOf (clock + u * deltaUnit)⟩
        :: ofStatuses #[] (clock + units.getD 0 * deltaUnit) rest left := by
  rw [ofStatuses, hread]
  cases units with
  | none =>
      simp only
      rw [ofStatuses_eq_append, Option.getD_none, Int.zero_mul, Int.add_zero]
      rfl
  | some u =>
      simp only
      rw [ofStatuses_eq_append]
      rfl

-- Nothing is said about a status whose delta is missing, nor about those behind it.
theorem ofStatuses_missing (clock : Int) (seq : SeqNum) (status : Status)
    (rest : List (SeqNum × Status)) (bytes : List UInt8) (hread : readUnits status bytes = none) :
    ofStatuses #[] clock ((seq, status) :: rest) bytes = [] := by
  rw [ofStatuses, hread]

theorem readUnits_skip (status : Status) (bytes : List UInt8)
    (h : ¬ status.isReceived = true) : readUnits status bytes = some (none, bytes) := by
  cases status with
  | notReceived => rfl
  | unknown => rfl
  | smallDelta => exact absurd rfl h
  | largeDelta => exact absurd rfl h

theorem readUnits_bytes (d : Delta) (rest : List UInt8) :
    readUnits d.status (d.bytes ++ rest) = some (some d.units, rest) := by
  cases d with
  | small u => rfl
  | large u =>
      simp only [Delta.status, Delta.bytes, BigEndian.bytes16, List.cons_append, List.nil_append,
        readUnits, Delta.ofBytes_bytes]

/-- Reading deltas from bytes is walking over them. Behind them it goes on with
    the statuses and the bytes that are left. -/
theorem ofStatuses_append (clock : Int) (numbered more : List (SeqNum × Status))
    (deltas : List Delta) (rest : List UInt8)
    (hmatch : deltas.map Delta.status = (numbered.map Prod.snd).filter Status.isReceived) :
    ofStatuses #[] clock (numbered ++ more) (deltas.flatMap Delta.bytes ++ rest)
      = assign clock numbered deltas
        ++ ofStatuses #[] (Delta.clockAfter clock deltas) more rest := by
  induction numbered generalizing clock deltas with
  | nil =>
      rw [List.map_nil, List.filter_nil, List.map_eq_nil_iff] at hmatch
      rw [hmatch]
      rfl
  | cons entry numbered ih =>
      rcases entry with ⟨seq, status⟩
      by_cases hreceived : status.isReceived = true
      · -- The status takes the first delta, which has its size.
        rw [List.map_cons, List.filter_cons_of_pos hreceived] at hmatch
        rcases List.map_eq_cons_iff.1 hmatch with ⟨d, ds, rfl, rfl, hds⟩
        rw [assign_take _ _ _ _ _ _ hreceived, List.flatMap_cons, List.append_assoc,
          List.cons_append, ofStatuses_cons _ _ _ _ _ _ _ (readUnits_bytes d _),
          Option.getD_some, ih _ ds hds]
        rfl
      · rw [List.map_cons, List.filter_cons_of_neg hreceived] at hmatch
        rw [assign_skip _ _ _ _ _ hreceived, List.cons_append,
          ofStatuses_cons _ _ _ _ _ _ _ (readUnits_skip _ _ hreceived), Option.getD_none,
          Int.zero_mul, Int.add_zero, ih _ deltas hmatch]
        rfl

-- If there is a delta for each status that announces one, what follows them does
-- not matter.
theorem ofStatuses_bytes (clock : Int) (numbered : List (SeqNum × Status)) (deltas : List Delta)
    (rest : List UInt8)
    (hmatch : deltas.map Delta.status = (numbered.map Prod.snd).filter Status.isReceived) :
    ofStatuses #[] clock numbered (deltas.flatMap Delta.bytes ++ rest)
      = assign clock numbered deltas := by
  have hwalk := ofStatuses_append clock numbered [] deltas rest hmatch
  rw [List.append_nil, ofStatuses, List.append_nil] at hwalk
  exact hwalk

/-- No status is lost on the walk, and the numbers stay in order. -/
theorem map_assign (clock : Int) (numbered : List (SeqNum × Status)) (deltas : List Delta)
    (hmatch : deltas.map Delta.status = (numbered.map Prod.snd).filter Status.isReceived) :
    (assign clock numbered deltas).map (fun r => (r.seq, r.status)) = numbered := by
  induction numbered generalizing clock deltas with
  | nil => rfl
  | cons entry more ih =>
      rcases entry with ⟨seq, status⟩
      by_cases hreceived : status.isReceived = true
      · rw [List.map_cons, List.filter_cons_of_pos hreceived] at hmatch
        rcases List.map_eq_cons_iff.1 hmatch with ⟨d, ds, rfl, hd, hds⟩
        rw [assign_take _ _ _ _ _ _ hreceived]
        simp only [List.map_cons]
        rw [ih _ ds hds]
      · rw [List.map_cons, List.filter_cons_of_neg hreceived] at hmatch
        rw [assign_skip _ _ _ _ _ hreceived, List.map_cons, ih _ deltas hmatch]

/-- The statuses with a delta have the running sums as their times, in order. -/
theorem arrival_assign (clock : Int) (numbered : List (SeqNum × Status)) (deltas : List Delta)
    (hmatch : deltas.map Delta.status = (numbered.map Prod.snd).filter Status.isReceived) :
    ((assign clock numbered deltas).filter (·.status.isReceived)).map (·.arrival)
      = (Delta.clocks clock deltas).map timeOf := by
  induction numbered generalizing clock deltas with
  | nil =>
      rw [List.map_nil, List.filter_nil, List.map_eq_nil_iff] at hmatch
      rw [hmatch]
      rfl
  | cons entry more ih =>
      rcases entry with ⟨seq, status⟩
      by_cases hreceived : status.isReceived = true
      · rw [List.map_cons, List.filter_cons_of_pos hreceived] at hmatch
        rcases List.map_eq_cons_iff.1 hmatch with ⟨d, ds, rfl, hd, hds⟩
        rw [assign_take _ _ _ _ _ _ hreceived, Delta.clocks, List.filter_cons, if_pos hreceived,
          List.map_cons, List.map_cons, ih _ ds hds]
      · rw [List.map_cons, List.filter_cons_of_neg hreceived] at hmatch
        rw [assign_skip _ _ _ _ _ hreceived, List.filter_cons, if_neg hreceived,
          ih _ deltas hmatch]

-- A status without a delta has no time.
theorem arrival_eq_none_of_mem_assign (clock : Int) (numbered : List (SeqNum × Status))
    (deltas : List Delta) (r : Reception) (hr : r ∈ assign clock numbered deltas)
    (hnot : ¬ r.status.isReceived = true) : r.arrival = none := by
  induction numbered generalizing clock deltas with
  | nil => exact absurd hr List.not_mem_nil
  | cons entry more ih =>
      rcases entry with ⟨seq, status⟩
      by_cases hreceived : status.isReceived = true
      · cases deltas with
        | nil =>
            rw [assign, if_pos hreceived] at hr
            exact absurd hr List.not_mem_nil
        | cons d ds =>
            rw [assign_take _ _ _ _ _ _ hreceived] at hr
            rcases List.mem_cons.1 hr with hr | hr
            · rw [hr] at hnot
              exact absurd hreceived hnot
            · exact ih _ ds hr
      · rw [assign_skip _ _ _ _ _ hreceived] at hr
        rcases List.mem_cons.1 hr with hr | hr
        · rw [hr]
        · exact ih _ deltas hr

end Reception

/-- What a report says about each number, without what is known of the packet. -/
def Report.receptions (r : Report) : List Reception :=
  r.packets.map (·.toReception)

-- The history adds to what is said, and takes nothing away.
@[simp] theorem SendHistory.map_toReception_join (h : SendHistory) (rs : List Reception) :
    (rs.map h.join).map (·.toReception) = rs := by
  rw [List.map_map]
  exact List.map_id' rs

namespace ReportReader

-- Numbers that were passed over announce no deltas.
theorem filter_skipped (r : ReportReader) (base : SeqNum) :
    ((r.skipped base).map Prod.snd).filter Status.isReceived = [] := by
  rw [skipped]
  cases r.expected with
  | none => rfl
  | some expected =>
      simp only
      rw [Message.map_snd_number, List.filter_replicate]
      rfl

/-- Control information is read by its fields: the fixed ones as they were
    written, and behind them whatever there is, if it has room for a chunk. -/
theorem read_fields (r : ReportReader) (h : SendHistory) (base : SeqNum) (count : UInt16)
    (reference : UInt32) (feedbackCount : UInt8) (body : List UInt8)
    (hreference : reference.toNat < 16777216) (hbody : 2 ≤ body.length) :
    r.read h (BigEndian.bytes16 base ++ BigEndian.bytes16 count ++ BigEndian.bytes24 reference
        ++ [feedbackCount] ++ body)
      = .ok ({
          baseSeq := base
          declaredCount := count
          referenceTime := .ofMicros (reference.toNat * referenceUnit)
          feedbackCount
          packets := (r.receptions base count reference body).map
            (h.applyAll (r.receptions base count reference body)).join },
        r.moveTo (base + count), h.applyAll (r.receptions base count reference body)) := by
  rcases body with _ | ⟨c0, _ | ⟨c1, rest⟩⟩
  · exact absurd hbody (by decide)
  · exact absurd hbody (by simp only [List.length_singleton]; decide)
  · simp only [BigEndian.bytes16, BigEndian.bytes24, List.cons_append, List.nil_append, read,
      BigEndian.join16_bytes16, BigEndian.join24_bytes24 _ hreference]

-- The same, with what is said about each number apart from what is known of packets.
theorem exists_read_fields (r : ReportReader) (h : SendHistory) (base : SeqNum) (count : UInt16)
    (reference : UInt32) (feedbackCount : UInt8) (body : List UInt8)
    (hreference : reference.toNat < 16777216) (hbody : 2 ≤ body.length) :
    ∃ report, r.read h (BigEndian.bytes16 base ++ BigEndian.bytes16 count
          ++ BigEndian.bytes24 reference ++ [feedbackCount] ++ body)
        = .ok (report, r.moveTo (base + count), h.applyAll report.receptions)
      ∧ report.baseSeq = base ∧ report.declaredCount = count
      ∧ report.referenceTime = .ofMicros (reference.toNat * referenceUnit)
      ∧ report.feedbackCount = feedbackCount
      ∧ report.receptions = r.receptions base count reference body := by
  refine ⟨⟨base, count, .ofMicros (reference.toNat * referenceUnit), feedbackCount,
    (r.receptions base count reference body).map
      (h.applyAll (r.receptions base count reference body)).join⟩,
    ?_, rfl, rfl, rfl, rfl, SendHistory.map_toReception_join _ _⟩
  rw [r.read_fields h base count reference feedbackCount body hreference hbody, Report.receptions,
    SendHistory.map_toReception_join]

/-- What the body of a consistent message says, whatever follows it. -/
theorem receptions_of_consistent (r : ReportReader) (m : Message) (hm : m.Consistent)
    (rest : List UInt8) :
    r.receptions m.baseSeq m.statusCount m.referenceTime
        (m.chunks.flatMap (fun c => BigEndian.bytes16 c.wire)
          ++ (m.deltas.flatMap Delta.bytes ++ rest))
      = Reception.assign (m.referenceTime.toNat * referenceUnit)
        (r.skipped m.baseSeq ++ m.statuses) m.deltas := by
  have hchunks := Reception.describedStatuses_wire m.chunks m.statusCount.toNat #[]
    (m.deltas.flatMap Delta.bytes ++ rest) hm.fitsWire hm.covers
  have hmatch : m.deltas.map Delta.status
      = ((r.skipped m.baseSeq ++ m.statuses).map Prod.snd).filter Status.isReceived := by
    rw [List.map_append, List.filter_append, filter_skipped, List.nil_append, hm.deltas_match]
  rw [receptions, hchunks]
  simp only [List.nil_append, Array.size_empty, Nat.sub_zero]
  rw [← Chunk.decode_eq]
  exact Reception.ofStatuses_bytes _ _ m.deltas rest hmatch

/-- The report on a consistent message that declares a status at least. -/
theorem read_controlInfo (r : ReportReader) (h : SendHistory) (m : Message) (hm : m.Consistent)
    (hcount : m.statusCount ≠ 0) :
    ∃ receptions, receptions = Reception.assign (m.referenceTime.toNat * referenceUnit)
        (r.skipped m.baseSeq ++ m.statuses) m.deltas
      ∧ r.read h m.controlInfo = .ok ({
          baseSeq := m.baseSeq
          declaredCount := m.statusCount
          referenceTime := .ofMicros (m.referenceTime.toNat * referenceUnit)
          feedbackCount := m.feedbackCount
          packets := receptions.map (h.applyAll receptions).join },
        r.moveTo (m.baseSeq + m.statusCount), h.applyAll receptions) := by
  refine ⟨_, rfl, ?_⟩
  -- There is a chunk, or else nothing would cover the count.
  have hbody : 2 ≤ (m.chunks.flatMap (fun c : Chunk => BigEndian.bytes16 c.wire)
      ++ (m.deltas.flatMap Delta.bytes ++ [])).length := by
    cases hchunks : m.chunks with
    | nil =>
        have hcovers := hm.covers
        rw [hchunks, Chunk.Covers] at hcovers
        exact absurd (UInt16.toNat_inj.1 hcovers) hcount
    | cons c cs =>
        rw [List.flatMap_cons, List.length_append, List.length_append, BigEndian.length_bytes16]
        omega
  have hread := r.read_fields h m.baseSeq m.statusCount m.referenceTime m.feedbackCount _
    hm.referenceTime_lt hbody
  rw [r.receptions_of_consistent m hm] at hread
  rw [← hread, Message.controlInfo]
  simp only [List.append_nil, List.append_assoc]

end ReportReader

end Feedback

end VideoTransport

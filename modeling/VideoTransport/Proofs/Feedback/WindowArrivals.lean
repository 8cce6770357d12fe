import Mathlib.Data.List.Forall2
import VideoTransport.Proofs.Feedback.BatchOrder
import VideoTransport.Proofs.Feedback.ChunkEncoding
import VideoTransport.Proofs.Feedback.WrittenReport

/-!
# Arrivals of a Window

What the message of a window says about the arrivals that went into it.

A window keeps no arrivals. `Window.Tells` relates it to those it was made of:
the numbers are theirs, and a reader's clock is near the time of each. The clock
is the invariant that carries this. A delta is cut off toward zero, so the clock
never passes the arrival that it moves toward and ends less than one unit from
it. What is left over is part of the next difference, so it does not matter how
many deltas came before, or of which sign they were.

A clock that is moved back stops at an arrival or above it, and so never falls
below zero, where a reader would give no time.

## Main definitions

* `Near`: A clock is less than one unit from an arrival, and not below zero.
* `Window.Tells`: A window was made of some arrivals.

## Theorems

* `Window.tells_start`, `Window.tells_extend?`: Each arrival that joins is told.
* `Window.windows_tell`: The windows of a batch tell it piece by piece.
* `Window.length_fillFrom`: A window has a status for each number from first to last.
* `Window.received_number`: The numbers with a delta are those of the arrivals.
* `Window.consistent_message`: The message of a window is consistent.
* `Window.length_statuses_le`: No window covers more than the span of its batch.
-/

namespace VideoTransport

namespace Feedback

/-- The time that is meant is less than one unit from the arrival, and not
    before the origin of the clock. -/
def Near (time : Int) (r : Arrival) : Prop :=
  0 ≤ time ∧ time - r.micros.toNat < deltaUnit ∧ (r.micros.toNat : Int) - time < deltaUnit

theorem Arrival.signedMicros_eq (r : Arrival) (h : r.micros.toNat < 2 ^ 63) :
    r.signedMicros = r.micros.toNat := by
  have hbmod : r.signedMicros = (r.micros.toNat : Int).bmod (2 ^ 64) :=
    BitVec.toInt_eq_toNat_bmod _
  rw [hbmod]
  exact Int.bmod_eq_of_le_mul_two (by omega) (by omega)

namespace Delta

theorem clockAfter_append (clock : Int) (ds : List Delta) (d : Delta) :
    clockAfter clock (ds ++ [d]) = clockAfter clock ds + d.units * deltaUnit := by
  rw [clockAfter, List.foldl_append]
  rfl

theorem clocks_append (clock : Int) (ds : List Delta) (d : Delta) :
    clocks clock (ds ++ [d]) = clocks clock ds ++ [clockAfter clock ds + d.units * deltaUnit] := by
  induction ds generalizing clock with
  | nil => rfl
  | cons e rest ih =>
      rw [List.cons_append, clocks, clocks, ih, List.cons_append]
      rfl

-- What is sent as a delta is what was meant.
theorem units_of_ofUnits? (units : Int) (d : Delta) (h : ofUnits? units = some d) :
    d.units = units := by
  rw [ofUnits?] at h
  by_cases hsmall : 0 ≤ units ∧ units ≤ 255
  · rw [if_pos hsmall, Option.some.injEq] at h
    rw [← h, Delta.units, UInt8.toNat_ofNat']
    omega
  · rw [if_neg hsmall] at h
    by_cases hlarge : -32768 ≤ units ∧ units ≤ 32767
    · rw [if_pos hlarge, Option.some.injEq] at h
      rw [← h]
      exact Int16.toInt_ofInt_of_le hlarge.1 (by omega)
    · rw [if_neg hlarge] at h
      exact absurd h (by simp only [reduceCtorEq, not_false_eq_true])

end Delta

namespace Window

/-- A window was made of some arrivals: it has their numbers, and a reader of
    its deltas has a clock near each of them. -/
structure Tells (w : Window) (part : List Arrival) : Prop where
  numbers : w.base :: w.later.reverse.map Prod.fst = part.map Arrival.seq
  reference_eq : ∃ r ∈ part, w.reference = r.micros.toNat / referenceUnit
  clock_eq : Delta.clockAfter (w.reference * referenceUnit) w.deltas = w.clock
  near : (∀ r ∈ part, r.micros.toNat < 2 ^ 63) →
    0 ≤ w.clock ∧ List.Forall₂ Near (Delta.clocks (w.reference * referenceUnit) w.deltas) part

/-- A new window tells its first arrival. What the reference time leaves of it
    is cut off to whole units. -/
theorem tells_start (r : Arrival) : (start r).Tells [r] := by
  have hunits : r.micros.toNat % referenceUnit / deltaUnit < 256 := by
    rw [referenceUnit, deltaUnit]
    omega
  have hsmall : (Delta.small (UInt8.ofNat (r.micros.toNat % referenceUnit / deltaUnit))).units
      = ((r.micros.toNat % referenceUnit / deltaUnit : Nat) : Int) := by
    rw [Delta.units, UInt8.toNat_ofNat', Nat.mod_eq_of_lt hunits]
  refine ⟨rfl, ⟨r, List.mem_singleton_self r, rfl⟩, ?_, fun _ => ?_⟩
  · simp only [start, deltas, List.reverse_nil, List.map_nil, Delta.clockAfter, List.foldl_cons,
      List.foldl_nil, hsmall]
  · have hclock : Near ((start r).reference * referenceUnit
        + (r.micros.toNat % referenceUnit / deltaUnit : Nat) * deltaUnit) r := by
      simp only [Near, start, referenceUnit, deltaUnit]
      omega
    refine ⟨hclock.1, ?_⟩
    simp only [start, deltas, List.reverse_nil, List.map_nil, Delta.clocks, hsmall]
    exact List.Forall₂.cons hclock List.Forall₂.nil

-- A clock that is moved toward an arrival by whole units comes near it. It does
-- not pass it, so moving back keeps it above zero.
theorem near_toward (clock : Int) (r : Arrival) (hclock : 0 ≤ clock) :
    Near (clock + ((r.micros.toNat : Int) - clock).tdiv deltaUnit * deltaUnit) r := by
  have hsplit := Int.mul_tdiv_add_tmod ((r.micros.toNat : Int) - clock) deltaUnit
  have hlt := Int.tmod_lt_of_pos ((r.micros.toNat : Int) - clock) (b := (deltaUnit : Int))
    (by decide)
  have hgt := Int.lt_tmod_of_pos ((r.micros.toNat : Int) - clock) (b := (deltaUnit : Int))
    (by decide)
  have hahead : 0 ≤ (r.micros.toNat : Int) - clock
      → 0 ≤ ((r.micros.toNat : Int) - clock).tmod deltaUnit := Int.tmod_nonneg _
  have hbehind : (r.micros.toNat : Int) - clock ≤ 0
      → ((r.micros.toNat : Int) - clock).tmod deltaUnit ≤ 0 := by
    intro hle
    have hneg := Int.tmod_nonneg (a := -((r.micros.toNat : Int) - clock)) deltaUnit (by omega)
    rw [Int.neg_tmod] at hneg
    omega
  generalize ((r.micros.toNat : Int) - clock).tdiv deltaUnit = units at *
  generalize ((r.micros.toNat : Int) - clock).tmod deltaUnit = rest at *
  simp only [Near, deltaUnit] at *
  omega

theorem deltas_extend (w : Window) (seq : SeqNum) (d : Delta) (clock : Int) :
    ({ w with later := (seq, d) :: w.later, clock := clock } : Window).deltas = w.deltas ++ [d] := by
  simp only [deltas, List.reverse_cons, List.map_append, List.map_cons, List.map_nil,
    List.cons_append]

/-- Whatever arrival joins a window is told by it, too. -/
theorem tells_extend? (w w' : Window) (part : List Arrival) (r : Arrival) (h : w.Tells part)
    (hextend : w.extend? r = some w') : w'.Tells (part ++ [r]) := by
  rw [extend?] at hextend
  rcases Option.map_eq_some_iff.1 hextend with ⟨d, hd, hw'⟩
  have hunits := Delta.units_of_ofUnits? _ d hd
  have hdeltas := deltas_extend w r.seq d
    (w.clock + (r.signedMicros - w.clock).tdiv deltaUnit * deltaUnit)
  rw [hw'] at hdeltas
  have hreference : w'.reference = w.reference := by rw [← hw']
  have hclock : w'.clock = w.clock + d.units * deltaUnit := by rw [← hw', hunits]
  refine ⟨?_, ?_, ?_, fun htimes => ?_⟩
  · rw [← hw', List.map_append, ← h.numbers]
    simp only [List.reverse_cons, List.map_append, List.map_cons, List.map_nil, List.cons_append]
  · rcases h.reference_eq with ⟨q, hq, hqr⟩
    exact ⟨q, List.mem_append_left _ hq, hreference.trans hqr⟩
  · rw [hdeltas, hreference, hclock, Delta.clockAfter_append, h.clock_eq]
  · -- The new delta is counted from the clock, so what was cut off before is in it.
    rcases h.near fun q hq => htimes q (List.mem_append_left _ hq) with ⟨hpos, hnear⟩
    have hmicros := r.signedMicros_eq (htimes r (by simp only [List.mem_append, List.mem_singleton,
      or_true]))
    have hr : Near w'.clock r := by
      rw [hclock, hunits, hmicros]
      exact near_toward w.clock r hpos
    refine ⟨hr.1, ?_⟩
    rw [hdeltas, hreference, Delta.clocks_append, h.clock_eq, ← hclock]
    exact List.rel_append hnear (List.Forall₂.cons hr List.Forall₂.nil)

-- A window and those that are begun after it tell the arrivals piece by piece.
theorem fill_tells (rest : List Arrival) (w : Window) (part : List Arrival) (h : w.Tells part) :
    ∃ parts, parts.flatten = part ++ rest ∧ List.Forall₂ Tells (w.fill rest) parts := by
  induction rest generalizing w part with
  | nil =>
      refine ⟨[part], ?_, List.Forall₂.cons h List.Forall₂.nil⟩
      rw [List.flatten_singleton, List.append_nil]
  | cons r rest ih =>
      rw [fill]
      cases hextend : w.extend? r with
      | some w' =>
          rcases ih w' (part ++ [r]) (tells_extend? w w' part r h hextend) with
            ⟨parts, hflat, hparts⟩
          refine ⟨parts, ?_, hparts⟩
          rw [hflat, List.append_assoc, List.singleton_append]
      | none =>
          rcases ih (start r) [r] (tells_start r) with ⟨parts, hflat, hparts⟩
          refine ⟨part :: parts, ?_, List.Forall₂.cons h hparts⟩
          rw [List.flatten_cons, hflat, List.singleton_append]

/-- The windows of a batch tell it piece by piece. -/
theorem windows_tell (sorted : List Arrival) :
    ∃ parts, parts.flatten = sorted ∧ List.Forall₂ Tells (windows sorted) parts := by
  cases sorted with
  | nil => exact ⟨[], rfl, List.Forall₂.nil⟩
  | cons r rest => exact fill_tells rest (start r) [r] (tells_start r)

-- A window of a batch tells a piece of it.
theorem tells_of_mem_windows (sorted : List Arrival) (w : Window) (h : w ∈ windows sorted) :
    ∃ before part after, sorted = before ++ part ++ after ∧ w.Tells part := by
  rcases windows_tell sorted with ⟨parts, hflat, hparts⟩
  have hpiece : ∃ front part back, parts = front ++ part :: back ∧ w.Tells part := by
    generalize windows sorted = ws at h hparts
    clear hflat
    induction hparts with
    | nil => exact absurd h List.not_mem_nil
    | @cons v part ws parts hv _ ih =>
        rcases List.mem_cons.1 h with hw | hw
        · rw [hw]
          exact ⟨[], part, parts, rfl, hv⟩
        · rcases ih hw with ⟨front, piece, back, hsplit, hpiece⟩
          exact ⟨part :: front, piece, back, by rw [hsplit, List.cons_append], hpiece⟩
  rcases hpiece with ⟨front, part, back, hsplit, hpart⟩
  refine ⟨front.flatten, part, back.flatten, ?_, hpart⟩
  rw [← hflat, hsplit, List.flatten_append, List.flatten_cons, List.append_assoc]

/-- The numbers of a window are ahead of each other, as seen from an anchor. -/
def Ahead (anchor : SeqNum) (numbers : List SeqNum) : Prop :=
  numbers.Pairwise fun s t => anchor.distance s < anchor.distance t

/-- There is a status for each number after the first one, up to the last. -/
theorem length_fillFrom (anchor last : SeqNum) (later : List (SeqNum × Delta))
    (h : Ahead anchor (last :: later.map Prod.fst)) :
    ∃ s ∈ last :: later.map Prod.fst, ((fillFrom last later).length : Int)
      = anchor.distance s - anchor.distance last := by
  induction later generalizing last with
  | nil =>
      refine ⟨last, List.mem_cons_self .., ?_⟩
      rw [fillFrom, Int.sub_self]
      rfl
  | cons r rest ih =>
      rcases r with ⟨seq, d⟩
      have hnext : anchor.distance last < anchor.distance seq :=
        List.rel_of_pairwise_cons h (List.mem_cons_self ..)
      rcases ih seq (List.Pairwise.of_cons h) with ⟨s, hs, hlen⟩
      have hsteps := SeqNum.stepsTo_eq_sub anchor last seq (Int.le_of_lt hnext)
      refine ⟨s, List.mem_cons_of_mem _ hs, ?_⟩
      rw [fillFrom, List.length_append, List.length_replicate, List.length_cons]
      omega

-- The statuses that announce a delta are those of the arrivals.
theorem filter_fillFrom (last : SeqNum) (later : List (SeqNum × Delta)) :
    (fillFrom last later).filter Status.isReceived = later.map fun r => r.2.status := by
  induction later generalizing last with
  | nil => rfl
  | cons r rest ih =>
      rcases r with ⟨seq, d⟩
      have hgap : (List.replicate (last.stepsTo seq - 1) Status.notReceived).filter
          Status.isReceived = [] := by
        rw [List.filter_replicate]
        rfl
      rw [fillFrom, List.filter_append, hgap, List.nil_append,
        List.filter_cons_of_pos d.isReceived_status, ih, List.map_cons]

-- What is not received is a number that lies between two arrivals.
theorem mem_fillFrom (last : SeqNum) (later : List (SeqNum × Delta)) (s : Status)
    (h : s ∈ fillFrom last later) : s.isReceived = true ∨ s = .notReceived := by
  induction later generalizing last with
  | nil => exact absurd h List.not_mem_nil
  | cons r rest ih =>
      rcases r with ⟨seq, d⟩
      rw [fillFrom] at h
      rcases List.mem_append.1 h with h | h
      · exact Or.inr (List.eq_of_mem_replicate h)
      · rcases List.mem_cons.1 h with h | h
        · rw [h]
          exact Or.inl d.isReceived_status
        · exact ih seq h

-- The numbers with a delta are those of the arrivals. Counting through the gap
-- in front of each leads to its number.
theorem received_number_fillFrom (anchor last : SeqNum) (later : List (SeqNum × Delta))
    (h : Ahead anchor (last :: later.map Prod.fst)) :
    ((Message.number (last.advance 1) (fillFrom last later)).filter
      fun e => e.2.isReceived).map Prod.fst = later.map Prod.fst := by
  induction later generalizing last with
  | nil => rfl
  | cons r rest ih =>
      rcases r with ⟨seq, d⟩
      have hnext : anchor.distance last < anchor.distance seq :=
        List.rel_of_pairwise_cons h (List.mem_cons_self ..)
      have hsteps := SeqNum.stepsTo_eq_sub anchor last seq (Int.le_of_lt hnext)
      have hgap : (Message.number (last.advance 1)
          (List.replicate (last.stepsTo seq - 1) Status.notReceived)).filter
          (fun e => e.2.isReceived) = [] := by
        rw [List.filter_eq_nil_iff]
        intro e he
        have hsnd := List.mem_map_of_mem (f := Prod.snd) he
        rw [Message.map_snd_number] at hsnd
        rw [List.eq_of_mem_replicate hsnd]
        decide
      have hseq : (last.advance 1).advance (last.stepsTo seq - 1) = seq := by
        rw [SeqNum.advance_advance, show 1 + (last.stepsTo seq - 1) = last.stepsTo seq by omega,
          SeqNum.advance_stepsTo]
      rw [fillFrom, Message.number_append, List.length_replicate, hseq, List.filter_append, hgap,
        List.nil_append, Message.number_cons, List.filter_cons, if_pos d.isReceived_status,
        List.map_cons, ih seq (List.Pairwise.of_cons h), List.map_cons]

/-- The numbers with a delta are those that the window was made of. -/
theorem received_number (anchor : SeqNum) (w : Window) (part : List Arrival) (h : w.Tells part)
    (hahead : Ahead anchor (part.map Arrival.seq)) :
    ((Message.number w.base w.statuses).filter fun e => e.2.isReceived).map Prod.fst
      = part.map Arrival.seq := by
  rw [← h.numbers] at hahead ⊢
  rw [statuses, Message.number_cons, List.filter_cons, if_pos w.firstDelta.isReceived_status,
    List.map_cons, received_number_fillFrom anchor w.base w.later.reverse hahead]

-- A window covers the numbers from its first one to one that it was made of.
theorem length_statuses (anchor : SeqNum) (w : Window) (part : List Arrival) (h : w.Tells part)
    (hahead : Ahead anchor (part.map Arrival.seq)) :
    ∃ r ∈ part, (w.statuses.length : Int)
      = anchor.distance r.seq - anchor.distance w.base + 1 := by
  rw [← h.numbers] at hahead
  rcases length_fillFrom anchor w.base w.later.reverse hahead with ⟨s, hs, hlen⟩
  rw [h.numbers] at hs
  rcases List.mem_map.1 hs with ⟨r, hr, hrs⟩
  refine ⟨r, hr, ?_⟩
  rw [statuses, List.length_cons, hrs]
  omega

theorem filter_statuses (w : Window) :
    w.statuses.filter Status.isReceived = w.deltas.map Delta.status := by
  rw [statuses, deltas, List.filter_cons_of_pos w.firstDelta.isReceived_status, filter_fillFrom,
    List.map_cons, List.map_map]
  rfl

theorem mem_statuses (w : Window) (s : Status) (h : s ∈ w.statuses) :
    s.isReceived = true ∨ s = .notReceived := by
  rcases List.mem_cons.1 h with h | h
  · rw [h]
    exact Or.inl w.firstDelta.isReceived_status
  · exact mem_fillFrom w.base _ s h

section Written

variable (w : Window) (sender media : Ssrc) (count : UInt8)

theorem toNat_statusCount (h : w.statuses.length < 65536) :
    (w.message sender media count).statusCount.toNat = w.statuses.length := by
  rw [message, UInt16.toNat_ofNat', Nat.mod_eq_of_lt h]

-- The statuses of the message are those of the window.
theorem statuses_message (h : w.statuses.length < 65536) :
    (w.message sender media count).statuses = Message.number w.base w.statuses := by
  rw [Message.statuses, toNat_statusCount w sender media count h, Chunk.decode_eq, message]
  simp only
  rw [Chunk.take_flatMap_encode]

/-- The message of a window is consistent if its number of statuses can be
    declared. -/
theorem consistent_message (h : w.statuses.length < 65536) :
    (w.message sender media count).Consistent where
  referenceTime_lt := by
    rw [message, UInt32.toNat_ofNat']
    omega
  fitsWire := Chunk.fitsWire_encode .oneBit w.statuses
  covers := by
    rw [toNat_statusCount w sender media count h]
    exact Chunk.covers_encode .oneBit w.statuses
  deltas_match := by
    rw [statuses_message w sender media count h, Message.map_snd_number, filter_statuses]
    rfl

end Written

theorem ahead_inOrder (first : Arrival) (rest : List Arrival) :
    Ahead first.seq ((inOrder (first :: rest)).map Arrival.seq) :=
  List.pairwise_map.2 (pairwise_inOrder first rest)

-- A piece of a batch in order is in order.
theorem ahead_of_piece (first : Arrival) (rest before part after : List Arrival)
    (h : inOrder (first :: rest) = before ++ part ++ after) :
    Ahead first.seq (part.map Arrival.seq) := by
  have hall := ahead_inOrder first rest
  rw [h, List.map_append, List.map_append] at hall
  exact (List.pairwise_append.1 (List.pairwise_append.1 hall).1).2.1

-- A piece of a batch in order holds the first arrival of each of its numbers.
theorem firstOf_of_piece (batch before part after : List Arrival)
    (hsplit : inOrder batch = before ++ part ++ after) (a : Arrival) (ha : a ∈ part) :
    firstOf batch a.seq = some a := by
  apply (mem_inOrder _ _).1
  rw [hsplit]
  exact List.mem_append_left _ (List.mem_append_right _ ha)

theorem seq_mem_of_piece (batch before part after : List Arrival) (seq : SeqNum)
    (h : inOrder batch = before ++ part ++ after) (hseq : seq ∈ part.map Arrival.seq) :
    seq ∈ batch.map Arrival.seq := by
  rcases List.mem_map.1 hseq with ⟨r, hr, rfl⟩
  have hfirst := firstOf_of_piece batch before part after h r hr
  exact List.mem_map_of_mem (mem_of_firstOf _ _ _ hfirst).1

/-- No window covers more numbers than the span of its batch. -/
theorem length_statuses_le (batch : List Arrival) (w : Window) (h : w ∈ windows (inOrder batch)) :
    w.statuses.length ≤ span (batch.map Arrival.seq) := by
  rcases tells_of_mem_windows _ w h with ⟨before, part, after, hsplit, htells⟩
  cases batch with
  | nil => exact absurd h List.not_mem_nil
  | cons first rest =>
      have hahead := ahead_of_piece first rest before part after hsplit
      rcases length_statuses first.seq w part htells hahead with ⟨r, hr, hlen⟩
      have hbase : w.base ∈ part.map Arrival.seq := by
        rw [← htells.numbers]
        exact List.mem_cons_self ..
      have hlt := sub_lt_span first.seq (rest.map Arrival.seq) w.base r.seq
        (seq_mem_of_piece _ before part after _ hsplit hbase)
        (seq_mem_of_piece _ before part after _ hsplit (List.mem_map_of_mem hr))
      rw [List.map_cons]
      omega

end Window

end Feedback

end VideoTransport

import Mathlib.Data.List.Chain
import VideoTransport.Proofs.Feedback.WindowArrivals

/-!
# Pieces of a Batch

Where a batch is cut into windows, and what the deltas of each piece are.

The deltas of a window are counted from the first arrival, cut to whole units of
reference time, and each of them from where the one before has led. They are
exactly what is left to the next arrival in units of 250 microseconds, cut off
toward zero. `Delta.Counts` says so without a window: it relates deltas to arrivals
and to the clock that they begin at, and nothing else.

A new piece begins only where the next delta cannot be sent. Such a place lies
between two pieces that are neighbours, so it is a statement about a chain of pieces.
What an arrival is measured against there is the clock of the piece before, which is
known from its deltas.

## Main definitions

* `Arrival.origin`: What the deltas are counted from if an arrival is the first one.
* `Delta.Fits`: A number of units can be sent.
* `Delta.Counts`: Deltas are counted to some arrivals.
* `Delta.Breaks`: The next arrival cannot be reached by a delta.
* `Window.Counted`: A window was made of some arrivals, and its deltas are counted to them.

## Theorems

* `Delta.counts_concat`: One more arrival is counted from where the deltas have led.
* `Window.counted_start`, `Window.counted_extend?`: Each arrival that joins is counted.
* `Window.breaks_of_extend?`: An arrival that cannot join breaks the row.
* `Window.windows_counted`: The windows of a batch are its pieces, cut where they have to be.
-/

namespace VideoTransport

namespace Feedback

namespace Arrival

/-- The time of the arrival, cut to whole units of reference time. -/
def origin (r : Arrival) : Int :=
  (r.time.micros / referenceUnit * referenceUnit : Nat)

theorem toNat_micros_of_lt (r : Arrival) (h : r.time.micros < 2 ^ 63) :
    r.micros.toNat = r.time.micros := by
  rw [micros, UInt64.toNat_ofNat']
  exact Nat.mod_eq_of_lt (by omega)

theorem signedMicros_of_lt (r : Arrival) (h : r.time.micros < 2 ^ 63) :
    r.signedMicros = r.time.micros := by
  have hmicros := r.toNat_micros_of_lt h
  rw [r.signedMicros_eq (by rw [hmicros]; exact h), hmicros]

end Arrival

namespace Delta

/-- The number of units can be sent, in 16 bits with a sign. -/
def Fits (units : Int) : Prop :=
  -32768 ≤ units ∧ units ≤ 32767

/-- The deltas are counted to some arrivals, beginning at a clock. Each of them has
    one byte if it can, and leads on to where the next one is counted from. -/
inductive Counts : Int → List Arrival → List Delta → Prop where
  | nil (clock : Int) : Counts clock [] []
  | cons (clock : Int) (r : Arrival) (rest : List Arrival) (d : Delta) (ds : List Delta)
      (units_eq : d.units = ((r.time.micros : Int) - clock).tdiv deltaUnit)
      (small_iff : d.status = .smallDelta ↔ 0 ≤ d.units ∧ d.units ≤ 255)
      (later : Counts (clock + d.units * deltaUnit) rest ds) :
      Counts clock (r :: rest) (d :: ds)

/-- From where the deltas of some arrivals have led, the next arrival is too far away
    for a delta. -/
def Breaks (part : List Arrival) (ds : List Delta) (next : Arrival) : Prop :=
  ∀ first ∈ part.head?,
    ¬ Fits (((next.time.micros : Int) - clockAfter first.origin ds).tdiv deltaUnit)

-- A delta has one byte if and only if its units fit in one.
theorem status_of_ofUnits? (units : Int) (d : Delta) (h : ofUnits? units = some d) :
    d.status = .smallDelta ↔ 0 ≤ d.units ∧ d.units ≤ 255 := by
  rw [units_of_ofUnits? units d h]
  rw [ofUnits?] at h
  by_cases hsmall : 0 ≤ units ∧ units ≤ 255
  · rw [if_pos hsmall, Option.some.injEq] at h
    rw [← h]
    exact ⟨fun _ => hsmall, fun _ => rfl⟩
  · rw [if_neg hsmall, Option.ite_none_right_eq_some, Option.some.injEq] at h
    rw [← h.2]
    refine ⟨fun hstatus => ?_, fun hunits => absurd hunits hsmall⟩
    cases hstatus

theorem not_fits_of_ofUnits? (units : Int) (h : ofUnits? units = none) : ¬ Fits units := by
  intro hfits
  rw [ofUnits?, if_pos (show -32768 ≤ units ∧ units ≤ 32767 from hfits)] at h
  by_cases hsmall : 0 ≤ units ∧ units ≤ 255
  · rw [if_pos hsmall] at h
    cases h
  · rw [if_neg hsmall] at h
    cases h

/-- One more arrival is counted from where the deltas have led. -/
theorem counts_concat (clock : Int) (part : List Arrival) (ds : List Delta) (r : Arrival)
    (d : Delta) (h : Counts clock part ds)
    (hunits : d.units = ((r.time.micros : Int) - clockAfter clock ds).tdiv deltaUnit)
    (hsmall : d.status = .smallDelta ↔ 0 ≤ d.units ∧ d.units ≤ 255) :
    Counts clock (part ++ [r]) (ds ++ [d]) := by
  induction h with
  | nil clock => exact .cons clock r [] d [] hunits hsmall (.nil _)
  | cons clock q rest e ds units_eq small_iff _ ih =>
      exact .cons clock q (rest ++ [r]) e (ds ++ [d]) units_eq small_iff (ih hunits)

end Delta

namespace Window

/-- A window was made of some arrivals, and its deltas are counted to them. -/
structure Counted (w : Window) (part : List Arrival) : Prop where
  tells : w.Tells part
  reference_eq : ∀ first ∈ part.head?, w.reference = first.time.micros / referenceUnit
  counts : ∀ first ∈ part.head?, Delta.Counts first.origin part w.deltas

/-- A new window is counted to its first arrival. -/
theorem counted_start (r : Arrival) (h : r.time.micros < 2 ^ 63) : (start r).Counted [r] := by
  have hmicros := r.toNat_micros_of_lt h
  refine ⟨tells_start r, fun first hfirst => ?_, fun first hfirst => ?_⟩
  · rw [← Option.some.inj hfirst, start, hmicros]
  · rw [← Option.some.inj hfirst]
    have hlt : r.time.micros % referenceUnit / deltaUnit < 256 := by
      rw [referenceUnit, deltaUnit]
      omega
    have hdeltas : (start r).deltas
        = [.small (UInt8.ofNat (r.time.micros % referenceUnit / deltaUnit))] := by
      rw [deltas, start, hmicros]
      rfl
    have hunits : (Delta.small (UInt8.ofNat (r.time.micros % referenceUnit / deltaUnit))).units
        = ((r.time.micros % referenceUnit / deltaUnit : Nat) : Int) := by
      rw [Delta.units, UInt8.toNat_ofNat', Nat.mod_eq_of_lt hlt]
    have hleft : (r.time.micros : Int) - r.origin = (r.time.micros % referenceUnit : Nat) := by
      rw [Arrival.origin]
      have hsplit := Nat.div_add_mod' r.time.micros referenceUnit
      omega
    rw [hdeltas]
    refine .cons _ r [] _ [] ?_ ?_ (.nil _)
    · rw [hunits, hleft, ← Int.ofNat_tdiv]
    · rw [hunits]
      exact ⟨fun _ => ⟨Int.natCast_nonneg _, by omega⟩, fun _ => rfl⟩

section Extend

variable (w : Window) (part : List Arrival) (h : w.Counted part)
include h

-- The clock of a window is where its deltas have led.
theorem clock_of_counted (first : Arrival) (hfirst : first ∈ part.head?) :
    w.clock = Delta.clockAfter first.origin w.deltas := by
  rw [← h.tells.clock_eq, h.reference_eq first hfirst, Arrival.origin, Nat.cast_mul]

variable (r : Arrival) (hr : r.time.micros < 2 ^ 63)
include hr

/-- Whatever arrival joins a window is counted, too. -/
theorem counted_extend? (w' : Window) (hpart : part ≠ []) (hextend : w.extend? r = some w') :
    w'.Counted (part ++ [r]) := by
  have htells := tells_extend? w w' part r h.tells hextend
  have hhead : (part ++ [r]).head? = part.head? := List.head?_append_of_ne_nil _ hpart
  rw [extend?] at hextend
  rcases Option.map_eq_some_iff.1 hextend with ⟨d, hd, hw'⟩
  refine ⟨htells, fun first hfirst => ?_, fun first hfirst => ?_⟩
  · rw [hhead] at hfirst
    rw [← hw']
    exact h.reference_eq first hfirst
  · rw [hhead] at hfirst
    have hunits := Delta.units_of_ofUnits? _ d hd
    rw [r.signedMicros_of_lt hr, clock_of_counted w part h first hfirst] at hunits
    rw [← hw', deltas_extend]
    exact Delta.counts_concat _ part w.deltas r d (h.counts first hfirst) hunits
      (Delta.status_of_ofUnits? _ d hd)

/-- An arrival that cannot join a window is too far away for a delta. -/
theorem breaks_of_extend? (hextend : w.extend? r = none) : Delta.Breaks part w.deltas r := by
  intro first hfirst
  rw [extend?, Option.map_eq_none_iff, r.signedMicros_of_lt hr,
    clock_of_counted w part h first hfirst] at hextend
  exact Delta.not_fits_of_ofUnits? _ hextend

end Extend

/-- Two pieces in a row: the second one begins with an arrival that the deltas of the
    first one cannot reach. -/
def Parted (a b : Window × List Arrival) : Prop :=
  ∀ next ∈ b.2.head?, Delta.Breaks a.2 a.1.deltas next

-- A window grows as long as it can, and then another one begins. The first piece
-- begins with what is in the window already.
theorem fill_counted (rest : List Arrival) (w : Window) (part : List Arrival) (hpart : part ≠ [])
    (h : w.Counted part) (htimes : ∀ r ∈ rest, r.time.micros < 2 ^ 63) :
    ∃ pieces : List (Window × List Arrival),
      pieces.map Prod.fst = w.fill rest ∧ (pieces.map Prod.snd).flatten = part ++ rest
        ∧ (∀ p ∈ pieces, p.2 ≠ [] ∧ p.1.Counted p.2) ∧ pieces.IsChain Parted
        ∧ ∀ p ∈ pieces.head?, part <+: p.2 := by
  induction rest generalizing w part with
  | nil =>
      refine ⟨[(w, part)], rfl, rfl, fun p hp => ?_, List.isChain_singleton _, fun p hp => ?_⟩
      · rw [List.mem_singleton.1 hp]
        exact ⟨hpart, h⟩
      · cases hp
        exact List.prefix_rfl
  | cons r rest ih =>
      have hr := htimes r List.mem_cons_self
      have hrest : ∀ q ∈ rest, q.time.micros < 2 ^ 63 := fun q hq =>
        htimes q (List.mem_cons_of_mem r hq)
      rw [fill]
      cases hextend : w.extend? r with
      | some w' =>
          rcases ih w' (part ++ [r]) (List.append_ne_nil_of_left_ne_nil hpart _)
            (counted_extend? w part h r hr w' hpart hextend) hrest with
            ⟨pieces, hfst, hsnd, hall, hchain, hhead⟩
          refine ⟨pieces, hfst, ?_, hall, hchain, fun p hp => ?_⟩
          · rw [hsnd, List.append_assoc, List.singleton_append]
          · exact (List.prefix_append part [r]).trans (hhead p hp)
      | none =>
          rcases ih (start r) [r] (List.cons_ne_nil r []) (counted_start r hr) hrest with
            ⟨pieces, hfst, hsnd, hall, hchain, hhead⟩
          refine ⟨(w, part) :: pieces, ?_, ?_, fun p hp => ?_, ?_, fun p hp => ?_⟩
          · rw [List.map_cons, hfst]
          · rw [List.map_cons, List.flatten_cons, hsnd, List.singleton_append]
          · rcases List.mem_cons.1 hp with rfl | hp
            · exact ⟨hpart, h⟩
            · exact hall p hp
          · refine List.isChain_cons.2 ⟨fun p hp next hnext => ?_, hchain⟩
            -- The next piece begins with the arrival that did not fit.
            rcases hhead p hp with ⟨more, hmore⟩
            rw [← hmore] at hnext
            rw [← Option.some.inj hnext]
            exact breaks_of_extend? w part h r hr hextend
          · cases hp
            exact List.prefix_rfl

/-- The windows of a batch are its pieces. Each is counted to its arrivals, and a new
    one begins only where the next delta cannot be sent. -/
theorem windows_counted (sorted : List Arrival) (htimes : ∀ r ∈ sorted, r.time.micros < 2 ^ 63) :
    ∃ pieces : List (Window × List Arrival),
      pieces.map Prod.fst = windows sorted ∧ (pieces.map Prod.snd).flatten = sorted
        ∧ (∀ p ∈ pieces, p.2 ≠ [] ∧ p.1.Counted p.2) ∧ pieces.IsChain Parted := by
  cases sorted with
  | nil => exact ⟨[], rfl, rfl, fun p hp => absurd hp List.not_mem_nil, List.isChain_nil⟩
  | cons r rest =>
      rcases fill_counted rest (start r) [r] (List.cons_ne_nil r [])
        (counted_start r (htimes r List.mem_cons_self))
        fun q hq => htimes q (List.mem_cons_of_mem r hq) with
        ⟨pieces, hfst, hsnd, hall, hchain, _⟩
      exact ⟨pieces, hfst, hsnd, hall, hchain⟩

end Window

end Feedback

end VideoTransport

import Mathlib.Tactic.Ring
import VideoTransport.Feedback.ChunkBuilder

/-!
# Packing and Reading Status Chunks

What is packed in chunks is read back from them, also after they have gone over
the wire.

A vector is a number whose digits are symbols, so reading a symbol is taking a
digit out of it. The two bits that tell the kind of a vector stand above all
digits, and a digit is cut off below them.

A reader does not know how many chunks there are. It takes chunks until they
describe as many statuses as it was told to expect. `Chunk.Covers` says that it
then has taken all of them: the chunks are enough, and none of them comes after
enough has been described.

## Main definitions

* `Chunk.FitsWire`: A chunk has no more bits than its place on the wire.
* `Chunk.Covers`: The chunks describe a number of statuses, and none is needless.

## Theorems

* `Chunk.digits_div_pow`: A digit of the number that a vector is.
* `Chunk.symbolAt_of_toNat`: Reading a symbol finds the digit below the bits of kind.
* `Chunk.wire_pack_and_free`: Nothing is in the places of a vector that are free.
* `Chunk.wire_pack_append`: A symbol in the first free place makes a vector of one status more.
* `Chunk.statuses_pack`: A vector holds what was packed, and then nothing received.
* `Chunk.ofWire_wire`: What fits the wire comes back from it.
* `Chunk.covers_append`: Chunks in front of others cover what they describe.
-/

namespace VideoTransport

namespace Feedback

namespace SymbolSize

-- A vector has room for seven symbols at least and fourteen at most.
theorem perVector_bounds (size : SymbolSize) : 7 ≤ size.perVector ∧ size.perVector ≤ 14 := by
  cases size <;> decide

theorem count_pow_perVector (size : SymbolSize) : size.count ^ size.perVector = 16384 := by
  cases size <;> rfl

theorem count_eq (size : SymbolSize) : size.count = 2 ^ size.bits := by
  cases size <;> rfl

theorem count_pow_eq (size : SymbolSize) (n : Nat) : size.count ^ n = 2 ^ (size.bits * n) := by
  rw [count_eq, Nat.pow_mul]

theorem count_pow_le (size : SymbolSize) (n : Nat) (h : n ≤ size.perVector) :
    size.count ^ n ≤ 16384 := by
  rw [← count_pow_perVector size]
  exact Nat.pow_le_pow_right (by cases size <;> decide) h

-- Every symbol has two bits at most.
theorem fits_twoBits (s : Status) : twoBits.fits s = true :=
  decide_eq_true s.code_lt

theorem fits_notReceived (size : SymbolSize) : size.fits .notReceived = true := by
  cases size <;> rfl

-- A status that fits is read back from the low bits of its symbol.
theorem ofCode_mod_of_fits (size : SymbolSize) (s : Status) (h : size.fits s = true) :
    Status.ofCode (s.code % size.count) = s := by
  simp only [fits, decide_eq_true_eq] at h
  rw [Nat.mod_eq_of_lt h, Status.ofCode_code]

end SymbolSize

namespace Chunk

-- Digits that follow move those before them up by one place each.
theorem foldl_digits (size : SymbolSize) (n : Nat) (ss : List Status) :
    ss.foldl (fun n s => n * size.count + s.code % size.count) n
      = n * size.count ^ ss.length + digits size ss := by
  induction ss generalizing n with
  | nil => simp [digits]
  | cons s rest ih =>
      rw [digits, List.foldl_cons, List.foldl_cons, ih, ih (0 * size.count + s.code % size.count),
        List.length_cons, pow_succ]
      ring

theorem digits_append (size : SymbolSize) (ss ts : List Status) :
    digits size (ss ++ ts) = digits size ss * size.count ^ ts.length + digits size ts := by
  rw [← foldl_digits, digits, List.foldl_append, digits]

theorem digits_cons (size : SymbolSize) (s : Status) (ss : List Status) :
    digits size (s :: ss) = s.code % size.count * size.count ^ ss.length + digits size ss := by
  rw [← List.singleton_append, digits_append]
  simp [digits]

theorem count_pos (size : SymbolSize) : 0 < size.count := by
  cases size <;> decide

-- A number has no more digits than symbols were packed in it.
theorem digits_lt (size : SymbolSize) (ss : List Status) :
    digits size ss < size.count ^ ss.length := by
  induction ss with
  | nil => simp [digits]
  | cons s rest ih =>
      have hmod : s.code % size.count + 1 ≤ size.count := Nat.mod_lt _ (count_pos size)
      have hmul := Nat.mul_le_mul_right (size.count ^ rest.length) hmod
      rw [Nat.add_mul, Nat.one_mul] at hmul
      rw [digits_cons, List.length_cons, Nat.pow_succ, Nat.mul_comm _ size.count]
      omega

/-- The digit of one symbol, with the symbols after it below and those before
    it above. -/
theorem digits_div_pow (size : SymbolSize) (before : List Status) (s : Status)
    (after : List Status) :
    digits size (before ++ s :: after) / size.count ^ after.length % size.count
      = s.code % size.count := by
  have hpow : 0 < size.count ^ after.length := Nat.pow_pos (count_pos size)
  have hafter : digits size after / size.count ^ after.length = 0 :=
    Nat.div_eq_of_lt (digits_lt size after)
  have hsplit : digits size (before ++ s :: after)
      = digits size after + size.count ^ after.length
        * (digits size before * size.count + s.code % size.count) := by
    rw [digits_append, digits_cons, List.length_cons, Nat.pow_succ]
    ring
  rw [hsplit, Nat.add_mul_div_left _ _ hpow, hafter, Nat.zero_add, Nat.mul_add_mod_self_right,
    Nat.mod_mod]

-- The place of a symbol, for as many symbols as a vector has. Past the last one
-- the place would wrap.
theorem place_eq (size : SymbolSize) (i : Nat) (h : i < size.perVector) :
    ((14 - size.bits * (i + 1) : Int) % 16).toNat = size.bits * (size.perVector - 1 - i) := by
  cases size with
  | oneBit =>
      simp only [SymbolSize.bits, SymbolSize.perVector] at h ⊢
      omega
  | twoBits =>
      simp only [SymbolSize.bits, SymbolSize.perVector] at h ⊢
      omega

/-- Reading a symbol of a full vector finds its digit. The bits above the
    fourteen of the vector are cut off, whatever they are. -/
theorem symbolAt_of_toNat (size : SymbolSize) (ss : List Status) (w : UInt16) (kind : Nat)
    (hlen : ss.length = size.perVector) (hw : w.toNat = kind * 16384 + digits size ss)
    (i : Nat) (hi : i < ss.length) :
    symbolAt size w i = .ofCode (ss[i].code % size.count) := by
  have hsplit : ss.take i ++ ss[i] :: ss.drop (i + 1) = ss := by
    rw [List.getElem_cons_drop, List.take_append_drop]
  have hafter : (ss.drop (i + 1)).length = size.perVector - 1 - i := by
    rw [List.length_drop, hlen]
    omega
  have hdigit := digits_div_pow size (ss.take i) ss[i] (ss.drop (i + 1))
  rw [hsplit, hafter] at hdigit
  -- The bits of kind are a multiple of the digit's weight, and one digit more.
  have hkind : kind * 16384
      = size.count ^ (size.perVector - 1 - i) * (kind * size.count ^ i * size.count) := by
    have hexp : size.perVector = (size.perVector - 1 - i) + i + 1 := by omega
    rw [← SymbolSize.count_pow_perVector size]
    conv => lhs; rw [hexp, Nat.pow_succ, Nat.pow_add]
    ring
  have hpow : 0 < size.count ^ (size.perVector - 1 - i) := Nat.pow_pos (count_pos size)
  rw [symbolAt, place_eq size i (by omega), Nat.shiftRight_eq_div_pow,
    ← SymbolSize.count_pow_eq, hw, hkind, Nat.mul_add_div hpow, Nat.mul_add_mod_self_right, hdigit]

-- Filling up a vector gives it all its symbols.
theorem length_fill (size : SymbolSize) (ss : List Status) (h : ss.length ≤ size.perVector) :
    (ss ++ List.replicate (size.perVector - ss.length) Status.notReceived).length
      = size.perVector := by
  rw [List.length_append, List.length_replicate]
  omega

-- The symbols of a vector leave the two bits of its kind alone.
theorem digits_fill_lt (size : SymbolSize) (ss : List Status) (h : ss.length ≤ size.perVector) :
    digits size (ss ++ List.replicate (size.perVector - ss.length) .notReceived) < 16384 := by
  have hlt := digits_lt size (ss ++ List.replicate (size.perVector - ss.length) .notReceived)
  rwa [length_fill size ss h, SymbolSize.count_pow_perVector] at hlt

-- The sixteen bits of a vector: its kind, then its symbols.
theorem toNat_wire_pack (size : SymbolSize) (ss : List Status) (h : ss.length ≤ size.perVector) :
    (pack size ss).wire.toNat = (size.bits + 1) * 16384
      + digits size (ss ++ List.replicate (size.perVector - ss.length) .notReceived) := by
  have hlt := digits_fill_lt size ss h
  cases size with
  | oneBit =>
      simp only [pack, wire, UInt16.toNat_ofNat', SymbolSize.bits]
      omega
  | twoBits =>
      simp only [pack, wire, UInt16.toNat_ofNat', SymbolSize.bits]
      omega

theorem digits_replicate_notReceived (size : SymbolSize) (n : Nat) :
    digits size (List.replicate n .notReceived) = 0 := by
  induction n with
  | zero => rfl
  | succ n ih => rw [List.replicate_succ, digits_cons, ih, Status.code, Nat.zero_mod, Nat.zero_mul]

/-- The sixteen bits of a vector end with the places that are free: below them is nothing. -/
theorem toNat_wire_pack_eq (size : SymbolSize) (ss : List Status)
    (h : ss.length ≤ size.perVector) :
    (pack size ss).wire.toNat = size.count ^ (size.perVector - ss.length)
      * ((size.bits + 1) * size.count ^ ss.length + digits size ss) := by
  have hpow : size.count ^ (size.perVector - ss.length) * size.count ^ ss.length = 16384 := by
    rw [← Nat.pow_add, Nat.sub_add_cancel h, SymbolSize.count_pow_perVector]
  rw [toNat_wire_pack size ss h, digits_append, digits_replicate_notReceived, List.length_replicate,
    ← hpow]
  ring

theorem wire_pack_and_free (size : SymbolSize) (ss : List Status)
    (h : ss.length ≤ size.perVector) :
    (pack size ss).wire &&& UInt16.ofNat (size.count ^ (size.perVector - ss.length) - 1) = 0 := by
  have hweight := size.count_pow_le (size.perVector - ss.length) (Nat.sub_le _ _)
  apply UInt16.toNat_inj.1
  rw [UInt16.toNat_and, UInt16.toNat_ofNat', Nat.mod_eq_of_lt (by omega),
    toNat_wire_pack_eq size ss h, SymbolSize.count_pow_eq, Nat.and_two_pow_sub_one_eq_mod]
  exact Nat.mul_mod_right _ _

/-- Putting a symbol into the first place that is free gives the vector with one status
    more. -/
theorem wire_pack_append (size : SymbolSize) (ss : List Status) (s : Status)
    (h : ss.length < size.perVector) :
    (pack size ss).wire
        ||| UInt16.ofNat (s.code % size.count * size.count ^ (size.perVector - 1 - ss.length))
      = (pack size (ss ++ [s])).wire := by
  have hbefore := toNat_wire_pack_eq size ss (Nat.le_of_lt h)
  have hafter := toNat_wire_pack_eq size (ss ++ [s])
    (by rw [List.length_append, List.length_singleton]; exact h)
  have hfree : size.perVector - ss.length = size.perVector - 1 - ss.length + 1 := by omega
  have hlast : size.perVector - (ss.length + 1) = size.perVector - 1 - ss.length := by omega
  have hweight := size.count_pow_le (size.perVector - 1 - ss.length + 1) (by omega)
  have hdigits : digits size (ss ++ [s]) = digits size ss * size.count + s.code % size.count := by
    simp [digits]
  rw [List.length_append, List.length_singleton, hlast, hdigits] at hafter
  rw [hfree] at hbefore
  generalize size.perVector - 1 - ss.length = free at hbefore hafter hweight ⊢
  -- The symbol is smaller than the weight of the place in front of it.
  have hlt : s.code % size.count * size.count ^ free < size.count ^ (free + 1) := by
    rw [Nat.pow_succ, Nat.mul_comm]
    exact Nat.mul_lt_mul_of_pos_left (Nat.mod_lt _ (count_pos size)) (Nat.pow_pos (count_pos size))
  apply UInt16.toNat_inj.1
  rw [UInt16.toNat_or, UInt16.toNat_ofNat', Nat.mod_eq_of_lt (by omega), hbefore, hafter]
  rw [size.count_pow_eq (free + 1)] at hlt ⊢
  rw [← Nat.two_pow_add_eq_or_of_lt hlt, ← size.count_pow_eq (free + 1)]
  ring

theorem capacity_pack (size : SymbolSize) (ss : List Status) :
    (pack size ss).capacity = size.perVector := by
  cases size <;> rfl

theorem nthStatus_pack (size : SymbolSize) (ss : List Status) (i : Nat) :
    (pack size ss).nthStatus i = symbolAt size (pack size ss).wire i := by
  cases size <;> rfl

/-- A vector holds the statuses that were packed in it. What is left of it says
    that nothing was received. -/
theorem statuses_pack (size : SymbolSize) (ss : List Status) (h : ss.length ≤ size.perVector)
    (hfits : ∀ s ∈ ss, size.fits s = true) :
    (pack size ss).statuses
      = ss ++ List.replicate (size.perVector - ss.length) .notReceived := by
  have hwire := toNat_wire_pack size ss h
  generalize hall : ss ++ List.replicate (size.perVector - ss.length) Status.notReceived = all
    at hwire ⊢
  have hlen : all.length = size.perVector := by
    rw [← hall, length_fill size ss h]
  have hall_fits : ∀ s ∈ all, size.fits s = true := by
    intro s hs
    rw [← hall, List.mem_append] at hs
    rcases hs with hs | hs
    · exact hfits s hs
    · rw [List.eq_of_mem_replicate hs]
      exact size.fits_notReceived
  apply List.ext_getElem
  · rw [length_statuses, capacity_pack, hlen]
  · intro i hi hi'
    simp only [statuses, List.getElem_map, List.getElem_range]
    rw [nthStatus_pack, symbolAt_of_toNat size all _ _ hlen hwire i hi']
    exact size.ofCode_mod_of_fits _ (hall_fits _ (List.getElem_mem hi'))

/-- The chunk has no more bits than its place on the wire. -/
def FitsWire : Chunk → Prop
  | run _ n => n.toNat ≤ maxRun
  | single v => v.toNat < 16384
  | double v => v.toNat < 16384

instance : DecidablePred FitsWire
  | run _ n => inferInstanceAs (Decidable (n.toNat ≤ maxRun))
  | single v => inferInstanceAs (Decidable (v.toNat < 16384))
  | double v => inferInstanceAs (Decidable (v.toNat < 16384))

/-- A chunk that fits the wire comes back from it. -/
theorem ofWire_wire (c : Chunk) (h : c.FitsWire) : ofWire c.wire = c := by
  cases c with
  | run s n =>
      have hs := s.code_lt
      simp only [FitsWire, maxRun] at h
      have hwire : (run s n).wire.toNat = s.code * 8192 + n.toNat := by
        simp only [wire, UInt16.toNat_ofNat']
        omega
      have hcode : (run s n).wire.toNat / 8192 = s.code := by omega
      have hlength : (run s n).wire.toNat % 8192 = n.toNat := by omega
      rw [ofWire, if_pos (by omega), hcode, hlength, Status.ofCode_code, UInt16.ofNat_toNat]
  | single v =>
      simp only [FitsWire] at h
      have hwire : (single v).wire.toNat = 32768 + v.toNat := by
        simp only [wire, UInt16.toNat_ofNat']
        omega
      have hsymbols : (single v).wire.toNat % 16384 = v.toNat := by omega
      rw [ofWire, if_neg (by omega), if_pos (by omega), hsymbols, UInt16.ofNat_toNat]
  | double v =>
      simp only [FitsWire] at h
      have hwire : (double v).wire.toNat = 49152 + v.toNat := by
        simp only [wire, UInt16.toNat_ofNat']
        omega
      have hsymbols : (double v).wire.toNat % 16384 = v.toNat := by omega
      rw [ofWire, if_neg (by omega), if_neg (by omega), hsymbols, UInt16.ofNat_toNat]

theorem fitsWire_pack (size : SymbolSize) (ss : List Status) (h : ss.length ≤ size.perVector) :
    (pack size ss).FitsWire := by
  have hlt := digits_fill_lt size ss h
  cases size with
  | oneBit =>
      simp only [pack, FitsWire, UInt16.toNat_ofNat']
      omega
  | twoBits =>
      simp only [pack, FitsWire, UInt16.toNat_ofNat']
      omega

/-- The chunks describe `count` statuses or more, and each of them is needed for
    that: before it, fewer were described. -/
def Covers : List Chunk → Nat → Prop
  | [], count => count = 0
  | c :: rest, count => 0 < count ∧ Covers rest (count - c.capacity)

/-- Whether chunks cover a count is found out by counting down. -/
def decideCovers : (cs : List Chunk) → (count : Nat) → Decidable (Covers cs count)
  | [], count => inferInstanceAs (Decidable (count = 0))
  | c :: rest, count =>
    have : Decidable (Covers rest (count - c.capacity)) := decideCovers rest (count - c.capacity)
    inferInstanceAs (Decidable (0 < count ∧ Covers rest (count - c.capacity)))

instance (cs : List Chunk) (count : Nat) : Decidable (Covers cs count) :=
  decideCovers cs count

/-- Chunks that describe something cover what they describe, and leave what
    comes after to those that follow. -/
theorem covers_append (cs ds : List Chunk) (count : Nat) (hpos : ∀ c ∈ cs, 0 < c.capacity)
    (h : Covers ds count) : Covers (cs ++ ds) ((cs.flatMap statuses).length + count) := by
  induction cs with
  | nil => simpa using h
  | cons c rest ih =>
      have hc := hpos c (List.mem_cons_self ..)
      have hrest := ih fun d hd => hpos d (List.mem_cons_of_mem _ hd)
      rw [List.flatMap_cons, List.length_append, length_statuses]
      refine ⟨by omega, ?_⟩
      rw [show c.capacity + (rest.flatMap statuses).length + count - c.capacity
        = (rest.flatMap statuses).length + count by omega]
      exact hrest

end Chunk

end Feedback

end VideoTransport

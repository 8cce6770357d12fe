import Mathlib.Algebra.Order.Floor.Div
import VideoTransport.Proofs.Feedback.ChunkEncoding

/-!
# Plain Vectors

What runs save. The statuses of a feedback could be told by vectors alone, each
of them full but the last one. This always works, and it takes a number of
chunks that depends on nothing but how many statuses there are and how wide
their symbols have to be. So it is what the capacity of a feedback is counted
with.

Encoding mixes vectors and runs, and it closes vectors early to make way for a
run. That could cost chunks, and so could a stretch that needs a second run for
a single status. It never does: a run only takes the place of more statuses than
a vector holds, and a vector is only closed when it is full.

## Main definitions

* `Chunk.vectors`: Some statuses told by vectors alone.

## Theorems

* `Chunk.statuses_vectors`: The vectors begin with the statuses.
* `Chunk.perVector_symbolSize`: How many symbols a vector holds.
* `Chunk.length_encode_le_vectors`: Encoding takes no more chunks than vectors alone.
-/

namespace VideoTransport

namespace Feedback

namespace Chunk

/-- Some statuses told by vectors alone. Each is full, and the last one has the
    statuses that are left over. -/
def vectors (size : SymbolSize) (ss : List Status) : List Chunk :=
  (List.range (ss.length ⌈/⌉ size.perVector)).map fun i =>
    pack size ((ss.drop (i * size.perVector)).take size.perVector)

theorem length_vectors (size : SymbolSize) (ss : List Status) :
    (vectors size ss).length = ss.length ⌈/⌉ size.perVector := by
  rw [vectors, List.length_map, List.length_range]

-- A number of vectors, of which all but the last one are sure to be full.
theorem flatMap_statuses_pack (size : SymbolSize) (ss : List Status)
    (hfits : ∀ s ∈ ss, size.fits s = true) (m : Nat)
    (hm : m * size.perVector < ss.length + size.perVector) :
    ((List.range m).flatMap fun i =>
        (pack size ((ss.drop (i * size.perVector)).take size.perVector)).statuses)
      = ss.take (m * size.perVector)
        ++ List.replicate (m * size.perVector - ss.length) .notReceived := by
  induction m with
  | zero => simp only [List.range_zero, List.flatMap_nil, Nat.zero_mul, List.take_zero,
      Nat.zero_sub, List.replicate_zero, List.append_nil]
  | succ m ih =>
      rw [Nat.succ_mul] at hm ⊢
      have hbefore := ih (by omega)
      have hlen : ((ss.drop (m * size.perVector)).take size.perVector).length
          = min size.perVector (ss.length - m * size.perVector) := by
        rw [List.length_take, List.length_drop]
      have hpart : ∀ s ∈ (ss.drop (m * size.perVector)).take size.perVector,
          size.fits s = true :=
        fun s hs => hfits s (List.mem_of_mem_drop (List.mem_of_mem_take hs))
      -- The vectors before this one are full, so nothing of them is left unused.
      rw [show m * size.perVector - ss.length = 0 by omega, List.replicate_zero,
        List.append_nil] at hbefore
      rw [List.range_succ, List.flatMap_append, List.flatMap_singleton, hbefore,
        statuses_pack size _ (by omega) hpart, hlen, List.take_add, List.append_assoc,
        show size.perVector - min size.perVector (ss.length - m * size.perVector)
          = m * size.perVector + size.perVector - ss.length by omega]

/-- The vectors begin with the statuses that they were made from. -/
theorem statuses_vectors (size : SymbolSize) (ss : List Status)
    (hfits : ∀ s ∈ ss, size.fits s = true) :
    ((vectors size ss).flatMap statuses).take ss.length = ss := by
  have hbounds := size.perVector_bounds
  -- There are as many vectors as are needed, and no more.
  have hpos : 0 < size.perVector := by omega
  have henough : ss.length ≤ ss.length ⌈/⌉ size.perVector * size.perVector := by
    rw [Nat.mul_comm]
    exact (ceilDiv_le_iff_le_mul hpos).1 (Nat.le_refl _)
  have hneeded : ss.length ⌈/⌉ size.perVector * size.perVector
      < ss.length + size.perVector := by
    have hdiv := Nat.div_mul_le_self (ss.length + size.perVector - 1) size.perVector
    rw [Nat.ceilDiv_eq_add_pred_div]
    omega
  rw [vectors, List.flatMap_map, flatMap_statuses_pack size ss hfits _ hneeded,
    List.take_of_length_le henough, List.take_left]

-- A vector holds fourteen symbols if one bit was asked for and is enough for each
-- status, and seven otherwise.
theorem perVector_symbolSize (size : SymbolSize) (ss : List Status) :
    (symbolSize size ss).perVector
      = if size = .oneBit ∧ ∀ s ∈ ss, s.code ≤ 1 then 14 else 7 := by
  have hall : ss.all SymbolSize.oneBit.fits = true ↔ ∀ s ∈ ss, s.code ≤ 1 := by
    simp only [List.all_eq_true, SymbolSize.fits, SymbolSize.count, decide_eq_true_eq,
      Nat.lt_succ_iff]
  rw [symbolSize]
  cases size with
  | oneBit =>
      simp only [hall, true_and]
      split
      · rfl
      · rfl
  | twoBits =>
      simp only [reduceCtorEq, false_and, if_false, ite_self]
      rfl

/-- Encoding takes no more chunks than vectors alone would, and tells the same.

    Vectors alone take one chunk for every fourteen statuses, or part of fourteen,
    if symbols of one bit were asked for and are wide enough for each status. They
    take one for every seven otherwise. -/
theorem length_encode_le_vectors (size : SymbolSize) (ss : List Status) :
    (encode size ss).length ≤ (vectors (symbolSize size ss) ss).length
      ∧ (vectors (symbolSize size ss) ss).length
        = ss.length ⌈/⌉ (if size = .oneBit ∧ ∀ s ∈ ss, s.code ≤ 1 then 14 else 7)
      ∧ decode (vectors (symbolSize size ss) ss) ss.length = ss
      ∧ decode (encode size ss) ss.length = ss := by
  have hmul := length_encode_mul size ss
  refine ⟨?_, ?_, ?_, ?_⟩
  · -- One chunk more would have to describe another vector's worth of statuses.
    rw [length_vectors, Nat.ceilDiv_eq_add_pred_div]
    have hbounds := (symbolSize size ss).perVector_bounds
    rw [Nat.le_div_iff_mul_le (by omega)]
    omega
  · rw [length_vectors, perVector_symbolSize]
  · rw [decode_eq, statuses_vectors _ ss (fits_symbolSize size ss)]
  · rw [decode_eq, take_flatMap_encode]

end Chunk

end Feedback

end VideoTransport

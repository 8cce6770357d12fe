import Mathlib.Data.Int.ModEq
import VideoTransport.Vp8.PictureId

/-!
# Distances of Pictures

How far one picture is from the next is the difference of their numbers, counted
on the circle of the next one's width. It can be worked out in a word.

Moving a number up multiplies it, and the factor takes up that part of the word
which the width does not need. So a word that wraps at its own width wraps the
numbers at theirs, and moving back down divides by the factor again, with nothing
left over. Only that argument looks at bits (`toInt_sshiftRight_sub_shiftLeft`),
and it holds of words of any width.

Everything else follows from what the distance is: the one integer within half a
turn that is congruent to the difference (`PictureId.distance_eq_iff`). An earlier
identifier that is wider than the circle makes no difference there, since what is
too much of it is a number of whole turns.

## Theorems

* `toInt_sshiftRight_sub_shiftLeft`: A difference at the top of a word wraps early.
* `PictureId.distanceInWord_eq`: The word gives the distance.
* `PictureId.distance_eq_iff`: No other integer within half a turn is congruent.
* `PictureId.isJustBefore_iff`: What number the next picture has.
* `PictureId.continuity_some_eq_ite`: When a gap is seen.
* `PictureId.distance_add_modEq`: Distances in one width add up.
* `PictureId.distanceInWord_circular`: What the word gives is the way on the circle.
-/

namespace VideoTransport

namespace Vp8

/-- The difference of two words that were moved up, moved back down, wraps at
    the width that is left of them. -/
theorem toInt_sshiftRight_sub_shiftLeft {w : Nat} (x y : BitVec w) (s : Nat) (h : s < w) :
    ((y <<< s - x <<< s).sshiftRight s).toInt
      = Int.bmod ((y.toNat : Int) - x.toNat) (2 ^ (w - s)) := by
  have hfactor : 0 < 2 ^ s := Nat.two_pow_pos s
  have hsplit : 2 ^ w = 2 ^ s * 2 ^ (w - s) := by
    rw [← pow_add, Nat.add_sub_cancel' h.le]
  have heven : 2 ∣ 2 ^ (w - s) := dvd_pow_self 2 (by omega)
  have hword : (y <<< s - x <<< s).toInt
      = (2 ^ s : Nat) * Int.bmod ((y.toNat : Int) - x.toNat) (2 ^ (w - s)) := by
    calc (y <<< s - x <<< s).toInt
        = Int.bmod ((2 ^ s : Nat) * ((y.toNat : Int) - x.toNat)) (2 ^ w) := by
          rw [BitVec.toInt_sub, BitVec.toInt_shiftLeft, BitVec.toInt_shiftLeft, Int.bmod_sub_bmod,
            Int.sub_bmod_bmod, Nat.shiftLeft_eq, Nat.shiftLeft_eq, Int.natCast_mul,
            Int.natCast_mul, ← Int.sub_mul, Int.mul_comm]
      _ = (2 ^ s : Nat) * Int.bmod ((y.toNat : Int) - x.toNat) (2 ^ (w - s)) := by
          rw [hsplit, Int.mod_bmod_mul_of_pos _ _ hfactor heven]
  rw [BitVec.toInt_sshiftRight, hword, Int.shiftRight_eq_div_pow,
    Int.mul_ediv_cancel_left _ (by omega)]

namespace PictureId

theorem bits_eq_ite (p : PictureId) : p.bits = if p.isWide then 15 else 7 := by
  cases p <;> rfl

theorem bits_eq (p : PictureId) : p.bits = 7 ∨ p.bits = 15 := by
  rw [bits_eq_ite]
  split
  · exact .inr rfl
  · exact .inl rfl

theorem span_eq (p : PictureId) : p.span = 2 ^ p.bits := by
  cases p <;> rfl

theorem value_lt (p : PictureId) : p.value < 2 ^ p.bits := by
  rw [← span_eq]
  exact p.value_lt_span

-- An identifier of either width fits into a word.
theorem toNat_ofNat_value (p : PictureId) : (BitVec.ofNat 16 p.value).toNat = p.value := by
  have hlt := p.value_lt
  have hle : 2 ^ p.bits ≤ 2 ^ 16 :=
    Nat.pow_le_pow_right (by decide) (by have := p.bits_eq; omega)
  rw [BitVec.toNat_ofNat, Nat.mod_eq_of_lt (by omega)]

/-- What is worked out in a word is the distance. -/
theorem distanceInWord_eq (a b : PictureId) : distanceInWord a b = distance a b := by
  have hbits := b.bits_eq
  rw [distanceInWord, toInt_sshiftRight_sub_shiftLeft _ _ _ (by omega), toNat_ofNat_value,
    toNat_ofNat_value, Nat.sub_sub_self (by omega), ← span_eq, distance]

/-- A distance is congruent to the difference, and no other integer within half
    a turn is. -/
theorem distance_eq_iff (a b : PictureId) (n : Int) :
    distance a b = n ↔ n ≡ (b.value : Int) - a.value [ZMOD 2 ^ b.bits]
      ∧ -2 ^ (b.bits - 1) ≤ n ∧ n < 2 ^ (b.bits - 1) := by
  have hhalf : (2 : Int) ^ b.bits = 2 * 2 ^ (b.bits - 1) := by
    rw [← pow_succ', Nat.sub_add_cancel (by have := b.bits_eq; omega)]
  rw [distance, span_eq, Int.bmod_eq_iff (Nat.two_pow_pos _), Int.modEq_comm, Int.modEq_iff_dvd,
    Int.natCast_pow, Int.cast_ofNat_Int]
  constructor
  · rintro ⟨hle, hlt, hdvd⟩
    exact ⟨hdvd, by omega, by omega⟩
  · rintro ⟨hdvd, hle, hlt⟩
    exact ⟨by omega, by omega, hdvd⟩

theorem distance_modEq (a b : PictureId) :
    distance a b ≡ (b.value : Int) - a.value [ZMOD 2 ^ b.bits] :=
  ((distance_eq_iff a b _).1 rfl).1

/-- The next picture has the next number, and after the last number of its width
    comes zero. -/
theorem isJustBefore_iff (a b : PictureId) :
    a.isJustBefore b = true ↔ b.value = (a.value + 1) % 2 ^ b.bits := by
  have hone : (1 : Int) < 2 ^ (b.bits - 1) :=
    mod_cast Nat.one_lt_two_pow (by have := b.bits_eq; omega)
  calc a.isJustBefore b = true
      ↔ 1 ≡ (b.value : Int) - a.value [ZMOD 2 ^ b.bits] := by
        rw [isJustBefore, beq_iff_eq, distance_eq_iff]
        exact and_iff_left ⟨by omega, hone⟩
    _ ↔ ((a.value + 1 : Nat) : Int) ≡ (b.value : Nat) [ZMOD (2 ^ b.bits : Nat)] := by
        rw [Int.modEq_iff_dvd, Int.modEq_iff_dvd]
        push_cast
        rw [sub_sub]
    _ ↔ b.value = (a.value + 1) % 2 ^ b.bits := by
        rw [Int.natCast_modEq_iff, Nat.ModEq, Nat.mod_eq_of_lt b.value_lt, eq_comm]

/-- So a gap is seen exactly if the next number is another one, unless the sender
    has begun to count anew. -/
theorem continuity_some_eq_ite (last next : PictureId) :
    last.continuity (some next)
      = if last.isWide = true ∧ next.isWide = false then .undecided
        else if next.value = (last.value + 1) % 2 ^ next.bits then .follows
        else .gap := by
  simp only [continuity, isJustBefore_iff, Bool.and_eq_true, Bool.not_eq_true']

/-- Ways from picture to picture add up, if the two ends are counted alike. -/
theorem distance_add_modEq (a b c : PictureId) (h : c.isWide = b.isWide) :
    distance a b + distance b c ≡ distance a c [ZMOD 2 ^ b.bits] := by
  have hbits : c.bits = b.bits := by rw [bits_eq_ite, bits_eq_ite, h]
  have hab := distance_modEq a b
  have hbc := distance_modEq b c
  have hac := distance_modEq a c
  rw [hbits] at hbc hac
  calc distance a b + distance b c
      ≡ ((b.value : Int) - a.value) + (c.value - b.value) [ZMOD 2 ^ b.bits] := hab.add hbc
    _ = (c.value : Int) - a.value := by omega
    _ ≡ distance a c [ZMOD 2 ^ b.bits] := hac.symm

/-- What is worked out in a word is the way on the circle of the later identifier's
    width, less than half a turn forward and at most half a turn back. So the
    next picture is one with the next number, and as long as that width stays,
    ways add up. -/
theorem distanceInWord_circular (a b : PictureId) :
    distanceInWord a b = distance a b
      ∧ distanceInWord a b ≡ (b.value : Int) - a.value [ZMOD 2 ^ b.bits]
      ∧ -2 ^ (b.bits - 1) ≤ distanceInWord a b ∧ distanceInWord a b < 2 ^ (b.bits - 1)
      ∧ (a.isJustBefore b = true ↔ b.value = (a.value + 1) % 2 ^ b.bits)
      ∧ ∀ c : PictureId, c.isWide = b.isWide →
        distanceInWord a b + distanceInWord b c ≡ distanceInWord a c [ZMOD 2 ^ b.bits] := by
  obtain ⟨hcongruent, hle, hlt⟩ := (distance_eq_iff a b (distance a b)).1 rfl
  refine ⟨distanceInWord_eq a b, ?_⟩
  simp only [distanceInWord_eq]
  exact ⟨hcongruent, hle, hlt, isJustBefore_iff a b, distance_add_modEq a b⟩

-- The stream has changed to wide identifiers on the way, and the whole way is more
-- than half a turn, so it counts backward.
theorem distanceInWord_circular_widened :
    (wide 32000).isWide = (wide 16000).isWide
      ∧ distanceInWord (narrow 127) (wide 16000) = 15873
      ∧ distanceInWord (wide 16000) (wide 32000) = 16000
      ∧ distanceInWord (narrow 127) (wide 32000) = -895
      ∧ distanceInWord (narrow 127) (wide 16000) + distanceInWord (wide 16000) (wide 32000)
        ≡ distanceInWord (narrow 127) (wide 32000) [ZMOD 2 ^ 15] := by
  refine ⟨rfl, by decide, by decide, by decide, ?_⟩
  obtain ⟨-, -, -, -, -, hadd⟩ := distanceInWord_circular (narrow 127) (wide 16000)
  exact hadd (wide 32000) rfl

-- Of two pictures that lie opposite each other, each is behind the other.
example : distance (narrow 3) (narrow 67) = -64 ∧ distance (narrow 67) (narrow 3) = -64 := by
  decide

end PictureId

end Vp8

end VideoTransport

import VideoTransport.SeqNum

/-!
# Positions on the Circle

Arithmetic of sequence numbers as seen from one of them.

A batch of arrivals is ordered by its distances from one fixed number, the
anchor. Distances are integers, so everything that is circular about sequence
numbers has to be settled where the two meet: different numbers have different
distances, and the steps from one number forward to another are the difference
of their distances, as long as the second one is not behind.

A distance covers the whole circle once, and most of these laws need no more.
Where two distances are added or subtracted, the result has to be a distance
again, that is, less than half a turn. Numbers of the half of the circle that
begins at an origin always are as far apart as their distances say.

## Theorems

* `SeqNum.toInt_stepsTo`: Counting forward is the difference modulo 65536.
* `SeqNum.distance_injective`: The distance from an anchor tells the number.
* `SeqNum.stepsTo_eq_sub`: Steps forward are a difference of distances.
* `SeqNum.advance_zero`, `SeqNum.advance_advance`: Advancing adds up.
* `SeqNum.advance_stepsTo`: Going as far as counted leads there.
* `SeqNum.advance_injective`: Less than one turn ahead, no number comes twice.
* `SeqNum.distance_advance`: Advancing moves a distance along.
* `SeqNum.distance_eq_sub_of_lt`: The distance of two numbers is a difference of distances.
* `SeqNum.distance_add`: Ways forward add up.
* `SeqNum.stepsTo_lt_iff`: Lying in a range is lying between its ends.
* `SeqNum.mem_map_advance_range`: The numbers in a row, told by steps.
* `SeqNum.map_advance_range_add`: Rows of numbers that join.
-/

namespace VideoTransport

namespace SeqNum

theorem toInt_stepsTo (a b : SeqNum) :
    (a.stepsTo b : Int) = ((b.toNat : Int) - a.toNat) % 65536 := by
  have ha := a.toNat_lt
  have hb := b.toNat_lt
  rw [stepsTo, UInt16.toNat_sub]
  omega

theorem distance_eq (a b : SeqNum) :
    distance a b = if ((b.toNat : Int) - a.toNat) % 65536 < 32768
      then ((b.toNat : Int) - a.toNat) % 65536
      else ((b.toNat : Int) - a.toNat) % 65536 - 65536 := by
  rw [distance, Int.bmod_def]
  rfl

/-- The distance from an anchor tells the number. -/
theorem distance_injective (anchor a b : SeqNum)
    (h : distance anchor a = distance anchor b) : a = b := by
  have ha := a.toNat_lt
  have hb := b.toNat_lt
  rw [distance_eq, distance_eq] at h
  apply UInt16.toNat_inj.1
  split at h <;> split at h <;> omega

/-- Steps forward from one number to another are the difference of their
    distances from an anchor, if the second one is not behind the first. -/
theorem stepsTo_eq_sub (anchor a b : SeqNum)
    (h : distance anchor a ≤ distance anchor b) :
    (a.stepsTo b : Int) = distance anchor b - distance anchor a := by
  have ha := a.toNat_lt
  have hb := b.toNat_lt
  rw [toInt_stepsTo]
  rw [distance_eq, distance_eq] at h ⊢
  split at h <;> split at h <;> split <;> omega

theorem toNat_advance (a : SeqNum) (n : Nat) : (a.advance n).toNat = (a.toNat + n) % 65536 := by
  rw [advance, UInt16.toNat_add, UInt16.toNat_ofNat']
  omega

@[simp] theorem advance_zero (a : SeqNum) : a.advance 0 = a := by
  have ha := a.toNat_lt
  apply UInt16.toNat_inj.1
  rw [toNat_advance]
  omega

theorem advance_advance (a : SeqNum) (m n : Nat) : (a.advance m).advance n = a.advance (m + n) := by
  apply UInt16.toNat_inj.1
  rw [toNat_advance, toNat_advance, toNat_advance]
  omega

/-- Going forward as far as counted leads to the number counted to. -/
theorem advance_stepsTo (a b : SeqNum) : a.advance (a.stepsTo b) = b := by
  have ha := a.toNat_lt
  have hb := b.toNat_lt
  have hsteps := toInt_stepsTo a b
  apply UInt16.toNat_inj.1
  rw [toNat_advance]
  omega

/-- Less than one turn ahead of a number, no number comes twice. -/
theorem advance_injective (a : SeqNum) (m n : Nat) (hm : m < 65536) (hn : n < 65536)
    (h : a.advance m = a.advance n) : m = n := by
  have hv := congrArg UInt16.toNat h
  rw [toNat_advance, toNat_advance] at hv
  omega

-- Advancing moves the distance from an anchor along, short of the number that
-- lies opposite.
theorem distance_advance (anchor a : SeqNum) (n : Nat) (h : distance anchor a + n < 32768) :
    distance anchor (a.advance n) = distance anchor a + n := by
  have ha := a.toNat_lt
  have hb := anchor.toNat_lt
  rw [distance_eq] at h ⊢
  rw [distance_eq, toNat_advance]
  split at h <;> split <;> omega

theorem stepsTo_eq_distance (a b : SeqNum) (h : 0 ≤ distance a b) :
    (a.stepsTo b : Int) = distance a b := by
  rw [stepsTo_eq_sub a a b (by rw [distance_self]; exact h), distance_self, Int.sub_zero]

/-- The distance of two numbers is the difference of those from an anchor, if
    that is no more than half a turn. -/
theorem distance_eq_sub_of_lt (anchor a b : SeqNum)
    (hle : -32768 ≤ distance anchor b - distance anchor a)
    (hlt : distance anchor b - distance anchor a < 32768) :
    distance a b = distance anchor b - distance anchor a := by
  have hat := a.toNat_lt
  have hbt := b.toNat_lt
  rw [distance_eq, distance_eq] at hle hlt
  rw [distance_eq, distance_eq, distance_eq]
  split at hle <;> split at hlt <;> split <;> omega

/-- So it is for numbers in the half of the circle that begins at an origin. -/
theorem distance_eq_sub (origin a b : SeqNum) (ha : 0 ≤ distance origin a)
    (hb : 0 ≤ distance origin b) :
    distance a b = distance origin b - distance origin a := by
  have hlta := distance_lt origin a
  have hltb := distance_lt origin b
  exact distance_eq_sub_of_lt origin a b (by omega) (by omega)

/-- Ways forward add up, as long as they come to less than half a turn. -/
theorem distance_add (a b c : SeqNum) (hbc : 0 ≤ distance b c)
    (h : distance a b + distance b c < 32768) : distance a c = distance a b + distance b c := by
  have hadvance := distance_advance a b (b.stepsTo c)
  rw [stepsTo_eq_distance b c hbc, advance_stepsTo] at hadvance
  exact hadvance h

-- One step on, a number ahead is further ahead, or lies exactly opposite.
theorem distance_next (a b : SeqNum) (h : 0 ≤ distance a b) :
    distance a b.next = distance a b + 1 ∨ distance a b.next = -32768 := by
  have ha := a.toNat_lt
  have hb := b.toNat_lt
  rw [distance_eq] at h ⊢
  rw [next, distance_eq, toNat_advance]
  split at h <;> split <;> omega

-- One step on, a number behind is nearer, unless it lies exactly opposite.
theorem next_distance (a b : SeqNum) (h : -32768 < distance a b) :
    distance a.next b = distance a b - 1 := by
  have ha := a.toNat_lt
  have hb := b.toNat_lt
  rw [distance_eq] at h ⊢
  rw [next, distance_eq, toNat_advance]
  split at h <;> split <;> omega

-- The half of the circle that ends with a number begins 32767 numbers before it.
theorem distance_half (a b : SeqNum) (h : 0 ≤ distance a b) :
    distance (b.advance 32769) a = 32767 - distance a b := by
  have ha := a.toNat_lt
  have hb := b.toNat_lt
  rw [distance_eq] at h
  have hlt : ((b.toNat : Int) - a.toNat) % 65536 < 32768 := by
    split at h <;> omega
  rw [distance_eq a b, if_pos hlt, distance_eq, toNat_advance]
  split <;> omega

-- Of two numbers no more than one is the newer one.
theorem precedes_asymm (a b : SeqNum) (h : a.precedes b = true) : b.precedes a = false := by
  have ha := a.toNat_lt
  have hb := b.toNat_lt
  rw [precedes, decide_eq_true_eq, distance_eq] at h
  rw [precedes, decide_eq_false_iff_not, distance_eq]
  split at h <;> split <;> omega

theorem stepsTo_advance (a : SeqNum) (n : Nat) (h : n < 65536) : a.stepsTo (a.advance n) = n := by
  have ha := a.toNat_lt
  have hsteps := toInt_stepsTo a (a.advance n)
  rw [toNat_advance] at hsteps
  omega

theorem distance_eq_stepsTo (a b : SeqNum) (h : a.stepsTo b < 32768) :
    distance a b = a.stepsTo b := by
  have hsteps := toInt_stepsTo a b
  rw [distance_eq, ← hsteps, if_pos (by omega)]

-- The distance of two numbers that are less than half a turn ahead of one.
theorem distance_advance_advance (a : SeqNum) (m n : Nat) (hm : m < 32768) (hn : n < 32768) :
    distance (a.advance m) (a.advance n) = (n : Int) - m := by
  have ha := a.toNat_lt
  rw [distance_eq, toNat_advance, toNat_advance]
  split <;> omega

/-- As seen from some number, the range of `n` numbers that begins at `base` is
    what lies between its ends, if it does not go round past that number. -/
theorem stepsTo_lt_iff (a base b : SeqNum) (n : Nat) (h : a.stepsTo base + n ≤ 65536) :
    base.stepsTo b < n ↔ a.stepsTo base ≤ a.stepsTo b ∧ a.stepsTo b < a.stepsTo base + n := by
  have hbase := toInt_stepsTo a base
  have hb := toInt_stepsTo a b
  have hsteps := toInt_stepsTo base b
  omega

-- Numbers in a row are some of them, and then the others.
theorem map_advance_range_add (a : SeqNum) (m n : Nat) :
    (List.range (m + n)).map a.advance
      = (List.range m).map a.advance ++ (List.range n).map (a.advance m).advance := by
  rw [List.range_add, List.map_append, List.map_map]
  congr 1
  apply List.map_congr_left
  intro i _
  rw [Function.comp_apply, advance_advance]

/-- The numbers in a row, told by the steps to them. -/
theorem mem_map_advance_range (base b : SeqNum) (n : Nat) (h : n ≤ 65536) :
    b ∈ (List.range n).map base.advance ↔ base.stepsTo b < n := by
  rw [List.mem_map]
  constructor
  · rintro ⟨i, hi, rfl⟩
    rw [List.mem_range] at hi
    rw [stepsTo_advance base i (by omega)]
    exact hi
  · intro hb
    exact ⟨base.stepsTo b, List.mem_range.2 hb, advance_stepsTo base b⟩

end SeqNum

end VideoTransport

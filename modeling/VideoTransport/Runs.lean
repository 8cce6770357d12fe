/-!
# Runs

A list cut into its longest stretches of equal elements, each told by its
element and its length.

## Main definitions

* `runs`: The stretches of a list.

## Theorems

* `flatMap_runs`: Repeating each element as often as told gives the list back.
* `mem_of_mem_runs`: The stretches are of elements of the list.
-/

namespace VideoTransport

/-- Puts an element in front of some stretches. It makes the first one longer
    if it is equal to its element. -/
def extendRuns {α : Type} [DecidableEq α] (a : α) : List (α × Nat) → List (α × Nat)
  | [] => [(a, 1)]
  | (b, n) :: rest => if a = b then (b, n + 1) :: rest else (a, 1) :: (b, n) :: rest

/-- The longest stretches of equal elements, in order. -/
def runs {α : Type} [DecidableEq α] (l : List α) : List (α × Nat) :=
  l.foldr extendRuns []

/-- Repeating each element as often as told gives the list back. -/
theorem flatMap_runs {α : Type} [DecidableEq α] (l : List α) :
    (runs l).flatMap (fun r => List.replicate r.2 r.1) = l := by
  induction l with
  | nil => rfl
  | cons a l ih =>
    have h : runs (a :: l) = extendRuns a (runs l) := rfl
    rw [h]
    generalize runs l = stretches at ih
    cases stretches with
    | nil => simp [extendRuns] at ih ⊢; exact ih
    | cons r rest =>
      obtain ⟨b, n⟩ := r
      rw [List.flatMap_cons] at ih
      by_cases hab : a = b
      · simp [extendRuns, hab, List.replicate_succ, ← ih]
      · simp [extendRuns, hab, ← ih]

/-- The stretches are of elements of the list. -/
theorem mem_of_mem_runs {α : Type} [DecidableEq α] (l : List α) (r : α × Nat) (h : r ∈ runs l) :
    r.1 ∈ l := by
  induction l with
  | nil => exact absurd h List.not_mem_nil
  | cons a l ih =>
    have hruns : runs (a :: l) = extendRuns a (runs l) := rfl
    rw [hruns] at h
    generalize runs l = stretches at h ih
    cases stretches with
    | nil =>
      rw [extendRuns, List.mem_singleton] at h
      rw [h]
      exact List.mem_cons_self ..
    | cons s rest =>
      obtain ⟨b, n⟩ := s
      have hs := List.mem_cons_self (a := (b, n)) (l := rest)
      by_cases hab : a = b
      · rw [extendRuns, if_pos hab, List.mem_cons] at h
        rcases h with h | h
        · rw [h, ← hab]
          exact List.mem_cons_self ..
        · exact List.mem_cons_of_mem _ (ih (List.mem_cons_of_mem _ h))
      · rw [extendRuns, if_neg hab, List.mem_cons] at h
        rcases h with h | h
        · rw [h]
          exact List.mem_cons_self ..
        · exact List.mem_cons_of_mem _ (ih h)

end VideoTransport

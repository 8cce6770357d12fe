/-!
# Sliding Buffers

A list that grows at its end and shrinks at its front, with access by position.
The items are kept in an array. Dropping an item only moves the place where the
list begins, and the array is cut when more than half of it has been dropped, so
that a long series of additions and removals takes linear time.

All that a user needs to know of a buffer is `toList`, and each operation has a
lemma that says what it does to it.

## Main definitions

* `SlidingBuffer`: An array, and how much of its front does not count.
* `SlidingBuffer.toList`: The items that count.
* `SlidingBuffer.push`, `SlidingBuffer.dropFront`: Growing and shrinking.
* `SlidingBuffer.get?`, `SlidingBuffer.modify`: Access by position.

## Theorems

* `SlidingBuffer.toList_push`: An item is added at the end.
* `SlidingBuffer.toList_dropFront`: Items are dropped from the front.
* `SlidingBuffer.toList_modify`: One item is changed.
* `SlidingBuffer.get?_eq`, `SlidingBuffer.length_toList`: Position and size are those of the list.
-/

namespace VideoTransport

/-- An array of which the first items have been dropped. -/
structure SlidingBuffer (α : Type) where
  items : Array α
  dropped : Nat
  dropped_le : dropped ≤ items.size

namespace SlidingBuffer

variable {α : Type}

/-- A buffer without items. -/
def empty : SlidingBuffer α where
  items := #[]
  dropped := 0
  dropped_le := Nat.zero_le _

/-- The items that have not been dropped. -/
def toList (b : SlidingBuffer α) : List α :=
  b.items.toList.drop b.dropped

/-- How many items there are. -/
def size (b : SlidingBuffer α) : Nat :=
  b.items.size - b.dropped

/-- Adds an item at the end. -/
def push (b : SlidingBuffer α) (a : α) : SlidingBuffer α where
  items := b.items.push a
  dropped := b.dropped
  dropped_le := by
    have := b.dropped_le
    simp only [Array.size_push]
    omega

/-- Drops items from the front, all of them if there are fewer. -/
def dropFront (b : SlidingBuffer α) (n : Nat) : SlidingBuffer α :=
  let dropped := min (b.dropped + n) b.items.size
  if b.items.size < 2 * dropped then
    { items := b.items.extract dropped, dropped := 0, dropped_le := Nat.zero_le _ }
  else
    { items := b.items, dropped, dropped_le := Nat.min_le_right _ _ }

/-- The item at a position, counted from the front. -/
def get? (b : SlidingBuffer α) (i : Nat) : Option α :=
  b.items[b.dropped + i]?

/-- Changes the item at a position, if there is one. -/
def modify (b : SlidingBuffer α) (i : Nat) (f : α → α) : SlidingBuffer α where
  items := b.items.modify (b.dropped + i) f
  dropped := b.dropped
  dropped_le := by
    rw [Array.size_modify]
    exact b.dropped_le

@[simp] theorem toList_empty : (empty : SlidingBuffer α).toList = [] := rfl

@[simp] theorem length_toList (b : SlidingBuffer α) : b.toList.length = b.size := by
  simp [toList, size]

@[simp] theorem toList_push (b : SlidingBuffer α) (a : α) : (b.push a).toList = b.toList ++ [a] := by
  have := b.dropped_le
  simp only [toList, push, Array.toList_push]
  rw [List.drop_append_of_le_length (by simpa using this)]

@[simp] theorem toList_dropFront (b : SlidingBuffer α) (n : Nat) :
    (b.dropFront n).toList = b.toList.drop n := by
  have hmin : b.items.toList.drop (min (b.dropped + n) b.items.size)
      = b.items.toList.drop (b.dropped + n) := by
    rcases Nat.le_total (b.dropped + n) b.items.size with h | h
    · rw [Nat.min_eq_left h]
    · rw [Nat.min_eq_right h, List.drop_eq_nil_of_le (by simp),
        List.drop_eq_nil_of_le (by simpa using h)]
  rw [show b.toList.drop n = b.items.toList.drop (b.dropped + n) from List.drop_drop, ← hmin,
    dropFront]
  split
  · simp [toList, List.take_of_length_le]
  · rfl

@[simp] theorem get?_eq (b : SlidingBuffer α) (i : Nat) : b.get? i = b.toList[i]? := by
  simp [get?, toList]

@[simp] theorem toList_modify (b : SlidingBuffer α) (i : Nat) (f : α → α) :
    (b.modify i f).toList = b.toList.modify i f := by
  apply List.ext_getElem?
  intro j
  simp [toList, modify, List.getElem?_modify]

end SlidingBuffer

end VideoTransport

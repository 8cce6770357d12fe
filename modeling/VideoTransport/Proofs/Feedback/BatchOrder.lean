import VideoTransport.Feedback.Batch
import VideoTransport.Proofs.Circle

/-!
# Order of a Batch

What putting a batch in order does to it.

The order is that of distances from the first arrival, the anchor. Different
numbers have different distances, so after sorting the arrivals of one number
stand next to each other, and the sorting is stable, so the one recorded first
stands in front of the others. Dropping repetitions then leaves exactly the
first arrival of each number. Nothing of this depends on how much of the circle
a batch covers.

The span of a batch is measured from the same anchor, so it bounds how far any
two of its arrivals are apart in that order.

## Main definitions

* `firstOf`: The arrival of a number that was recorded first.

## Theorems

* `eraseRepsBy_cons_cons`: Dropping repetitions, one arrival at a time.
* `filter_mergeSort`: Sorting keeps the arrivals of one number in order.
* `pairwise_inOrder`: In order, every arrival is ahead of those before it.
* `inOrder_perm`: Putting a batch of different numbers in order drops nothing.
* `inOrder_of_perm`, `inOrder_of_pairwise`: The order of a batch, if it is known.
* `mem_inOrder`: What is kept is the first arrival of each number.
* `span_le`: No span is more than once round the circle.
* `sub_lt_span`: Two arrivals are less than the span of the batch apart.
* `exists_span_eq`: The span is what lies between two of the arrivals.
-/

namespace VideoTransport

namespace Feedback

/-- The arrival of a number that was recorded first, if there is one. -/
def firstOf (batch : List Arrival) (seq : SeqNum) : Option Arrival :=
  batch.find? fun a => a.seq == seq

section Repetitions

variable {α : Type} (r : α → α → Bool)

theorem eraseRepsBy_loop (a : α) (as acc : List α) :
    List.eraseRepsBy.loop r a as acc = acc.reverse ++ List.eraseRepsBy.loop r a as [] := by
  induction as generalizing a acc with
  | nil => simp [List.eraseRepsBy.loop]
  | cons b rest ih =>
      rw [List.eraseRepsBy.loop, List.eraseRepsBy.loop]
      cases r a b with
      | true => exact ih a acc
      | false =>
          simp only
          rw [ih b (a :: acc), ih b [a], List.reverse_cons, List.append_assoc]
          rfl

/-- Of two neighbours the second one is dropped if it repeats the first. -/
theorem eraseRepsBy_cons_cons (a b : α) (rest : List α) :
    (a :: b :: rest).eraseRepsBy r
      = if r a b then (a :: rest).eraseRepsBy r else a :: (b :: rest).eraseRepsBy r := by
  rw [List.eraseRepsBy, List.eraseRepsBy.loop]
  cases r a b with
  | true => rfl
  | false =>
      simp only [Bool.false_eq_true, if_false]
      rw [eraseRepsBy_loop]
      rfl

end Repetitions

/-- The order of a batch, as seen from an anchor. -/
def notAfter (anchor : SeqNum) (a b : Arrival) : Bool :=
  anchor.distance a.seq ≤ anchor.distance b.seq

theorem notAfter_of_seq_eq (anchor : SeqNum) (a b : Arrival) (h : a.seq = b.seq) :
    notAfter anchor a b = true := by
  rw [notAfter, h]
  exact decide_eq_true (Int.le_refl _)

theorem notAfter_trans (anchor : SeqNum) (a b c : Arrival) (hab : notAfter anchor a b = true)
    (hbc : notAfter anchor b c = true) : notAfter anchor a c = true := by
  simp only [notAfter, decide_eq_true_eq] at hab hbc ⊢
  omega

theorem notAfter_total (anchor : SeqNum) (a b : Arrival) :
    (notAfter anchor a b || notAfter anchor b a) = true := by
  simp only [notAfter, Bool.or_eq_true, decide_eq_true_eq]
  omega

theorem firstOf_cons (b : Arrival) (batch : List Arrival) (seq : SeqNum) :
    firstOf (b :: batch) seq = if b.seq = seq then some b else firstOf batch seq := by
  rw [firstOf, List.find?_cons]
  by_cases h : b.seq = seq
  · rw [if_pos h, beq_iff_eq.2 h]
  · rw [if_neg h, beq_eq_false_iff_ne.2 h]
    rfl

theorem mem_of_firstOf (batch : List Arrival) (seq : SeqNum) (a : Arrival)
    (h : firstOf batch seq = some a) : a ∈ batch ∧ a.seq = seq := by
  rw [firstOf] at h
  have hseq := List.find?_some h
  exact ⟨List.mem_of_find?_eq_some h, beq_iff_eq.1 hseq⟩

-- Once another number follows in a sorted batch, a number does not come again.
theorem firstOf_eq_none_of_sorted (anchor : SeqNum) (b c : Arrival) (rest : List Arrival)
    (h : (b :: c :: rest).Pairwise fun x y => notAfter anchor x y = true) (hbc : b.seq ≠ c.seq) :
    firstOf (c :: rest) b.seq = none := by
  rw [Option.eq_none_iff_forall_ne_some]
  intro a hfirst
  rcases mem_of_firstOf _ _ _ hfirst with ⟨hmem, hseq⟩
  have hca : notAfter anchor c a = true := by
    rcases List.mem_cons.1 hmem with hac | hac
    · exact notAfter_of_seq_eq anchor c a (congrArg Arrival.seq hac).symm
    · exact List.rel_of_pairwise_cons (List.Pairwise.of_cons h) hac
  have hb := List.rel_of_pairwise_cons h List.mem_cons_self
  simp only [notAfter, decide_eq_true_eq] at hb hca
  rw [hseq] at hca
  exact hbc (SeqNum.distance_injective anchor _ _ (by omega))

-- In a sorted batch, dropping repetitions leaves the first arrival of each
-- number.
theorem mem_eraseRepsBy (anchor : SeqNum) (b : Arrival) (rest : List Arrival)
    (h : (b :: rest).Pairwise fun x y => notAfter anchor x y = true) (a : Arrival) :
    a ∈ (b :: rest).eraseRepsBy (fun x y => x.seq == y.seq)
      ↔ firstOf (b :: rest) a.seq = some a := by
  induction rest generalizing b with
  | nil =>
      rw [firstOf_cons, firstOf, List.find?_nil]
      simp only [List.eraseRepsBy, List.eraseRepsBy.loop, List.reverse_singleton,
        List.mem_singleton]
      constructor
      · intro hab
        rw [hab, if_pos rfl]
      · intro hfirst
        by_cases hseq : b.seq = a.seq
        · rw [if_pos hseq] at hfirst
          exact (Option.some.inj hfirst).symm
        · rw [if_neg hseq] at hfirst
          exact absurd hfirst (by simp only [reduceCtorEq, not_false_eq_true])
  | cons c rest ih =>
      rw [eraseRepsBy_cons_cons, firstOf_cons]
      by_cases hbc : b.seq = c.seq
      · -- The second one is a repetition, which the first one hides.
        have hrest := ih b (h.sublist ((List.sublist_cons_self c rest).cons_cons b))
        rw [firstOf_cons] at hrest
        rw [beq_iff_eq.2 hbc, if_pos rfl, hrest, firstOf_cons, hbc]
        by_cases hseq : c.seq = a.seq
        · rw [if_pos hseq, if_pos hseq]
        · rw [if_neg hseq, if_neg hseq, if_neg hseq]
      · have hrest := ih c (List.Pairwise.of_cons h)
        rw [beq_eq_false_iff_ne.2 hbc, if_neg Bool.false_ne_true, List.mem_cons, hrest]
        by_cases hseq : b.seq = a.seq
        · -- No later arrival has the number, so the first one is the only choice.
          have hlater := firstOf_eq_none_of_sorted anchor b c rest h hbc
          rw [hseq] at hlater
          rw [if_pos hseq, hlater]
          simp only [reduceCtorEq, or_false, Option.some.injEq, eq_comm]
        · rw [if_neg hseq]
          constructor
          · rintro (hab | hfirst)
            · exact absurd (congrArg Arrival.seq hab).symm hseq
            · exact hfirst
          · exact Or.inr

-- In a sorted batch, dropping repetitions leaves each arrival ahead of those
-- before it.
theorem pairwise_eraseRepsBy (anchor : SeqNum) (b : Arrival) (rest : List Arrival)
    (h : (b :: rest).Pairwise fun x y => notAfter anchor x y = true) :
    ((b :: rest).eraseRepsBy fun x y => x.seq == y.seq).Pairwise
      fun x y => anchor.distance x.seq < anchor.distance y.seq := by
  induction rest generalizing b with
  | nil => exact List.pairwise_singleton _ _
  | cons c rest ih =>
      rw [eraseRepsBy_cons_cons]
      by_cases hbc : b.seq = c.seq
      · rw [beq_iff_eq.2 hbc, if_pos rfl]
        exact ih b (h.sublist ((List.sublist_cons_self c rest).cons_cons b))
      · rw [beq_eq_false_iff_ne.2 hbc, if_neg Bool.false_ne_true]
        have htail := List.Pairwise.of_cons h
        refine List.Pairwise.cons (fun x hx => ?_) (ih c htail)
        have hmem := (mem_of_firstOf _ _ _ ((mem_eraseRepsBy anchor c rest htail x).1 hx)).1
        have hcx : notAfter anchor c x = true := by
          rcases List.mem_cons.1 hmem with hac | hac
          · exact notAfter_of_seq_eq anchor c x (congrArg Arrival.seq hac).symm
          · exact List.rel_of_pairwise_cons htail hac
        have hb := List.rel_of_pairwise_cons h (List.mem_cons_self ..)
        have hne : anchor.distance b.seq ≠ anchor.distance c.seq := fun heq =>
          hbc (SeqNum.distance_injective anchor _ _ heq)
        simp only [notAfter, decide_eq_true_eq] at hb hcx
        omega

/-- Sorting is stable, so the arrivals of one number stay in the order in which
    they were recorded. -/
theorem filter_mergeSort (anchor seq : SeqNum) (batch : List Arrival) :
    (batch.mergeSort (notAfter anchor)).filter (fun a => a.seq == seq)
      = batch.filter fun a => a.seq == seq := by
  have hequal : (batch.filter fun a => a.seq == seq).Pairwise
      fun x y => notAfter anchor x y = true := by
    refine List.pairwise_of_forall_mem_list fun x hx y hy => ?_
    have hxs := beq_iff_eq.1 (List.mem_filter.1 hx).2
    have hys := beq_iff_eq.1 (List.mem_filter.1 hy).2
    exact notAfter_of_seq_eq anchor x y (hxs.trans hys.symm)
  have hsub := List.sublist_mergeSort (notAfter_trans anchor) (notAfter_total anchor) hequal
    List.filter_sublist
  have hfilter := hsub.filter fun a => a.seq == seq
  rw [List.filter_filter, List.filter_congr fun a _ => Bool.and_self _] at hfilter
  exact (hfilter.eq_of_length ((List.mergeSort_perm _ _).filter _).length_eq.symm).symm

theorem firstOf_mergeSort (anchor seq : SeqNum) (batch : List Arrival) :
    firstOf (batch.mergeSort (notAfter anchor)) seq = firstOf batch seq := by
  rw [firstOf, ← List.head?_filter, filter_mergeSort, List.head?_filter, firstOf]

theorem pairwise_mergeSort_notAfter (anchor : SeqNum) (batch : List Arrival) :
    (batch.mergeSort (notAfter anchor)).Pairwise fun x y => notAfter anchor x y = true :=
  List.pairwise_mergeSort (notAfter_trans anchor) (notAfter_total anchor) batch

theorem inOrder_cons (first : Arrival) (rest : List Arrival) :
    inOrder (first :: rest)
      = ((first :: rest).mergeSort (notAfter first.seq)).eraseRepsBy fun a b => a.seq == b.seq :=
  rfl

/-- In order, every arrival is ahead of those before it. -/
theorem pairwise_inOrder (first : Arrival) (rest : List Arrival) :
    (inOrder (first :: rest)).Pairwise
      fun a b => first.seq.distance a.seq < first.seq.distance b.seq := by
  have hsorted := pairwise_mergeSort_notAfter first.seq (first :: rest)
  rw [inOrder_cons]
  cases h : (first :: rest).mergeSort (notAfter first.seq) with
  | nil => exact List.Pairwise.nil
  | cons b more =>
      rw [h] at hsorted
      exact pairwise_eraseRepsBy first.seq b more hsorted

theorem eraseRepsBy_of_pairwise (l : List Arrival)
    (h : l.Pairwise fun a b => a.seq ≠ b.seq) :
    l.eraseRepsBy (fun a b => a.seq == b.seq) = l := by
  induction l with
  | nil => rfl
  | cons b rest ih =>
      have hrest := ih (List.Pairwise.of_cons h)
      cases rest with
      | nil => rfl
      | cons c rest =>
          have hbc := List.rel_of_pairwise_cons h List.mem_cons_self
          rw [eraseRepsBy_cons_cons, beq_eq_false_iff_ne.2 hbc, if_neg Bool.false_ne_true, hrest]

/-- A batch of different numbers is put in order without dropping any of it. -/
theorem inOrder_perm (batch : List Arrival) (h : (batch.map Arrival.seq).Nodup) :
    (inOrder batch).Perm batch := by
  cases batch with
  | nil => exact List.Perm.refl []
  | cons first rest =>
      have hsorted := List.mergeSort_perm (first :: rest) (notAfter first.seq)
      have hdistinct := (hsorted.map Arrival.seq).nodup_iff.2 h
      rw [inOrder_cons, eraseRepsBy_of_pairwise _ (List.pairwise_map.1 hdistinct)]
      exact hsorted

/-- The order of a batch is known when its arrivals are known in order. -/
theorem inOrder_of_perm (first : Arrival) (rest sorted : List Arrival)
    (hperm : (first :: rest).Perm sorted)
    (h : sorted.Pairwise fun a b => first.seq.distance a.seq < first.seq.distance b.seq) :
    inOrder (first :: rest) = sorted := by
  have hdistinct : ((first :: rest).map Arrival.seq).Nodup := by
    rw [(hperm.map Arrival.seq).nodup_iff]
    refine List.pairwise_map.2 (h.imp ?_)
    intro a b hab hseq
    rw [hseq] at hab
    exact Int.lt_irrefl _ hab
  refine ((inOrder_perm (first :: rest) hdistinct).trans hperm).eq_of_pairwise ?_
    (pairwise_inOrder first rest) h
  intro a b _ _ hab hba
  exact absurd (Int.lt_trans hab hba) (Int.lt_irrefl _)

/-- A batch that is in order already is kept as it is. -/
theorem inOrder_of_pairwise (first : Arrival) (rest : List Arrival)
    (h : (first :: rest).Pairwise
      fun a b => first.seq.distance a.seq < first.seq.distance b.seq) :
    inOrder (first :: rest) = first :: rest :=
  inOrder_of_perm first rest _ (List.Perm.refl _) h

/-- What is kept of a batch is the first arrival of each number. -/
theorem mem_inOrder (batch : List Arrival) (a : Arrival) :
    a ∈ inOrder batch ↔ firstOf batch a.seq = some a := by
  cases batch with
  | nil => simp [inOrder, firstOf]
  | cons first rest =>
      have hsorted := pairwise_mergeSort_notAfter first.seq (first :: rest)
      have hfirst := firstOf_mergeSort first.seq a.seq (first :: rest)
      rw [inOrder_cons, ← hfirst]
      cases h : (first :: rest).mergeSort (notAfter first.seq) with
      | nil =>
          have hlen := congrArg List.length h
          rw [List.length_mergeSort] at hlen
          exact absurd hlen (Nat.succ_ne_zero _)
      | cons b more =>
          rw [h] at hsorted
          exact mem_eraseRepsBy first.seq b more hsorted a

section Extremes

variable (f : Int → Int → Int)

-- The fold of a choice such as `max` is related to all that it chooses from.
theorem foldl_choice (R : Int → Int → Prop) (hrefl : ∀ x, R x x)
    (htrans : ∀ x y z, R x y → R y z → R x z) (hf : ∀ x y, R x (f x y) ∧ R y (f x y))
    (l : List Int) (init : Int) : R init (l.foldl f init) ∧ ∀ x ∈ l, R x (l.foldl f init) := by
  induction l generalizing init with
  | nil => exact ⟨hrefl init, fun x hx => absurd hx List.not_mem_nil⟩
  | cons y rest ih =>
      rcases ih (f init y) with ⟨hinit, hrest⟩
      refine ⟨htrans _ _ _ (hf init y).1 hinit, fun x hx => ?_⟩
      rcases List.mem_cons.1 hx with hxy | hx
      · rw [hxy]
        exact htrans _ _ _ (hf init y).2 hinit
      · exact hrest x hx

theorem foldl_keeps (P : Int → Prop) (hf : ∀ x y, P x → P y → P (f x y)) (l : List Int)
    (init : Int) (hinit : P init) (h : ∀ x ∈ l, P x) : P (l.foldl f init) := by
  induction l generalizing init with
  | nil => exact hinit
  | cons y rest ih =>
      exact ih (f init y) (hf init y hinit (h y List.mem_cons_self))
        fun x hx => h x (List.mem_cons_of_mem y hx)

-- The fold of a choice is what was chosen, or what it began with.
theorem foldl_mem (hf : ∀ x y, f x y = x ∨ f x y = y) (l : List Int) (init : Int) :
    l.foldl f init ∈ init :: l := by
  refine foldl_keeps f (· ∈ init :: l) (fun x y hx hy => ?_) l init List.mem_cons_self
    fun x hx => List.mem_cons_of_mem init hx
  rcases hf x y with heq | heq
  · rw [heq]
    exact hx
  · rw [heq]
    exact hy

end Extremes

/-- No span is more than once round the circle. -/
theorem span_le (numbers : List SeqNum) : span numbers ≤ 65536 := by
  cases numbers with
  | nil => exact Nat.zero_le _
  | cons anchor rest =>
      have hmax := foldl_keeps max (· < 32768) (by omega) (rest.map anchor.distance) 0 (by decide)
        fun x hx => by
          rcases List.mem_map.1 hx with ⟨s, _, rfl⟩
          exact anchor.distance_lt s
      have hmin := foldl_keeps min (-32768 ≤ ·) (by omega) (rest.map anchor.distance) 0 (by decide)
        fun x hx => by
          rcases List.mem_map.1 hx with ⟨s, _, rfl⟩
          exact anchor.le_distance s
      simp only [span]
      omega

/-- Two numbers are less than the span apart, as seen from the first one. -/
theorem sub_lt_span (anchor : SeqNum) (rest : List SeqNum) (s t : SeqNum)
    (hs : s ∈ anchor :: rest) (ht : t ∈ anchor :: rest) :
    anchor.distance t - anchor.distance s < span (anchor :: rest) := by
  have hmax := foldl_choice max (· ≤ ·) (by omega) (by omega) (by omega)
    (rest.map anchor.distance) 0
  have hmin := foldl_choice min (· ≥ ·) (by omega) (by omega) (by omega)
    (rest.map anchor.distance) 0
  have hbound (u : SeqNum) (hu : u ∈ anchor :: rest) :
      (rest.map anchor.distance).foldl min 0 ≤ anchor.distance u
        ∧ anchor.distance u ≤ (rest.map anchor.distance).foldl max 0 := by
    rcases List.mem_cons.1 hu with hu | hu
    · rw [hu, SeqNum.distance_self]
      exact ⟨hmin.1, hmax.1⟩
    · exact ⟨hmin.2 _ (List.mem_map_of_mem hu), hmax.2 _ (List.mem_map_of_mem hu)⟩
  have hsb := hbound s hs
  have htb := hbound t ht
  simp only [span]
  omega

/-- The span is what lies between two of the numbers. -/
theorem exists_span_eq (anchor : SeqNum) (rest : List SeqNum) :
    ∃ s ∈ anchor :: rest, ∃ t ∈ anchor :: rest,
      (span (anchor :: rest) : Int) = anchor.distance t - anchor.distance s + 1 := by
  have hoffsets : 0 :: rest.map anchor.distance = (anchor :: rest).map anchor.distance := by
    rw [List.map_cons, SeqNum.distance_self]
  have hmin := foldl_mem min (by omega) (rest.map anchor.distance) 0
  have hmax := foldl_mem max (by omega) (rest.map anchor.distance) 0
  rw [hoffsets] at hmin hmax
  rcases List.mem_map.1 hmin with ⟨s, hs, hlow⟩
  rcases List.mem_map.1 hmax with ⟨t, ht, hhigh⟩
  have hle := foldl_choice min (· ≥ ·) (by omega) (by omega) (by omega)
    (rest.map anchor.distance) 0
  have hge := foldl_choice max (· ≤ ·) (by omega) (by omega) (by omega)
    (rest.map anchor.distance) 0
  refine ⟨s, hs, t, ht, ?_⟩
  rw [hlow, hhigh]
  simp only [span]
  omega

end Feedback

end VideoTransport

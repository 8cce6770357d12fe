import VideoTransport.Feedback.Report

/-!
# Updates of the History

What feedback changes in the history of sent packets.

A report about a number reaches one record at most: the one that is found under
that number. It changes neither the number nor the place of a record, so what
is found under a number stays the same whatever has been reported. Each record
can therefore be looked at alone: after any number of reports it is what the
reports about its own number make of it, in their order, and a record that is
not found under its number is left as it is.

The rest of a history, down to the records that were dropped but are still in
memory, is not touched. So two histories that came from one by reports are equal
if their records are.

## Main definitions

* `SentPacket.applyAll`: A record after some reports about it.
* `SendHistory.SameFrame`: Two histories differ at most in what is known of packets.

## Theorems

* `SentPacket.apply_apply_of_not_isReceived`: A report of a loss is forgotten at the next one.
* `SentPacket.apply_apply_self`: A report says no more when it is repeated.
* `SendHistory.getElem?_applyAll`: The packet at each place after some reports.
* `SendHistory.get?_applyAll`: What is found under a number after some reports.
* `SendHistory.applyAll_congr`: Histories are equal if each packet that is found is.
-/

namespace VideoTransport

namespace SlidingBuffer

variable {α : Type}

-- A buffer is known by its items and by those that were dropped.
theorem eq_of_toList (b c : SlidingBuffer α) (hdropped : b.dropped = c.dropped)
    (hfront : b.items.toList.take b.dropped = c.items.toList.take c.dropped)
    (hlist : b.toList = c.toList) : b = c := by
  have hitems : b.items = c.items := by
    rw [← Array.toList_inj, ← List.take_append_drop b.dropped b.items.toList, hfront,
      show b.items.toList.drop b.dropped = c.items.toList.drop c.dropped from hlist,
      List.take_append_drop]
  cases b
  cases c
  simp only at hitems hdropped
  subst hitems hdropped
  rfl

-- What has been dropped is not changed.
theorem take_items_modify (b : SlidingBuffer α) (i : Nat) (f : α → α) :
    (b.modify i f).items.toList.take b.dropped = b.items.toList.take b.dropped := by
  apply List.ext_getElem?
  intro j
  simp only [modify, Array.toList_modify, List.getElem?_take]
  by_cases hj : j < b.dropped
  · rw [if_pos hj, if_pos hj, List.getElem?_modify_ne _ _ (by omega)]
  · rw [if_neg hj, if_neg hj]

end SlidingBuffer

namespace Feedback

namespace SentPacket

/-- A record after some reports about it, in their order. -/
def applyAll (rs : List Reception) (p : SentPacket) : SentPacket :=
  rs.foldl (fun p r => p.apply r.status r.arrival) p

theorem seq_apply (status : Status) (arrival : Option Duration) (p : SentPacket) :
    (p.apply status arrival).seq = p.seq := by
  rw [apply]
  split
  · rfl
  · split
    · rfl
    · rfl

theorem applyAll_append (rs ss : List Reception) (p : SentPacket) :
    p.applyAll (rs ++ ss) = (p.applyAll rs).applyAll ss :=
  List.foldl_append

theorem apply_of_isReceived (p : SentPacket) (status : Status) (arrival : Option Duration)
    (h : status.isReceived = true) :
    p.apply status arrival = { p with arrival := arrival.or p.arrival, lost := false } := by
  rw [apply, if_pos h]

theorem apply_of_not_isReceived (p : SentPacket) (status : Status) (arrival : Option Duration)
    (h : ¬ status.isReceived = true) :
    p.apply status arrival = if p.arrival = none then { p with lost := true } else p := by
  rw [apply, if_neg h]
  cases p.arrival with
  | none => rfl
  | some time => rfl

-- A report that a packet has not arrived is forgotten at the next report.
theorem apply_apply_of_not_isReceived (p : SentPacket) (missed status : Status)
    (before arrival : Option Duration) (h : ¬ missed.isReceived = true) :
    (p.apply missed before).apply status arrival = p.apply status arrival := by
  rw [p.apply_of_not_isReceived missed before h]
  by_cases hp : p.arrival = none
  · rw [if_pos hp]
    by_cases hstatus : status.isReceived = true
    · rw [apply_of_isReceived _ _ _ hstatus, apply_of_isReceived _ _ _ hstatus]
    · rw [apply_of_not_isReceived _ _ _ hstatus, apply_of_not_isReceived _ _ _ hstatus,
        if_pos hp, if_pos hp]
  · rw [if_neg hp]

-- A report says no more when it is repeated.
theorem apply_apply_self (p : SentPacket) (status : Status) (arrival : Option Duration) :
    (p.apply status arrival).apply status arrival = p.apply status arrival := by
  by_cases hstatus : status.isReceived = true
  · rw [apply_of_isReceived _ _ _ hstatus, apply_of_isReceived _ _ _ hstatus]
    cases arrival with
    | none => rfl
    | some time => rfl
  · exact p.apply_apply_of_not_isReceived status status arrival arrival hstatus

end SentPacket

namespace SendHistory

/-- Two histories differ at most in what is known of the packets that are kept. -/
structure SameFrame (h g : SendHistory) : Prop where
  capacity : g.capacity = h.capacity
  nextSeq : g.nextSeq = h.nextSeq
  dropped : g.packets.dropped = h.packets.dropped
  front : g.packets.items.toList.take g.packets.dropped
    = h.packets.items.toList.take h.packets.dropped

theorem SameFrame.trans {f g h : SendHistory} (hfg : SameFrame f g) (hgh : SameFrame g h) :
    SameFrame f h where
  capacity := hgh.capacity.trans hfg.capacity
  nextSeq := hgh.nextSeq.trans hfg.nextSeq
  dropped := hgh.dropped.trans hfg.dropped
  front := hgh.front.trans hfg.front

/-- Histories of one frame are equal if they know the same of each packet. -/
theorem eq_of_sameFrame (h g k : SendHistory) (hg : SameFrame h g) (hk : SameFrame h k)
    (hlist : g.toList = k.toList) : g = k := by
  have hpackets := SlidingBuffer.eq_of_toList g.packets k.packets
    (hg.dropped.trans hk.dropped.symm) (hg.front.trans hk.front.symm) hlist
  have hcapacity := hg.capacity.trans hk.capacity.symm
  have hnextSeq := hg.nextSeq.trans hk.nextSeq.symm
  cases g
  cases k
  simp only at hpackets hcapacity hnextSeq
  rw [hpackets, hcapacity, hnextSeq]

-- The place of a number depends on nothing but the numbers of the packets.
theorem indexOf?_eq (h : SendHistory) (q : SeqNum) :
    h.indexOf? q = (h.toList.map (·.seq)).head?.bind fun first =>
      if (h.toList.map (·.seq))[first.stepsTo q]? = some q then some (first.stepsTo q)
      else none := by
  rw [indexOf?, SlidingBuffer.get?_eq, ← List.head?_eq_getElem?, List.head?_map]
  cases hfirst : h.packets.toList.head? with
  | none => simp only [toList, hfirst, Option.map_none, Option.bind_none]
  | some first =>
      simp only [toList, hfirst, Option.map_some, Option.bind_some, SlidingBuffer.get?_eq,
        List.getElem?_map]
      cases h.packets.toList[first.seq.stepsTo q]? with
      | none => simp only [Option.map_none, reduceCtorEq, if_false]
      | some p => simp only [Option.map_some, Option.some.injEq]

theorem indexOf?_congr (h g : SendHistory)
    (hseqs : g.toList.map (·.seq) = h.toList.map (·.seq)) (q : SeqNum) :
    g.indexOf? q = h.indexOf? q := by
  rw [indexOf?_eq, indexOf?_eq, hseqs]

-- At the place of a number is the packet that has it.
theorem exists_of_indexOf? (h : SendHistory) (q : SeqNum) (i : Nat) (hi : h.indexOf? q = some i) :
    ∃ p, h.toList[i]? = some p ∧ p.seq = q := by
  rw [indexOf?_eq] at hi
  rcases Option.bind_eq_some_iff.1 hi with ⟨first, _, hi⟩
  split at hi
  · rename_i hfound
    cases hi
    rw [List.getElem?_map] at hfound
    exact Option.map_eq_some_iff.1 hfound
  · cases hi

-- What a change of the packet of a number does to the packet at each place.
theorem getElem?_modify (h : SendHistory) (q : SeqNum) (f : SentPacket → SentPacket) (i : Nat) :
    (h.modify q f).toList[i]?
      = h.toList[i]?.map fun p => if h.indexOf? q = some i then f p else p := by
  rw [modify]
  cases hq : h.indexOf? q with
  | none => simp only [reduceCtorEq, if_false, Option.map_id']
  | some j =>
      simp only [toList, SlidingBuffer.toList_modify, Option.some.injEq]
      by_cases hij : j = i
      · rw [hij, List.getElem?_modify_eq]
        simp only [if_true]
        rfl
      · rw [List.getElem?_modify_ne _ _ hij]
        simp only [if_neg hij, Option.map_id']

theorem getElem?_apply (h : SendHistory) (q : SeqNum) (status : Status) (arrival : Option Duration)
    (i : Nat) :
    (h.apply q status arrival).toList[i]?
      = h.toList[i]?.map fun p => if h.indexOf? q = some i then p.apply status arrival else p :=
  h.getElem?_modify q (SentPacket.apply status arrival) i

theorem sameFrame_modify (h : SendHistory) (q : SeqNum) (f : SentPacket → SentPacket) :
    SameFrame h (h.modify q f) := by
  rw [modify]
  cases h.indexOf? q with
  | none => exact ⟨rfl, rfl, rfl, rfl⟩
  | some i => exact ⟨rfl, rfl, rfl, h.packets.take_items_modify i f⟩

theorem sameFrame_apply (h : SendHistory) (q : SeqNum) (status : Status)
    (arrival : Option Duration) : SameFrame h (h.apply q status arrival) :=
  h.sameFrame_modify q (SentPacket.apply status arrival)

-- What a change leaves alone in a packet, it leaves alone in all that are kept.
theorem map_modify {β : Type} (g : SentPacket → β) (h : SendHistory) (q : SeqNum)
    (f : SentPacket → SentPacket) (hf : ∀ p, g (f p) = g p) :
    (h.modify q f).toList.map g = h.toList.map g := by
  apply List.ext_getElem?
  intro i
  rw [List.getElem?_map, List.getElem?_map, getElem?_modify, Option.map_map]
  congr 1
  funext p
  simp only [Function.comp_apply]
  split
  · exact hf p
  · rfl

theorem seqs_apply (h : SendHistory) (q : SeqNum) (status : Status) (arrival : Option Duration) :
    (h.apply q status arrival).toList.map (·.seq) = h.toList.map (·.seq) :=
  map_modify (·.seq) h q _ (SentPacket.seq_apply status arrival)

theorem sameFrame_applyAll (h : SendHistory) (rs : List Reception) :
    SameFrame h (h.applyAll rs) := by
  induction rs generalizing h with
  | nil => exact ⟨rfl, rfl, rfl, rfl⟩
  | cons r rest ih => exact (h.sameFrame_apply r.seq r.status r.arrival).trans (ih _)

-- What no report changes in a packet, a list of them does not change in any.
theorem map_applyAll {β : Type} (g : SentPacket → β)
    (hg : ∀ status arrival p, g (SentPacket.apply status arrival p) = g p) (h : SendHistory)
    (rs : List Reception) : (h.applyAll rs).toList.map g = h.toList.map g := by
  induction rs generalizing h with
  | nil => rfl
  | cons r rest ih =>
      exact (ih _).trans (map_modify g h r.seq _ (hg r.status r.arrival))

theorem seqs_applyAll (h : SendHistory) (rs : List Reception) :
    (h.applyAll rs).toList.map (·.seq) = h.toList.map (·.seq) :=
  map_applyAll (·.seq) SentPacket.seq_apply h rs

/-- After some reports, the packet at each place is what the reports about its
    number make of it, if it is found under this number. -/
theorem getElem?_applyAll (h : SendHistory) (rs : List Reception) (i : Nat) :
    (h.applyAll rs).toList[i]? = h.toList[i]?.map fun p =>
      if h.indexOf? p.seq = some i then p.applyAll (rs.filter (·.seq = p.seq)) else p := by
  induction rs generalizing h with
  | nil =>
      have hsame (p : SentPacket) :
          (if h.indexOf? p.seq = some i then p.applyAll [] else p) = p := ite_self p
      simp only [List.filter_nil, hsame, Option.map_id']
      rfl
  | cons r rest ih =>
      have hstep := h.getElem?_apply r.seq r.status r.arrival i
      have hindex := h.indexOf?_congr _ (h.seqs_apply r.seq r.status r.arrival)
      refine (ih _).trans ?_
      rw [hstep, Option.map_map]
      apply Option.map_congr
      intro p hp
      -- At this place a report changes something only if it is about the number
      -- of the packet there.
      have hseq : (if h.indexOf? r.seq = some i then p.apply r.status r.arrival else p).seq
          = p.seq := by
        split
        · exact p.seq_apply r.status r.arrival
        · rfl
      simp only [Function.comp_apply, hseq, hindex]
      by_cases hr : r.seq = p.seq
      · rw [hr, List.filter_cons_of_pos (by simpa using hr)]
        split
        · rfl
        · rfl
      · have hother : ¬ h.indexOf? r.seq = some i := by
          intro hi
          rcases h.exists_of_indexOf? r.seq i hi with ⟨p', hp', hseq'⟩
          rw [hp] at hp'
          cases hp'
          exact hr hseq'.symm
        rw [if_neg hother, List.filter_cons_of_neg (by simpa using hr)]

/-- What is found under a number after some reports is what those about the
    number make of what was found before. -/
theorem get?_applyAll (h : SendHistory) (rs : List Reception) (q : SeqNum) :
    (h.applyAll rs).get? q
      = (h.get? q).map (SentPacket.applyAll (rs.filter (·.seq = q))) := by
  rw [get?, get?, h.indexOf?_congr _ (h.seqs_applyAll rs)]
  cases hq : h.indexOf? q with
  | none => rfl
  | some i =>
      rcases h.exists_of_indexOf? q i hq with ⟨p, hp, hseq⟩
      have hafter := h.getElem?_applyAll rs i
      rw [hp, Option.map_some, hseq, if_pos hq] at hafter
      simp only [Option.bind_some, SlidingBuffer.get?_eq]
      rw [toList] at hp hafter
      rw [hp, hafter, Option.map_some]

/-- Two lists of reports do the same to a history if they do the same to each
    packet that is found in it. -/
theorem applyAll_congr (h : SendHistory) (rs ss : List Reception)
    (hsame : ∀ q p, h.get? q = some p →
      p.applyAll (rs.filter (·.seq = q)) = p.applyAll (ss.filter (·.seq = q))) :
    h.applyAll rs = h.applyAll ss := by
  apply h.eq_of_sameFrame _ _ (h.sameFrame_applyAll rs) (h.sameFrame_applyAll ss)
  apply List.ext_getElem?
  intro i
  rw [getElem?_applyAll, getElem?_applyAll]
  apply Option.map_congr
  intro p hp
  by_cases hi : h.indexOf? p.seq = some i
  · have hfound : h.get? p.seq = some p := by
      rw [get?, hi, Option.bind_some, SlidingBuffer.get?_eq]
      exact hp
    rw [if_pos hi, if_pos hi, hsame p.seq p hfound]
  · rw [if_neg hi, if_neg hi]

end SendHistory

end Feedback

end VideoTransport

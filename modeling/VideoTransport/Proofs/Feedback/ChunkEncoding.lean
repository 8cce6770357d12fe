import VideoTransport.Proofs.Feedback.ChunkCodec

/-!
# Encoding Statuses

What the chunks that a list of statuses is encoded in say, and how many of them
there are.

The builder mixes vectors and runs, and runs go in front of the open vector. So
the order of the statuses is only kept because runs are added while no vector is
open, and that is why a stretch first fills the open vector up. `Holds` is the
state of a builder between two stretches: its chunks and then its open vector
hold exactly what it has been told.

`Tells` is the part of it that says nothing about the number of chunks. It is also
kept by short runs, and by closing a vector early: what is left over then counts
as told.

The bound on the number of chunks is part of the invariant. Every chunk but the
last one of a run describes a full vector or more, and a run is only used for
more than a vector, so on the whole the chunks never describe less than as many
full vectors.

## Main definitions

* `ChunkBuilder.Tells`: What a builder has been told, and nothing else, is in it.
* `ChunkBuilder.unused`: The symbols that closing the open vector leaves over.
* `ChunkBuilder.Holds`: So it is, and no more chunks than vectors would be are used for it.
* `Chunk.symbolSize`: The size of symbols that some statuses are encoded with.

## Theorems

* `ChunkBuilder.tells_add`, `ChunkBuilder.tells_close`: A status joins the open vector, and
  closing it leaves symbols over.
* `ChunkBuilder.holds_add`, `ChunkBuilder.holds_addAll`: Statuses join the open vector.
* `ChunkBuilder.length_pending_addAll`: How much of the open vector is filled.
* `ChunkBuilder.holds_addStretch`: A stretch joins what has been told.
* `ChunkBuilder.flatMap_statuses_finish_eq`: The chunks say what a builder has been told.
* `Chunk.covers_encode`: Encoding covers the statuses, and needs each of its chunks.
* `Chunk.flatMap_statuses_encode`: The chunks begin with the statuses.
* `Chunk.length_encode_mul`: Encoding takes no more chunks than vectors alone.
-/

namespace VideoTransport

namespace Feedback

namespace ChunkBuilder

/-- The chunks of a builder and then its open vector hold exactly the statuses
    that it has been told. -/
structure Tells (b : ChunkBuilder) (told : List Status) : Prop where
  told_eq : b.chunks.toList.flatMap Chunk.statuses ++ b.pending = told
  pending_lt : b.pending.length < b.slots
  pending_fits : ∀ s ∈ b.pending, b.size.fits s = true

/-- The symbols that closing the open vector leaves over. -/
def unused (b : ChunkBuilder) : List Status :=
  if b.isEmpty then [] else List.replicate b.freeSlots .notReceived

/-- The chunks of a builder and then its open vector hold exactly the statuses
    that it has been told. The chunks describe as many full vectors or more. -/
structure Holds (b : ChunkBuilder) (told : List Status) : Prop where
  told_eq : b.chunks.toList.flatMap Chunk.statuses ++ b.pending = told
  pending_lt : b.pending.length < b.slots
  pending_fits : ∀ s ∈ b.pending, b.size.fits s = true
  fitsWire : ∀ c ∈ b.chunks.toList, c.FitsWire
  capacity_pos : ∀ c ∈ b.chunks.toList, 0 < c.capacity
  length_mul : b.chunks.toList.length * b.slots
    ≤ (b.chunks.toList.flatMap Chunk.statuses).length

theorem Holds.tells {b : ChunkBuilder} {told : List Status} (h : b.Holds told) : b.Tells told :=
  ⟨h.told_eq, h.pending_lt, h.pending_fits⟩

theorem slots_bounds (b : ChunkBuilder) : 7 ≤ b.slots ∧ b.slots ≤ 14 :=
  b.size.perVector_bounds

theorem tells_start (size : SymbolSize) : (start size).Tells [] where
  told_eq := rfl
  pending_lt := Nat.lt_of_lt_of_le (Nat.zero_lt_succ 6) size.perVector_bounds.1
  pending_fits := by simp [start]

theorem holds_start (size : SymbolSize) : (start size).Holds [] where
  told_eq := (tells_start size).told_eq
  pending_lt := (tells_start size).pending_lt
  pending_fits := (tells_start size).pending_fits
  fitsWire := by simp [start]
  capacity_pos := by simp [start]
  length_mul := by simp [start]

-- A status joins the open vector, and closes it if it was the last one that had
-- room.
theorem add_eq (b : ChunkBuilder) (s : Status) :
    b.add s = if b.pending.length + 1 < b.slots then { b with pending := b.pending ++ [s] }
      else { b with pending := [],
                    chunks := b.chunks.push (.pack b.size (b.pending ++ [s])) } := by
  have hfree : ({ b with pending := b.pending ++ [s] } : ChunkBuilder).freeSlots
      = b.slots - (b.pending.length + 1) := by
    simp only [freeSlots, slots, List.length_append, List.length_singleton]
  simp only [add]
  rw [hfree]
  by_cases h : b.pending.length + 1 < b.slots
  · rw [if_neg (by omega), if_pos h]
  · rw [if_pos (by omega), if_neg h]
    simp [close, isEmpty]

@[simp] theorem size_add (b : ChunkBuilder) (s : Status) : (b.add s).size = b.size := by
  rw [add_eq]
  split <;> rfl

@[simp] theorem slots_add (b : ChunkBuilder) (s : Status) : (b.add s).slots = b.slots := by
  rw [slots, size_add, slots]

/-- A status joins what a builder has been told, whether or not it closes the
    open vector. -/
theorem tells_add (b : ChunkBuilder) (told : List Status) (s : Status) (h : b.Tells told)
    (hs : b.size.fits s = true) : (b.add s).Tells (told ++ [s]) := by
  have hfits : ∀ t ∈ b.pending ++ [s], b.size.fits t = true := by
    intro t ht
    rcases List.mem_append.1 ht with ht | ht
    · exact h.pending_fits t ht
    · rw [List.mem_singleton.1 ht]
      exact hs
  rw [add_eq]
  by_cases hroom : b.pending.length + 1 < b.slots
  · rw [if_pos hroom]
    refine ⟨?_, ?_, hfits⟩
    · rw [← List.append_assoc, h.told_eq]
    · rw [List.length_append, List.length_singleton]
      exact hroom
  · -- The vector is full, so nothing of the new chunk is left unused.
    rw [if_neg hroom]
    have hfull : (b.pending ++ [s]).length = b.size.perVector := by
      have hlt := h.pending_lt
      rw [List.length_append, List.length_singleton]
      rw [slots] at hlt hroom
      omega
    have hstatuses : (Chunk.pack b.size (b.pending ++ [s])).statuses = b.pending ++ [s] := by
      rw [Chunk.statuses_pack _ _ (Nat.le_of_eq hfull) hfits, hfull, Nat.sub_self,
        List.replicate_zero, List.append_nil]
    refine ⟨?_, Nat.lt_of_lt_of_le (Nat.zero_lt_succ 6) b.slots_bounds.1, by simp⟩
    rw [Array.toList_push, List.flatMap_append, List.flatMap_singleton, hstatuses,
      List.append_nil, ← List.append_assoc, h.told_eq]

/-- Closing the open vector also tells the symbols that are left over. -/
theorem tells_close (b : ChunkBuilder) (told : List Status) (h : b.Tells told) :
    b.close.Tells (told ++ b.unused) := by
  by_cases hempty : b.isEmpty = true
  · rw [close, unused, if_pos hempty, if_pos hempty, List.append_nil]
    exact h
  · rw [close, unused, if_neg hempty, if_neg hempty]
    refine ⟨?_, Nat.lt_of_lt_of_le (Nat.zero_lt_succ 6) b.slots_bounds.1, by simp⟩
    rw [Array.toList_push, List.flatMap_append, List.flatMap_singleton,
      Chunk.statuses_pack _ _ (Nat.le_of_lt h.pending_lt) h.pending_fits, List.append_nil,
      ← List.append_assoc, h.told_eq]
    rfl

theorem pending_close (b : ChunkBuilder) : b.close.pending = [] := by
  by_cases hempty : b.isEmpty = true
  · rw [close, if_pos hempty]
    exact List.isEmpty_iff.1 hempty
  · rw [close, if_neg hempty]

theorem holds_add (b : ChunkBuilder) (told : List Status) (s : Status) (h : b.Holds told)
    (hs : b.size.fits s = true) : (b.add s).Holds (told ++ [s]) := by
  have htells := tells_add b told s h.tells hs
  rw [add_eq] at htells ⊢
  by_cases hroom : b.pending.length + 1 < b.slots
  · rw [if_pos hroom] at htells ⊢
    exact ⟨htells.told_eq, htells.pending_lt, htells.pending_fits, h.fitsWire, h.capacity_pos,
      h.length_mul⟩
  · rw [if_neg hroom] at htells ⊢
    have hfull : b.pending.length + 1 = b.slots :=
      Nat.le_antisymm h.pending_lt (Nat.le_of_not_lt hroom)
    refine ⟨htells.told_eq, htells.pending_lt, htells.pending_fits, ?_, ?_, ?_⟩
    · intro c hc
      rw [Array.toList_push, List.mem_append, List.mem_singleton] at hc
      rcases hc with hc | hc
      · exact h.fitsWire c hc
      · rw [hc]
        apply Chunk.fitsWire_pack
        rw [List.length_append, List.length_singleton, hfull, slots]
    · intro c hc
      rw [Array.toList_push, List.mem_append, List.mem_singleton] at hc
      rcases hc with hc | hc
      · exact h.capacity_pos c hc
      · rw [hc, Chunk.capacity_pack]
        exact Nat.lt_of_lt_of_le (Nat.zero_lt_succ 6) b.slots_bounds.1
    · -- What is told without the new chunk is as long as before, and it has a full vector.
      have hmul := h.length_mul
      have hbefore := congrArg List.length h.told_eq
      have htold := congrArg List.length htells.told_eq
      simp only [slots, List.length_append, List.length_nil, List.length_singleton,
        Array.toList_push, Nat.add_mul] at hmul hfull hbefore htold ⊢
      omega

-- After one more status, the open vector is longer by one or empty again.
theorem length_pending_add (b : ChunkBuilder) (s : Status) (h : b.pending.length < b.slots) :
    (b.add s).pending.length = (b.pending.length + 1) % b.slots := by
  rw [add_eq]
  by_cases hroom : b.pending.length + 1 < b.slots
  · rw [if_pos hroom, Nat.mod_eq_of_lt hroom, List.length_append, List.length_singleton]
  · rw [if_neg hroom, show b.pending.length + 1 = b.slots by omega, Nat.mod_self]
    rfl

@[simp] theorem size_addAll (b : ChunkBuilder) (ss : List Status) :
    (b.addAll ss).size = b.size := by
  induction ss generalizing b with
  | nil => rfl
  | cons s rest ih => exact (ih (b.add s)).trans (b.size_add s)

theorem holds_addAll (b : ChunkBuilder) (told ss : List Status) (h : b.Holds told)
    (hss : ∀ s ∈ ss, b.size.fits s = true) : (b.addAll ss).Holds (told ++ ss) := by
  induction ss generalizing b told with
  | nil => simpa [addAll] using h
  | cons s rest ih =>
      have hadd := holds_add b told s h (hss s (List.mem_cons_self ..))
      have hrest := ih (b.add s) (told ++ [s]) hadd fun t ht => by
        rw [size_add]
        exact hss t (List.mem_cons_of_mem _ ht)
      rw [List.append_assoc, List.singleton_append] at hrest
      exact hrest

/-- How much of the open vector is filled after some statuses. -/
theorem length_pending_addAll (b : ChunkBuilder) (ss : List Status)
    (h : b.pending.length < b.slots) :
    (b.addAll ss).pending.length = (b.pending.length + ss.length) % b.slots := by
  induction ss generalizing b with
  | nil => exact (Nat.mod_eq_of_lt h).symm
  | cons s rest ih =>
      have hlen := length_pending_add b s h
      have hpos : 0 < b.slots := by omega
      have hlt : (b.add s).pending.length < (b.add s).slots := by
        rw [hlen, slots_add]
        exact Nat.mod_lt _ hpos
      have hrest := ih (b.add s) hlt
      rw [hlen, slots_add, Nat.mod_add_mod, Nat.add_assoc, Nat.add_comm 1] at hrest
      exact hrest

-- Filling up leaves no vector open, whether one was open before or not.
theorem pending_addAll_free (b : ChunkBuilder) (s : Status) (h : b.pending.length < b.slots) :
    (b.addAll (List.replicate (if b.isEmpty then 0 else b.freeSlots) s)).pending = [] := by
  apply List.eq_nil_of_length_eq_zero
  rw [length_pending_addAll b _ h, List.length_replicate]
  by_cases hempty : b.isEmpty = true
  · rw [if_pos hempty, show b.pending = [] from List.isEmpty_iff.1 hempty]
    exact Nat.zero_mod _
  · rw [if_neg hempty, freeSlots, Nat.add_sub_cancel' (Nat.le_of_lt h)]
    exact Nat.mod_self _

theorem flatMap_statuses_runChunks (s : Status) (n : Nat) :
    (runChunks s n).flatMap Chunk.statuses = List.replicate n s := by
  have hrun (k : Nat) (hk : k ≤ Chunk.maxRun) :
      (Chunk.run s (UInt16.ofNat k)).statuses = List.replicate k s := by
    have hcapacity : (Chunk.run s (UInt16.ofNat k)).capacity = k := by
      simp only [Chunk.maxRun] at hk
      simp only [Chunk.capacity, UInt16.toNat_ofNat']
      omega
    rw [Chunk.statuses, hcapacity]
    apply List.ext_getElem
    · simp
    · intro i hi hi'
      simp [Chunk.nthStatus]
  have hsplit : n = n / Chunk.maxRun * Chunk.maxRun + n % Chunk.maxRun :=
    (Nat.div_add_mod' n Chunk.maxRun).symm
  have hmod : n % Chunk.maxRun < Chunk.maxRun := Nat.mod_lt _ (by decide)
  have hrest : (if n % Chunk.maxRun = 0 then [] else
      [Chunk.run s (UInt16.ofNat (n % Chunk.maxRun))]).flatMap Chunk.statuses
      = List.replicate (n % Chunk.maxRun) s := by
    by_cases h : n % Chunk.maxRun = 0
    · rw [if_pos h, h]
      rfl
    · rw [if_neg h, List.flatMap_singleton, hrun _ (by omega)]
  rw [runChunks, List.flatMap_append, hrest, List.flatMap_replicate, hrun _ (Nat.le_refl _),
    List.flatten_replicate_replicate, List.replicate_append_replicate, ← hsplit]

-- The runs of a stretch have a length that one chunk can hold, and none of them
-- is empty.
theorem mem_runChunks (s : Status) (n : Nat) (c : Chunk) (h : c ∈ runChunks s n) :
    c.FitsWire ∧ 0 < c.capacity := by
  have hmod : n % Chunk.maxRun < Chunk.maxRun := Nat.mod_lt _ (by decide)
  have hrun (k : Nat) (hpos : 0 < k) (hk : k ≤ Chunk.maxRun) :
      (Chunk.run s (UInt16.ofNat k)).FitsWire ∧ 0 < (Chunk.run s (UInt16.ofNat k)).capacity := by
    simp only [Chunk.maxRun] at hk
    simp only [Chunk.FitsWire, Chunk.capacity, Chunk.maxRun, UInt16.toNat_ofNat']
    omega
  rw [runChunks, List.mem_append] at h
  rcases h with h | h
  · rw [List.eq_of_mem_replicate h]
    exact hrun _ (by decide) (Nat.le_refl _)
  · by_cases hzero : n % Chunk.maxRun = 0
    · rw [if_pos hzero] at h
      exact absurd h (List.not_mem_nil)
    · rw [if_neg hzero, List.mem_singleton] at h
      rw [h]
      exact hrun _ (by omega) (by omega)

-- A stretch longer than a vector takes no more runs than it would take vectors.
-- One run that is left over may be short, but then another one in front of it
-- is long.
theorem length_runChunks_mul (s : Status) (n slots : Nat) (hslots : slots ≤ 14)
    (hn : slots < n) : (runChunks s n).length * slots ≤ n := by
  have hlen : (runChunks s n).length
      = n / Chunk.maxRun + if n % Chunk.maxRun = 0 then 0 else 1 := by
    rw [runChunks, List.length_append, List.length_replicate]
    split <;> rfl
  have hle : (runChunks s n).length * slots ≤ (runChunks s n).length * 14 :=
    Nat.mul_le_mul_left _ hslots
  rw [Chunk.maxRun] at hlen
  by_cases hlong : n < 8191
  · have hone : (runChunks s n).length = 1 := by
      rw [hlen]
      split <;> omega
    rw [hone]
    omega
  · split at hlen <;> omega

-- Runs join what a builder has been told if no vector is open.
theorem tells_addRuns (b : ChunkBuilder) (told : List Status) (s : Status) (n : Nat)
    (h : b.Tells told) (hopen : b.pending = []) :
    (b.addRuns s n).Tells (told ++ List.replicate n s) where
  told_eq := by
    have htold := h.told_eq
    rw [hopen, List.append_nil] at htold
    rw [chunks_addRuns, pending_addRuns, hopen, List.flatMap_append, htold,
      flatMap_statuses_runChunks, List.append_nil]
  pending_lt := h.pending_lt
  pending_fits := h.pending_fits

theorem holds_addRuns (b : ChunkBuilder) (told : List Status) (s : Status) (n : Nat)
    (h : b.Holds told) (hopen : b.pending = []) (hn : b.slots < n) :
    (b.addRuns s n).Holds (told ++ List.replicate n s) where
  told_eq := (tells_addRuns b told s n h.tells hopen).told_eq
  pending_lt := h.pending_lt
  pending_fits := h.pending_fits
  fitsWire := by
    intro c hc
    rw [chunks_addRuns, List.mem_append] at hc
    rcases hc with hc | hc
    · exact h.fitsWire c hc
    · exact (mem_runChunks s n c hc).1
  capacity_pos := by
    intro c hc
    rw [chunks_addRuns, List.mem_append] at hc
    rcases hc with hc | hc
    · exact h.capacity_pos c hc
    · exact (mem_runChunks s n c hc).2
  length_mul := by
    have hruns := length_runChunks_mul s n b.slots b.slots_bounds.2 hn
    have hmul := h.length_mul
    rw [chunks_addRuns, List.flatMap_append, flatMap_statuses_runChunks, List.length_append,
      List.length_append, List.length_replicate, Nat.add_mul]
    exact Nat.add_le_add hmul hruns

@[simp] theorem size_addStretch (b : ChunkBuilder) (s : Status) (n : Nat) :
    (b.addStretch s n).size = b.size := by
  simp only [addStretch]
  generalize (if b.isEmpty then 0 else b.freeSlots) = free
  by_cases hlong : free + b.slots < n
  · rw [if_pos hlong]
    exact b.size_addAll _
  · rw [if_neg hlong]
    exact b.size_addAll _

/-- A stretch of equal statuses joins what a builder has been told. -/
theorem holds_addStretch (b : ChunkBuilder) (told : List Status) (s : Status) (n : Nat)
    (h : b.Holds told) (hs : b.size.fits s = true) :
    (b.addStretch s n).Holds (told ++ List.replicate n s) := by
  have hfits (k : Nat) : ∀ t ∈ List.replicate k s, b.size.fits t = true := by
    intro t ht
    rw [List.eq_of_mem_replicate ht]
    exact hs
  simp only [addStretch]
  generalize hfree : (if b.isEmpty then 0 else b.freeSlots) = free
  by_cases hlong : free + b.slots < n
  · rw [if_pos hlong]
    have hfill := holds_addAll b told (List.replicate free s) h (hfits free)
    have hopen := pending_addAll_free b s h.pending_lt
    rw [hfree] at hopen
    have hslots : (b.addAll (List.replicate free s)).slots = b.slots := by
      rw [slots, size_addAll, slots]
    have hruns := holds_addRuns _ _ s (n - free) hfill hopen (by rw [hslots]; omega)
    rw [List.append_assoc, List.replicate_append_replicate, Nat.add_sub_cancel' (by omega)]
      at hruns
    exact hruns
  · rw [if_neg hlong]
    exact holds_addAll b told _ h (hfits n)

-- Stretches join what a builder has been told, one after the other.
theorem holds_foldl_addStretch (stretches : List (Status × Nat)) (b : ChunkBuilder)
    (told : List Status) (h : b.Holds told) (hfits : ∀ r ∈ stretches, b.size.fits r.1 = true) :
    (stretches.foldl (fun b r => b.addStretch r.1 r.2) b).Holds
      (told ++ stretches.flatMap fun r => List.replicate r.2 r.1) := by
  induction stretches generalizing b told with
  | nil => simpa using h
  | cons r rest ih =>
      have hr := holds_addStretch b told r.1 r.2 h (hfits r (List.mem_cons_self ..))
      have hrest := ih (b.addStretch r.1 r.2) _ hr fun t ht => by
        rw [size_addStretch]
        exact hfits t (List.mem_cons_of_mem _ ht)
      rw [List.append_assoc] at hrest
      exact hrest

theorem size_foldl_addStretch (stretches : List (Status × Nat)) (b : ChunkBuilder) :
    (stretches.foldl (fun b r => b.addStretch r.1 r.2) b).size = b.size := by
  induction stretches generalizing b with
  | nil => rfl
  | cons r rest ih => exact (ih (b.addStretch r.1 r.2)).trans (b.size_addStretch r.1 r.2)

-- The chunks of a builder, and one more if a vector is open.
theorem finish_eq (b : ChunkBuilder) :
    b.finish = b.chunks.toList ++ if b.pending = [] then [] else [.pack b.size b.pending] := by
  simp only [finish, close, isEmpty]
  by_cases h : b.pending = []
  · simp [h]
  · simp [h]

/-- The chunks of a builder say what it has been told, and what closing the open
    vector leaves over. -/
theorem flatMap_statuses_finish_eq (b : ChunkBuilder) (told : List Status) (h : b.Tells told) :
    b.finish.flatMap Chunk.statuses = told ++ b.unused := by
  have hclose := (tells_close b told h).told_eq
  rw [pending_close, List.append_nil] at hclose
  exact hclose

-- The chunks of a builder begin with what it has been told. Of the last vector,
-- less than all may be left over.
theorem flatMap_statuses_finish (b : ChunkBuilder) (told : List Status) (h : b.Holds told) :
    ∃ unused < b.slots, b.finish.flatMap Chunk.statuses
      = told ++ List.replicate unused .notReceived := by
  rw [flatMap_statuses_finish_eq b told h.tells, unused]
  by_cases hempty : b.isEmpty = true
  · refine ⟨0, Nat.lt_of_lt_of_le (Nat.zero_lt_succ 6) b.slots_bounds.1, ?_⟩
    rw [if_pos hempty]
    rfl
  · have hlt := h.pending_lt
    have hpos : 0 < b.pending.length :=
      List.length_pos_iff.2 fun hopen => hempty (List.isEmpty_iff.2 hopen)
    refine ⟨b.freeSlots, by rw [freeSlots]; omega, ?_⟩
    rw [if_neg hempty]

theorem covers_finish (b : ChunkBuilder) (told : List Status) (h : b.Holds told) :
    Chunk.Covers b.finish told.length := by
  have hlast : Chunk.Covers (if b.pending = [] then [] else [.pack b.size b.pending])
      b.pending.length := by
    by_cases hopen : b.pending = []
    · rw [if_pos hopen, hopen]
      rfl
    · have hlt := h.pending_lt
      rw [if_neg hopen]
      refine ⟨List.length_pos_iff.2 hopen, ?_⟩
      rw [Chunk.capacity_pack, Chunk.Covers]
      rw [slots] at hlt
      omega
  rw [finish_eq, ← h.told_eq, List.length_append]
  exact Chunk.covers_append _ _ _ h.capacity_pos hlast

-- A chunk of a builder is one of those so far, or the open vector.
theorem mem_finish (b : ChunkBuilder) (c : Chunk) (h : c ∈ b.finish) :
    c ∈ b.chunks.toList ∨ c = .pack b.size b.pending := by
  rw [finish_eq, List.mem_append] at h
  rcases h with h | h
  · exact Or.inl h
  · by_cases hopen : b.pending = []
    · rw [if_pos hopen] at h
      exact absurd h List.not_mem_nil
    · rw [if_neg hopen, List.mem_singleton] at h
      exact Or.inr h

theorem fitsWire_finish (b : ChunkBuilder) (told : List Status) (h : b.Holds told) :
    ∀ c ∈ b.finish, c.FitsWire := by
  intro c hc
  rcases b.mem_finish c hc with hc | hc
  · exact h.fitsWire c hc
  · rw [hc]
    exact Chunk.fitsWire_pack _ _ (Nat.le_of_lt h.pending_lt)

theorem capacity_pos_finish (b : ChunkBuilder) (told : List Status) (h : b.Holds told) :
    ∀ c ∈ b.finish, 0 < c.capacity := by
  intro c hc
  rcases b.mem_finish c hc with hc | hc
  · exact h.capacity_pos c hc
  · rw [hc, Chunk.capacity_pack]
    exact Nat.lt_of_lt_of_le (Nat.zero_lt_succ 6) b.slots_bounds.1

-- There are no more chunks than full vectors would be, and one for the rest.
theorem length_finish_mul (b : ChunkBuilder) (told : List Status) (h : b.Holds told) :
    b.finish.length * b.slots < told.length + b.slots := by
  have hmul := h.length_mul
  have hslots := b.slots_bounds
  rw [finish_eq, ← h.told_eq, List.length_append, List.length_append, Nat.add_mul]
  by_cases hopen : b.pending = []
  · rw [if_pos hopen, hopen]
    simp only [List.length_nil]
    omega
  · have hpos : 0 < b.pending.length := List.length_pos_iff.2 hopen
    rw [if_neg hopen, List.length_singleton]
    omega

end ChunkBuilder

namespace Chunk

/-- The size of the symbols that some statuses are encoded with. -/
def symbolSize (size : SymbolSize) (statuses : List Status) : SymbolSize :=
  if statuses.all size.fits then size else .twoBits

-- Whatever size was asked for, all statuses fit the one that is used.
theorem fits_symbolSize (size : SymbolSize) (ss : List Status) :
    ∀ s ∈ ss, (symbolSize size ss).fits s = true := by
  intro s hs
  rw [symbolSize]
  by_cases h : ss.all size.fits = true
  · rw [if_pos h]
    exact List.all_eq_true.1 h s hs
  · rw [if_neg h]
    exact SymbolSize.fits_twoBits s

-- Encoding is what a builder gives that has been told the statuses.
theorem encode_eq_finish (size : SymbolSize) (ss : List Status) :
    ∃ b : ChunkBuilder, b.slots = (symbolSize size ss).perVector ∧ b.Holds ss
      ∧ encode size ss = b.finish := by
  refine ⟨(runs ss).foldl (fun b r => b.addStretch r.1 r.2)
    (ChunkBuilder.start (symbolSize size ss)), ?_, ?_, rfl⟩
  · rw [ChunkBuilder.slots, ChunkBuilder.size_foldl_addStretch, ChunkBuilder.start]
  · have hstart := ChunkBuilder.holds_start (symbolSize size ss)
    have hruns := ChunkBuilder.holds_foldl_addStretch (runs ss) _ [] hstart fun r hr =>
      fits_symbolSize size ss r.1 (mem_of_mem_runs ss r hr)
    rw [flatMap_runs, List.nil_append] at hruns
    exact hruns

/-- The chunks begin with the statuses they were made from. -/
theorem flatMap_statuses_encode (size : SymbolSize) (ss : List Status) :
    ∃ unused < (symbolSize size ss).perVector, (encode size ss).flatMap statuses
      = ss ++ List.replicate unused .notReceived := by
  rcases encode_eq_finish size ss with ⟨b, hslots, hb, hencode⟩
  rw [hencode, ← hslots]
  exact b.flatMap_statuses_finish ss hb

-- The first statuses of the chunks are those they were made from.
theorem take_flatMap_encode (size : SymbolSize) (ss : List Status) :
    ((encode size ss).flatMap statuses).take ss.length = ss := by
  rcases flatMap_statuses_encode size ss with ⟨unused, _, h⟩
  rw [h, List.take_left]

/-- Encoding covers the statuses, and needs each of its chunks. -/
theorem covers_encode (size : SymbolSize) (ss : List Status) :
    Covers (encode size ss) ss.length := by
  rcases encode_eq_finish size ss with ⟨b, _, hb, hencode⟩
  rw [hencode]
  exact b.covers_finish ss hb

theorem fitsWire_encode (size : SymbolSize) (ss : List Status) :
    ∀ c ∈ encode size ss, c.FitsWire := by
  rcases encode_eq_finish size ss with ⟨b, _, hb, hencode⟩
  rw [hencode]
  exact b.fitsWire_finish ss hb

-- No chunk is there for nothing.
theorem capacity_pos_encode (size : SymbolSize) (ss : List Status) :
    ∀ c ∈ encode size ss, 0 < c.capacity := by
  rcases encode_eq_finish size ss with ⟨b, _, hb, hencode⟩
  rw [hencode]
  exact b.capacity_pos_finish ss hb

/-- Encoding takes no more chunks than vectors alone would. -/
theorem length_encode_mul (size : SymbolSize) (ss : List Status) :
    (encode size ss).length * (symbolSize size ss).perVector
      < ss.length + (symbolSize size ss).perVector := by
  rcases encode_eq_finish size ss with ⟨b, hslots, hb, hencode⟩
  rw [hencode, ← hslots]
  exact b.length_finish_mul ss hb

end Chunk

end Feedback

end VideoTransport

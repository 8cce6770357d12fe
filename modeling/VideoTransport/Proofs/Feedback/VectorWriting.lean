import VideoTransport.Feedback.VectorWriter
import VideoTransport.Proofs.Feedback.ChunkEncoding

/-!
# Writing Vectors Bit by Bit

A writer that keeps the open vector as a word does what a builder does that keeps it as a
list of statuses.

`ofBuilder` is the writer that a builder stands for: its word is the chunk that the open
vector would be closed to, with its bytes swapped. Every call takes the one to the other,
so whatever is known of the chunks of a builder holds of those of a writer.

A status is put into the word without taking anything out of it. That is right because
the bits it goes to are free. Which bits are free is the room of the writer: it lies below
the two bits of kind, there is nothing in it yet, the next symbol goes into it, and what
that symbol takes is no longer in it afterwards. There are seven places in a word for
symbols of two bits and fourteen for those of one bit, so how places are found in the
swapped word is looked at place by place.

Encoding is such calls as well: `encodeCalls` are those it makes, and a run among them never
comes while a vector is open.

## Main definitions

* `VectorWriter.Call`, `VectorWriter.step`, `VectorWriter.run`: What is asked of a writer.
* `VectorWriter.Allows`: Statuses fit the symbols, and runs come while no vector is open.
* `VectorWriter.told`: What some calls tell.
* `VectorWriter.room`: The bits that are free.
* `VectorWriter.Intact`: No symbol is put where anything else is.
* `VectorWriter.ofBuilder`: The writer that a builder stands for.
* `VectorWriter.encodeCalls`: The calls that encode some stretches of statuses.

## Theorems

* `VectorWriter.add_ofBuilder`, `VectorWriter.close_ofBuilder`: A call on a writer is the same
  call on the builder.
* `VectorWriter.run_ofBuilder`: So are all calls together.
* `VectorWriter.intact_ofBuilder`: A writer that a builder stands for is intact.
* `VectorWriter.finish_ofBuilder`: Both give the same chunks.
* `VectorWriter.intact_and_statuses_finish`: Writers stay intact and say what they are told.
* `VectorWriter.encode_eq_finish_run`: Encoding is calls that are allowed.
-/

namespace VideoTransport

namespace Feedback

namespace VectorWriter

/-- What can be asked of a writer. -/
inductive Call where
  | write (s : Status)
  | run (s : Status) (n : Nat)
  | flush

/-- The writer after a call. -/
def step (w : VectorWriter) : Call → VectorWriter
  | .write s => w.add s
  | .run s n => w.addRuns s n
  | .flush => w.close

/-- The writer after some calls. -/
def run (w : VectorWriter) (calls : List Call) : VectorWriter :=
  calls.foldl step w

/-- The symbols that closing the open vector leaves over. -/
def unused (w : VectorWriter) : List Status :=
  if w.isEmpty then [] else List.replicate w.freeSlots .notReceived

/-- What a call tells. -/
def tells (w : VectorWriter) : Call → List Status
  | .write s => [s]
  | .run s n => List.replicate n s
  | .flush => w.unused

/-- What some calls tell, one after the other. -/
def told (w : VectorWriter) : List Call → List Status
  | [] => []
  | c :: rest => w.tells c ++ (w.step c).told rest

/-- A status has to fit the symbols, and runs come while no vector is open. -/
def Permits (w : VectorWriter) : Call → Prop
  | .write s => w.size.fits s = true
  | .run _ _ => w.isEmpty = true
  | .flush => True

/-- Each call is permitted when it comes. -/
def Allows (w : VectorWriter) : List Call → Prop
  | [] => True
  | c :: rest => w.Permits c ∧ (w.step c).Allows rest

end VectorWriter

/-- The builder after a call. -/
def ChunkBuilder.step (b : ChunkBuilder) : VectorWriter.Call → ChunkBuilder
  | .write s => b.add s
  | .run s n => b.addRuns s n
  | .flush => b.close

theorem ChunkBuilder.size_foldl_step (calls : List VectorWriter.Call) (b : ChunkBuilder) :
    (calls.foldl ChunkBuilder.step b).size = b.size := by
  have hstep (b : ChunkBuilder) (c : VectorWriter.Call) : (b.step c).size = b.size := by
    cases c with
    | write s => exact b.size_add s
    | run s n => rfl
    | flush =>
        rw [step, close]
        split
        · rfl
        · rfl
  induction calls generalizing b with
  | nil => rfl
  | cons c rest ih => exact (ih (b.step c)).trans (hstep b c)

namespace VectorWriter

instance (w : VectorWriter) : DecidablePred w.Permits
  | .write s => inferInstanceAs (Decidable (w.size.fits s = true))
  | .run _ _ => inferInstanceAs (Decidable (w.isEmpty = true))
  | .flush => inferInstanceAs (Decidable True)

/-- Whether calls are allowed is found out call by call. -/
def decideAllows : (w : VectorWriter) → (calls : List Call) → Decidable (w.Allows calls)
  | _, [] => inferInstanceAs (Decidable True)
  | w, c :: rest =>
    have : Decidable ((w.step c).Allows rest) := decideAllows (w.step c) rest
    inferInstanceAs (Decidable (w.Permits c ∧ (w.step c).Allows rest))

instance (w : VectorWriter) (calls : List Call) : Decidable (w.Allows calls) :=
  decideAllows w calls

/-- The bits of the word that are free. On the wire they are the lowest ones. -/
def room (w : VectorWriter) : UInt16 :=
  swapBytes (UInt16.ofNat (w.size.count ^ w.freeSlots - 1))

/-- No symbol is put where the kind of the vector or another symbol is. -/
structure Intact (w : VectorWriter) : Prop where
  freeSlots_pos : 1 ≤ w.freeSlots
  freeSlots_le : w.freeSlots ≤ w.slots
  isEmpty_iff : w.isEmpty = true ↔ w.freeSlots = w.slots
  /-- The two upper bits tell a vector of symbols of this size. -/
  kind_eq : (swapBytes w.word).toNat / 16384 = w.size.bits + 1
  /-- The room is below the bits of kind. -/
  room_lt : (swapBytes w.room).toNat < 16384
  /-- Nothing is in the room. -/
  word_and_room : w.word &&& w.room = 0
  /-- The next symbol goes into the room. -/
  target_and_room : w.target &&& w.room = w.target
  /-- The room is then the same but for the bits of that symbol. -/
  room_add : ∀ s, (w.add s).isEmpty = false →
    (w.add s).room ||| w.target = w.room ∧ (w.add s).room &&& w.target = 0

/-- The writer of a builder: its word is what the open vector would be closed to. -/
def ofBuilder (b : ChunkBuilder) : VectorWriter where
  size := b.size
  word := swapBytes (Chunk.pack b.size b.pending).wire
  place := firstPlace - b.size.bits * b.pending.length
  chunks := b.chunks

section SamePlace

-- Where the next symbol goes depends on its size and place, and not on what is there.
variable (v w : VectorWriter)

theorem freeSlots_congr (hsize : v.size = w.size) (hplace : v.place = w.place) :
    v.freeSlots = w.freeSlots := by
  rw [freeSlots, freeSlots, hsize, hplace]

theorem shift_congr (hsize : v.size = w.size) (hplace : v.place = w.place) :
    v.shift = w.shift := by
  rw [shift, shift, hsize, hplace]

theorem target_congr (hsize : v.size = w.size) (hplace : v.place = w.place) :
    v.target = w.target := by
  rw [target, target, mask, mask, shift_congr v w hsize hplace, hsize]

theorem room_congr (hsize : v.size = w.size) (hplace : v.place = w.place) : v.room = w.room := by
  rw [room, room, freeSlots_congr v w hsize hplace, hsize]

end SamePlace

/-- The writer of an open vector with `i` symbols. What it holds does not matter for where
    the next symbol goes. -/
def atSymbol (size : SymbolSize) (i : Nat) : VectorWriter :=
  { size, word := emptyWord size, place := firstPlace - size.bits * i }

theorem freeSlots_atSymbol (size : SymbolSize) :
    ∀ i < size.perVector, (atSymbol size i).freeSlots = size.perVector - i := by
  cases size <;> decide

/-- Moved to its place, a symbol is on the wire a digit with those that are still to come
    below it. -/
theorem swapBytes_symbol (size : SymbolSize) : ∀ i < size.perVector, ∀ n < size.count,
    swapBytes (UInt16.ofNat n <<< (atSymbol size i).shift)
      = UInt16.ofNat (n * size.count ^ (size.perVector - 1 - i)) := by
  cases size <;> decide

theorem room_atSymbol (size : SymbolSize) : ∀ i < size.perVector,
    (swapBytes (atSymbol size i).room).toNat < 16384
      ∧ (atSymbol size i).target &&& (atSymbol size i).room = (atSymbol size i).target := by
  cases size <;> decide

-- A symbol takes its bits out of the room, and no others.
theorem room_atSymbol_succ (size : SymbolSize) : ∀ i, i + 1 < size.perVector →
    (atSymbol size (i + 1)).room ||| (atSymbol size i).target = (atSymbol size i).room
      ∧ (atSymbol size (i + 1)).room &&& (atSymbol size i).target = 0 := by
  have hall : ∀ i < size.perVector - 1,
      (atSymbol size (i + 1)).room ||| (atSymbol size i).target = (atSymbol size i).room
        ∧ (atSymbol size (i + 1)).room &&& (atSymbol size i).target = 0 := by
    cases size <;> decide
  exact fun i hi => hall i (by omega)

theorem emptyWord_eq (size : SymbolSize) : emptyWord size = swapBytes (Chunk.pack size []).wire := by
  cases size <;> decide

-- Of a status, the low bits are put into the word.
theorem code_and_mask (w : VectorWriter) (s : Status) :
    UInt16.ofNat s.code &&& w.mask = UInt16.ofNat (s.code % w.size.count) := by
  have hall (size : SymbolSize) :
      UInt16.ofNat s.code &&& UInt16.ofNat (size.count - 1)
        = UInt16.ofNat (s.code % size.count) := by
    cases size <;> cases s <;> decide
  exact hall w.size

section OfBuilder

variable (b : ChunkBuilder)

theorem shift_ofBuilder : (ofBuilder b).shift = (atSymbol b.size b.pending.length).shift :=
  shift_congr _ _ rfl rfl

theorem target_ofBuilder : (ofBuilder b).target = (atSymbol b.size b.pending.length).target :=
  target_congr _ _ rfl rfl

theorem room_ofBuilder : (ofBuilder b).room = (atSymbol b.size b.pending.length).room :=
  room_congr _ _ rfl rfl

theorem freeSlots_ofBuilder (h : b.pending.length < b.slots) :
    (ofBuilder b).freeSlots = b.freeSlots := by
  rw [freeSlots_congr (ofBuilder b) (atSymbol b.size b.pending.length) rfl rfl,
    freeSlots_atSymbol b.size _ h, ChunkBuilder.freeSlots, ChunkBuilder.slots]

theorem slots_ofBuilder : (ofBuilder b).slots = b.slots := by
  have hall (size : SymbolSize) : (firstPlace.tdiv size.bits + 1).toNat = size.perVector := by
    cases size <;> rfl
  rw [slots, ofBuilder, hall, ChunkBuilder.slots]

-- The place is the first one for as long as there are no symbols.
theorem isEmpty_ofBuilder : (ofBuilder b).isEmpty = b.isEmpty := by
  rw [Bool.eq_iff_iff, isEmpty, beq_iff_eq, ChunkBuilder.isEmpty, List.isEmpty_iff,
    ← List.length_eq_zero_iff]
  simp only [ofBuilder]
  cases b.size with
  | oneBit =>
      simp only [SymbolSize.bits]
      omega
  | twoBits =>
      simp only [SymbolSize.bits]
      omega

theorem place_ofBuilder_le : (ofBuilder b).place ≤ firstPlace :=
  Int.sub_le_self _ (Int.mul_nonneg (Int.natCast_nonneg _) (Int.natCast_nonneg _))

-- There is no place for a symbol if the vector is full.
theorem place_ofBuilder_lt_iff : (ofBuilder b).place < 0 ↔ b.freeSlots = 0 := by
  simp only [ofBuilder, ChunkBuilder.freeSlots, ChunkBuilder.slots, firstPlace]
  cases b.size with
  | oneBit =>
      simp only [SymbolSize.bits, SymbolSize.perVector]
      omega
  | twoBits =>
      simp only [SymbolSize.bits, SymbolSize.perVector]
      omega

/-- The vector that a writer closes is the one that the builder packs. -/
theorem close_ofBuilder (h : b.pending.length ≤ b.slots) :
    (ofBuilder b).close = ofBuilder b.close := by
  have hplace : (ofBuilder b).place = firstPlace ↔ b.isEmpty = true := by
    rw [← isEmpty_ofBuilder, isEmpty, beq_iff_eq]
  by_cases hempty : b.isEmpty = true
  · rw [close, hplace.2 hempty, if_neg (Int.lt_irrefl _), ChunkBuilder.close, if_pos hempty]
  · have hlt : (ofBuilder b).place < firstPlace :=
      lt_of_le_of_ne (place_ofBuilder_le b) fun heq => hempty (hplace.1 heq)
    have hchunk : Chunk.ofWire (swapBytes (ofBuilder b).word) = .pack b.size b.pending := by
      rw [ofBuilder, swapBytes_swapBytes, Chunk.ofWire_wire _ (Chunk.fitsWire_pack _ _ h)]
    rw [close, if_pos hlt, ChunkBuilder.close, if_neg hempty, hchunk, emptyWord_eq]
    simp only [ofBuilder, List.length_nil, Int.natCast_zero, Int.mul_zero, Int.sub_zero]

/-- Putting a symbol into its bits is putting the status at the end of the open vector. -/
theorem word_or_ofBuilder (s : Status) (h : b.pending.length < b.slots) :
    (ofBuilder b).word ||| (UInt16.ofNat s.code &&& (ofBuilder b).mask) <<< (ofBuilder b).shift
      = swapBytes (Chunk.pack b.size (b.pending ++ [s])).wire := by
  have hsymbol : (UInt16.ofNat s.code &&& (ofBuilder b).mask) <<< (ofBuilder b).shift
      = swapBytes (UInt16.ofNat
        (s.code % b.size.count * b.size.count ^ (b.size.perVector - 1 - b.pending.length))) := by
    rw [code_and_mask, shift_ofBuilder, ← swapBytes_symbol b.size b.pending.length h _
      (Nat.mod_lt _ (Chunk.count_pos b.size)), swapBytes_swapBytes, ofBuilder]
  rw [hsymbol, ← Chunk.wire_pack_append b.size b.pending s h, swapBytes_or]
  rfl

theorem add_ofBuilder (s : Status) (h : b.pending.length < b.slots) :
    (ofBuilder b).add s = ofBuilder (b.add s) := by
  let next : ChunkBuilder := { b with pending := b.pending ++ [s] }
  have hlen : next.pending.length = b.pending.length + 1 := by
    rw [List.length_append, List.length_singleton]
  have hplace : (ofBuilder b).place - (ofBuilder b).size.bits = (ofBuilder next).place := by
    simp only [ofBuilder, hlen]
    push_cast
    ring
  have hadd : (ofBuilder b).add s
      = if (ofBuilder next).place < 0 then (ofBuilder next).close else ofBuilder next := by
    rw [add, word_or_ofBuilder b s h, hplace]
    rfl
  rw [hadd, ChunkBuilder.add]
  by_cases hfull : next.freeSlots = 0
  · rw [if_pos ((place_ofBuilder_lt_iff next).2 hfull), if_pos hfull]
    exact close_ofBuilder next (hlen ▸ h)
  · rw [if_neg fun hlt => hfull ((place_ofBuilder_lt_iff next).1 hlt), if_neg hfull]

-- Closing the open vector leaves over what it leaves over of the builder.
theorem unused_ofBuilder (h : b.pending.length < b.slots) : (ofBuilder b).unused = b.unused := by
  rw [unused, ChunkBuilder.unused, isEmpty_ofBuilder, freeSlots_ofBuilder b h]

/-- A call on a writer is the same call on the builder. -/
theorem step_ofBuilder (c : Call) (h : b.pending.length < b.slots) :
    (ofBuilder b).step c = ofBuilder (b.step c) := by
  cases c with
  | write s => exact add_ofBuilder b s h
  | run s n => rfl
  | flush => exact close_ofBuilder b (Nat.le_of_lt h)

/-- A call that is permitted tells the builder what it tells the writer. -/
theorem tells_step (c : Call) (said : List Status) (h : b.Tells said)
    (hc : (ofBuilder b).Permits c) : (b.step c).Tells (said ++ (ofBuilder b).tells c) := by
  cases c with
  | write s => exact b.tells_add said s h hc
  | run s n =>
      have hopen : b.pending = [] := by
        rw [Permits, isEmpty_ofBuilder] at hc
        exact List.isEmpty_iff.1 hc
      exact b.tells_addRuns said s n h hopen
  | flush =>
      rw [tells, unused_ofBuilder b h.pending_lt]
      exact b.tells_close said h

end OfBuilder

/-- All calls on a writer are the same calls on the builder, which has then been told what
    they tell. -/
theorem run_ofBuilder (b : ChunkBuilder) (calls : List Call) (said : List Status)
    (h : b.Tells said) (hcalls : (ofBuilder b).Allows calls) :
    (ofBuilder b).run calls = ofBuilder (calls.foldl ChunkBuilder.step b)
      ∧ (calls.foldl ChunkBuilder.step b).Tells (said ++ (ofBuilder b).told calls) := by
  induction calls generalizing b said with
  | nil =>
      rw [told, List.append_nil]
      exact ⟨rfl, h⟩
  | cons c rest ih =>
      have hstep := step_ofBuilder b c h.pending_lt
      have hrest := hcalls.2
      rw [hstep] at hrest
      have hrun := ih (b.step c) _ (tells_step b c said h hcalls.1) hrest
      rw [run, List.foldl_cons, told, hstep, ← List.append_assoc]
      exact hrun

/-- A writer and the builder it stands for give the same chunks. -/
theorem finish_ofBuilder (b : ChunkBuilder) (h : b.pending.length ≤ b.slots) :
    (ofBuilder b).finish = b.finish := by
  rw [finish, close_ofBuilder b h]
  rfl

theorem start_eq (size : SymbolSize) : start size = ofBuilder (.start size) := by
  rw [start, emptyWord_eq]
  simp [ofBuilder, ChunkBuilder.start]

/-- A writer that a builder stands for is intact. -/
theorem intact_ofBuilder (b : ChunkBuilder) (h : b.pending.length < b.slots) :
    (ofBuilder b).Intact where
  freeSlots_pos := by
    rw [freeSlots_ofBuilder b h, ChunkBuilder.freeSlots]
    omega
  freeSlots_le := by
    rw [freeSlots_ofBuilder b h, slots_ofBuilder, ChunkBuilder.freeSlots]
    exact Nat.sub_le _ _
  isEmpty_iff := by
    rw [isEmpty_ofBuilder, freeSlots_ofBuilder b h, slots_ofBuilder, ChunkBuilder.freeSlots,
      ChunkBuilder.isEmpty, List.isEmpty_iff, ← List.length_eq_zero_iff]
    omega
  kind_eq := by
    have hlt := Chunk.digits_fill_lt b.size b.pending (Nat.le_of_lt h)
    have hword := Chunk.toNat_wire_pack b.size b.pending (Nat.le_of_lt h)
    simp only [ofBuilder, swapBytes_swapBytes]
    omega
  room_lt := by
    rw [room_ofBuilder]
    exact (room_atSymbol b.size _ h).1
  word_and_room := by
    have hfree := Chunk.wire_pack_and_free b.size b.pending (Nat.le_of_lt h)
    rw [room, freeSlots_ofBuilder b h]
    simp only [ofBuilder, ChunkBuilder.freeSlots, ChunkBuilder.slots]
    rw [← swapBytes_and, hfree]
    rfl
  target_and_room := by
    rw [target_ofBuilder, room_ofBuilder]
    exact (room_atSymbol b.size _ h).2
  room_add := by
    intro s hopen
    rw [add_ofBuilder b s h, isEmpty_ofBuilder, ChunkBuilder.add_eq] at hopen
    rw [add_ofBuilder b s h, ChunkBuilder.add_eq]
    by_cases hroom : b.pending.length + 1 < b.slots
    · rw [if_pos hroom, room_ofBuilder, room_ofBuilder, target_ofBuilder, List.length_append,
        List.length_singleton]
      exact room_atSymbol_succ b.size b.pending.length hroom
    · rw [if_neg hroom] at hopen
      cases hopen

/-- Whatever calls a writer gets, it stays intact: the open vector has room for one symbol or
    more, and for all of them only while there is nothing in it, and no symbol is put over the
    bits of kind or over another symbol. Its chunks say what it is told, in order. They
    say no more than that but for the symbols that closing a vector leaves over, one for
    each that it had room for. -/
theorem intact_and_statuses_finish (size : SymbolSize) (calls : List Call)
    (h : (start size).Allows calls) :
    ((start size).run calls).size = size
      ∧ ((start size).run calls).Intact
      ∧ ((start size).run calls).finish.flatMap Chunk.statuses
        = (start size).told calls ++ ((start size).run calls).unused := by
  rw [start_eq] at h ⊢
  obtain ⟨hrun, htells⟩ := run_ofBuilder (.start size) calls [] (ChunkBuilder.tells_start size) h
  rw [hrun]
  refine ⟨ChunkBuilder.size_foldl_step calls (.start size), intact_ofBuilder _ htells.pending_lt, ?_⟩
  rw [finish_ofBuilder _ (Nat.le_of_lt htells.pending_lt), unused_ofBuilder _ htells.pending_lt]
  exact ChunkBuilder.flatMap_statuses_finish_eq _ _ htells

-- A vector is closed with three symbols in it, and a run follows. Then comes a full vector, and
-- one symbol of the next.
theorem intact_and_statuses_finish_left_over :
    ∃ calls : List Call, (start .twoBits).Allows calls
      ∧ ((start .twoBits).run calls).freeSlots = 6 ∧ ((start .twoBits).run calls).Intact
      ∧ ((start .twoBits).run calls).finish.flatMap Chunk.statuses
        = [Status.smallDelta, .notReceived, .largeDelta] ++ List.replicate 4 Status.notReceived
          ++ List.replicate 3 Status.smallDelta ++ List.replicate 7 Status.largeDelta
          ++ [Status.unknown] ++ List.replicate 6 Status.notReceived := by
  let calls : List Call :=
    [Call.write .smallDelta, .write .notReceived, .write .largeDelta, .flush, .run .smallDelta 3]
      ++ List.replicate 7 (Call.write .largeDelta) ++ [Call.flush, .write .unknown]
  have hallows : (start .twoBits).Allows calls := by decide
  obtain ⟨_, hintact, hstatuses⟩ := intact_and_statuses_finish .twoBits calls hallows
  exact ⟨calls, hallows, by decide, hintact, hstatuses.trans (by decide +kernel)⟩

/-- The calls that tell a stretch of `n` equal statuses in the shorter form. They are runs
    if more than a vector would be left after filling up the open one. -/
def stretchCalls (w : VectorWriter) (s : Status) (n : Nat) : List Call :=
  let free := if w.isEmpty then 0 else w.freeSlots
  if free + w.slots < n then List.replicate free (.write s) ++ [.run s (n - free)]
  else List.replicate n (.write s)

/-- The calls that tell some stretches, one after the other. -/
def encodeCalls (w : VectorWriter) : List (Status × Nat) → List Call
  | [] => []
  | r :: rest => w.stretchCalls r.1 r.2 ++ (w.run (w.stretchCalls r.1 r.2)).encodeCalls rest

theorem allows_append (w : VectorWriter) (calls more : List Call) :
    w.Allows (calls ++ more) ↔ w.Allows calls ∧ (w.run calls).Allows more := by
  induction calls generalizing w with
  | nil => exact ⟨fun h => ⟨trivial, h⟩, And.right⟩
  | cons c rest ih =>
      rw [List.cons_append, Allows, Allows, ih, and_assoc]
      rfl

section Stretches

variable (b : ChunkBuilder)

theorem foldl_step_writes (s : Status) (n : Nat) :
    (List.replicate n (Call.write s)).foldl ChunkBuilder.step b = b.addAll (List.replicate n s) := by
  induction n generalizing b with
  | zero => rfl
  | succ n ih =>
      rw [List.replicate_succ, List.foldl_cons, ih, List.replicate_succ]
      rfl

theorem allows_writes (said : List Status) (s : Status) (n : Nat) (h : b.Tells said)
    (hs : b.size.fits s = true) : (ofBuilder b).Allows (List.replicate n (.write s)) := by
  induction n generalizing b said with
  | zero => trivial
  | succ n ih =>
      rw [List.replicate_succ]
      refine ⟨hs, ?_⟩
      rw [step_ofBuilder b _ h.pending_lt]
      exact ih (b.add s) _ (b.tells_add said s h hs) (by rw [ChunkBuilder.size_add, hs])

/-- The calls of a stretch are how a builder tells it. -/
theorem foldl_step_stretchCalls (s : Status) (n : Nat) (h : b.pending.length < b.slots) :
    ((ofBuilder b).stretchCalls s n).foldl ChunkBuilder.step b = b.addStretch s n := by
  simp only [stretchCalls, ChunkBuilder.addStretch, isEmpty_ofBuilder, freeSlots_ofBuilder b h,
    slots_ofBuilder]
  generalize (if b.isEmpty then 0 else b.freeSlots) = free
  by_cases hlong : free + b.slots < n
  · rw [if_pos hlong, if_pos hlong, List.foldl_append, foldl_step_writes]
    rfl
  · rw [if_neg hlong, if_neg hlong, foldl_step_writes]

theorem allows_stretchCalls (said : List Status) (s : Status) (n : Nat) (h : b.Tells said)
    (hs : b.size.fits s = true) : (ofBuilder b).Allows ((ofBuilder b).stretchCalls s n) := by
  have hopen := b.pending_addAll_free s h.pending_lt
  simp only [stretchCalls, isEmpty_ofBuilder, freeSlots_ofBuilder b h.pending_lt, slots_ofBuilder]
  generalize (if b.isEmpty then 0 else b.freeSlots) = free at hopen ⊢
  by_cases hlong : free + b.slots < n
  · -- The runs come when the open vector has just been filled up.
    have hwrites := allows_writes b said s free h hs
    rw [if_pos hlong, allows_append, (run_ofBuilder b _ said h hwrites).1, foldl_step_writes]
    refine ⟨hwrites, ?_, trivial⟩
    rw [Permits, isEmpty_ofBuilder]
    exact List.isEmpty_iff.2 hopen
  · rw [if_neg hlong]
    exact allows_writes b said s n h hs

theorem encodeCalls_ofBuilder (stretches : List (Status × Nat)) (said : List Status)
    (h : b.Tells said) (hfits : ∀ r ∈ stretches, b.size.fits r.1 = true) :
    (ofBuilder b).Allows ((ofBuilder b).encodeCalls stretches)
      ∧ ((ofBuilder b).encodeCalls stretches).foldl ChunkBuilder.step b
        = stretches.foldl (fun b r => b.addStretch r.1 r.2) b := by
  induction stretches generalizing b said with
  | nil => exact ⟨trivial, rfl⟩
  | cons r rest ih =>
      have hallows := allows_stretchCalls b said r.1 r.2 h (hfits r (List.mem_cons_self ..))
      obtain ⟨hrun, htells⟩ := run_ofBuilder b _ said h hallows
      rw [foldl_step_stretchCalls b r.1 r.2 h.pending_lt] at hrun htells
      have hrest := ih (b.addStretch r.1 r.2) _ htells fun t ht => by
        rw [ChunkBuilder.size_addStretch]
        exact hfits t (List.mem_cons_of_mem _ ht)
      rw [encodeCalls, hrun, allows_append, hrun, List.foldl_append,
        foldl_step_stretchCalls b r.1 r.2 h.pending_lt, List.foldl_cons]
      exact ⟨⟨hallows, hrest.1⟩, hrest.2⟩

end Stretches

/-- Encoding is calls on a writer. Its runs only come while no vector is open, and all
    statuses fit its symbols. -/
theorem encode_eq_finish_run (size : SymbolSize) (ss : List Status) :
    ∃ calls, (start (Chunk.symbolSize size ss)).Allows calls
      ∧ Chunk.encode size ss = ((start (Chunk.symbolSize size ss)).run calls).finish := by
  have htells := ChunkBuilder.tells_start (Chunk.symbolSize size ss)
  obtain ⟨hallows, hfold⟩ := encodeCalls_ofBuilder (.start (Chunk.symbolSize size ss)) (runs ss) []
    htells fun r hr => Chunk.fits_symbolSize size ss r.1 (mem_of_mem_runs ss r hr)
  obtain ⟨hrun, hsaid⟩ := run_ofBuilder _ _ [] htells hallows
  rw [start_eq]
  refine ⟨_, hallows, ?_⟩
  rw [hrun, finish_ofBuilder _ (Nat.le_of_lt hsaid.pending_lt), hfold]
  rfl

end VectorWriter

end Feedback

end VideoTransport

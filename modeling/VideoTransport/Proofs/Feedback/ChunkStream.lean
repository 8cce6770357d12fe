import Mathlib.Data.List.Induction
import VideoTransport.Feedback.MessageReader
import VideoTransport.Proofs.Feedback.ChunkEncoding
import VideoTransport.Proofs.Feedback.WrittenReport

/-!
# Chunks in a Row

What readers find where they look for chunks, in any bytes at all.

Every sixteen bits are a chunk, so reading chunks can only fail in one way: the
bytes run out before enough statuses have been described. `exists_chunks` says
that there is nothing else. Some bytes begin with chunks that cover the count,
and what follows them is left for the deltas, or else they are chunks that do
not describe enough, with half a chunk behind them at most.

Each reader has one lemma for either case. A reader of messages refuses the
second one, and a reader of reports makes do with what has been described. In
the first one both stop at the same place, because a chunk that covers nothing
new is not taken by either of them.

What has been encoded is always of the first kind, so it is read back whatever
comes behind it.

## Theorems

* `Chunk.wire_ofWire`: Sixteen bits are what the chunk in them is written as.
* `Chunk.covers_iff`: Covering a count, told by sums of capacities.
* `Chunk.exists_chunks`: Chunks that cover the count, or too few and then no more.
* `Message.takeChunks_wire`, `Message.takeChunks_short`: A reader of messages.
* `Reception.describedStatuses_append`, `Reception.describedStatuses_short`: A reader of
  reports, where chunks are missing.
* `Chunk.decode_wire_encode`: What is encoded comes back from the wire.
-/

namespace VideoTransport

namespace BigEndian

/-- The bytes of a number that two bytes were joined to are these two. -/
theorem bytes16_join16 (a b : UInt8) : bytes16 (join16 a b) = [a, b] := by
  have ha := a.toNat_lt
  have hb := b.toNat_lt
  have hhigh : UInt8.ofNat ((join16 a b).toNat / 256) = a := by
    apply UInt8.toNat_inj.1
    rw [toNat_join16, UInt8.toNat_ofNat']
    omega
  have hlow : UInt8.ofNat (join16 a b).toNat = b := by
    apply UInt8.toNat_inj.1
    rw [toNat_join16, UInt8.toNat_ofNat']
    omega
  rw [bytes16, hhigh, hlow]

end BigEndian

namespace Feedback

namespace Chunk

/-- Sixteen bits are what the chunk in them is written as. -/
theorem wire_ofWire (w : UInt16) : (ofWire w).wire = w := by
  have hw := w.toNat_lt
  apply UInt16.toNat_inj.1
  rw [ofWire]
  by_cases hrun : w.toNat < 32768
  · have hcode := Status.code_ofCode (w.toNat / 8192) (by omega)
    rw [if_pos hrun, wire, hcode, UInt16.toNat_ofNat', UInt16.toNat_ofNat']
    omega
  · rw [if_neg hrun]
    by_cases hsingle : w.toNat < 49152
    · rw [if_pos hsingle, wire, UInt16.toNat_ofNat', UInt16.toNat_ofNat']
      omega
    · rw [if_neg hsingle, wire, UInt16.toNat_ofNat', UInt16.toNat_ofNat']
      omega

theorem fitsWire_ofWire (w : UInt16) : (ofWire w).FitsWire := by
  rw [ofWire]
  split
  · rw [FitsWire, UInt16.toNat_ofNat', maxRun]
    omega
  · split
    · rw [FitsWire, UInt16.toNat_ofNat']
      omega
    · rw [FitsWire, UInt16.toNat_ofNat']
      omega

theorem length_flatMap_statuses (cs : List Chunk) :
    (cs.flatMap statuses).length = (cs.map capacity).sum := by
  rw [List.length_flatMap]
  congr 1
  exact List.map_congr_left fun c _ => c.length_statuses

/-- Chunks cover a count if together they describe as many statuses, and without
    the last of them they do not. For no statuses there are no chunks. -/
theorem covers_iff (cs : List Chunk) (count : Nat) :
    Covers cs count ↔ (count = 0 → cs = [])
      ∧ (0 < count → (cs.dropLast.map capacity).sum < count ∧ count ≤ (cs.map capacity).sum) := by
  induction cs generalizing count with
  | nil =>
      rw [Covers]
      simp only [implies_true, true_and, List.dropLast_nil, List.map_nil, List.sum_nil]
      omega
  | cons c rest ih =>
      rw [Covers, ih]
      cases rest with
      | nil =>
          simp only [implies_true, true_and, List.dropLast_nil, List.dropLast_singleton,
            List.map_nil, List.map_cons, List.sum_nil, List.sum_cons, reduceCtorEq, imp_false]
          omega
      | cons d rest =>
          simp only [List.dropLast_cons_cons, List.map_cons, List.sum_cons, reduceCtorEq, imp_false]
          omega

/-- Bytes in which chunks are looked for are of one of two kinds. They begin with
    chunks that cover the count, or they are chunks that describe less than the
    count, and less than a chunk. -/
theorem exists_chunks (count : Nat) (bytes : List UInt8) :
    ∃ cs rest, bytes = cs.flatMap (fun c => BigEndian.bytes16 c.wire) ++ rest
      ∧ (∀ c ∈ cs, c.FitsWire)
      ∧ (Covers cs count ∨ ((cs.map capacity).sum < count ∧ rest.length < 2)) := by
  induction bytes using List.twoStepInduction generalizing count with
  | nil =>
      refine ⟨[], [], rfl, fun c hc => absurd hc List.not_mem_nil, ?_⟩
      rw [Covers, List.map_nil, List.sum_nil, List.length_nil]
      omega
  | singleton b =>
      refine ⟨[], [b], rfl, fun c hc => absurd hc List.not_mem_nil, ?_⟩
      rw [Covers, List.map_nil, List.sum_nil, List.length_singleton]
      omega
  | cons_cons high low bytes ih _ =>
      by_cases hcount : count = 0
      · exact ⟨[], high :: low :: bytes, rfl, fun c hc => absurd hc List.not_mem_nil, Or.inl hcount⟩
      · -- One chunk is needed at least, and its capacity is taken off the count.
        rcases ih (count - (ofWire (BigEndian.join16 high low)).capacity) with
          ⟨cs, rest, hbytes, hfits, hkind⟩
        refine ⟨ofWire (BigEndian.join16 high low) :: cs, rest, ?_, ?_, ?_⟩
        · rw [List.flatMap_cons, wire_ofWire, BigEndian.bytes16_join16, hbytes]
          rfl
        · rw [List.forall_mem_cons]
          exact ⟨fitsWire_ofWire _, hfits⟩
        · rcases hkind with hcovers | ⟨hsum, hrest⟩
          · exact Or.inl ⟨Nat.pos_of_ne_zero hcount, hcovers⟩
          · refine Or.inr ⟨?_, hrest⟩
            rw [List.map_cons, List.sum_cons]
            omega

end Chunk

namespace Message

/-- Chunks that cover the count are taken, and what follows them is left. -/
theorem takeChunks_wire (cs : List Chunk) (found : Array Chunk) (todo : Nat) (rest : List UInt8)
    (hfits : ∀ c ∈ cs, c.FitsWire) (hcovers : Chunk.Covers cs todo) :
    takeChunks found todo (cs.flatMap (fun c => BigEndian.bytes16 c.wire) ++ rest)
      = .ok (found.toList ++ cs, rest) := by
  induction cs generalizing found todo with
  | nil =>
      rw [Chunk.Covers] at hcovers
      rw [List.flatMap_nil, List.nil_append, List.append_nil]
      unfold takeChunks
      split
      · rw [if_pos hcovers]
      · rw [if_pos hcovers]
  | cons c cs ih =>
      rcases hcovers with ⟨hpos, hcs⟩
      rw [List.flatMap_cons, BigEndian.bytes16]
      simp only [List.cons_append, List.nil_append]
      rw [takeChunks, if_neg (Nat.ne_of_gt hpos), BigEndian.join16_bytes16,
        Chunk.ofWire_wire c (hfits c List.mem_cons_self),
        ih _ _ (fun d hd => hfits d (List.mem_cons_of_mem _ hd)) hcs, Array.toList_push,
        List.append_assoc, List.singleton_append]

/-- If chunks are missing, a message is refused. -/
theorem takeChunks_short (cs : List Chunk) (found : Array Chunk) (todo : Nat) (rest : List UInt8)
    (hfits : ∀ c ∈ cs, c.FitsWire) (hsum : (cs.map Chunk.capacity).sum < todo)
    (hrest : rest.length < 2) :
    takeChunks found todo (cs.flatMap (fun c => BigEndian.bytes16 c.wire) ++ rest)
      = .error .chunk := by
  induction cs generalizing found todo with
  | nil =>
      rw [List.map_nil, List.sum_nil] at hsum
      rw [List.flatMap_nil, List.nil_append]
      unfold takeChunks
      split
      · simp only [List.length_cons] at hrest
        omega
      · rw [if_neg (Nat.ne_of_gt hsum)]
  | cons c cs ih =>
      rw [List.map_cons, List.sum_cons] at hsum
      rw [List.flatMap_cons, BigEndian.bytes16]
      simp only [List.cons_append, List.nil_append]
      rw [takeChunks, if_neg (by omega), BigEndian.join16_bytes16,
        Chunk.ofWire_wire c (hfits c List.mem_cons_self)]
      exact ih _ _ (fun d hd => hfits d (List.mem_cons_of_mem _ hd)) (by omega)

end Message

namespace Reception

/-- Chunks that describe less than the count are found, and it goes on with what
    follows them. -/
theorem describedStatuses_append (cs : List Chunk) (count : Nat) (found : Array Status)
    (rest : List UInt8) (hfits : ∀ c ∈ cs, c.FitsWire)
    (hsum : found.size + (cs.map Chunk.capacity).sum < count) :
    describedStatuses count found (cs.flatMap (fun c => BigEndian.bytes16 c.wire) ++ rest)
      = describedStatuses count (found ++ cs.flatMap Chunk.statuses) rest := by
  induction cs generalizing found with
  | nil => rw [List.flatMap_nil, List.nil_append, List.flatMap_nil, Array.appendList_nil]
  | cons c cs ih =>
      rw [List.map_cons, List.sum_cons] at hsum
      have hall : c.firstStatuses (count - found.size) = c.statuses := by
        rw [Chunk.firstStatuses_eq, List.take_of_length_le]
        rw [Chunk.length_statuses]
        omega
      have hsize : (found ++ c.statuses).size = found.size + c.capacity := by
        rw [← Array.length_toList, Array.toList_appendList, List.length_append,
          Array.length_toList, Chunk.length_statuses]
      have hjoin : found ++ c.statuses ++ cs.flatMap Chunk.statuses
          = found ++ (c :: cs).flatMap Chunk.statuses := by
        apply Array.ext'
        simp only [Array.toList_appendList, List.flatMap_cons, List.append_assoc]
      rw [List.flatMap_cons, BigEndian.bytes16]
      simp only [List.cons_append, List.nil_append]
      rw [describedStatuses, if_neg (by omega), BigEndian.join16_bytes16,
        Chunk.ofWire_wire c (hfits c List.mem_cons_self)]
      simp only [hall]
      rw [ih _ (fun d hd => hfits d (List.mem_cons_of_mem _ hd)) (by rw [hsize]; omega), hjoin]

/-- If chunks are missing, a report goes on with all that has been described. -/
theorem describedStatuses_short (cs : List Chunk) (count : Nat) (found : Array Status)
    (rest : List UInt8) (hfits : ∀ c ∈ cs, c.FitsWire)
    (hsum : found.size + (cs.map Chunk.capacity).sum < count) (hrest : rest.length < 2) :
    describedStatuses count found (cs.flatMap (fun c => BigEndian.bytes16 c.wire) ++ rest)
      = (found.toList ++ cs.flatMap Chunk.statuses, rest) := by
  rw [describedStatuses_append cs count found rest hfits hsum, ← Array.toList_appendList]
  unfold describedStatuses
  split
  · simp only [List.length_cons] at hrest
    omega
  · rfl

end Reception

namespace Chunk

/-- What is encoded comes back from the wire, and from a list of chunks as well as
    from bytes, whatever comes behind them.

    Each chunk is the one that its sixteen bits stand for, and none is empty. For
    no statuses there are no chunks. Otherwise the chunks describe as many
    statuses as they were made from, and without the last of them they do not. So
    a reader that stops at the count is at what follows the last chunk. -/
theorem decode_wire_encode (size : SymbolSize) (ss : List Status) :
    decode ((encode size ss).map fun c => ofWire c.wire) ss.length = ss
      ∧ (∀ c ∈ encode size ss, ofWire c.wire = c ∧ c.FitsWire ∧ 0 < c.capacity)
      ∧ (ss = [] → encode size ss = [])
      ∧ (ss ≠ [] → ((encode size ss).dropLast.map capacity).sum < ss.length
        ∧ ss.length ≤ ((encode size ss).map capacity).sum)
      ∧ ∀ rest : List UInt8,
        Message.takeChunks #[] ss.length
            ((encode size ss).flatMap (fun c => BigEndian.bytes16 c.wire) ++ rest)
          = .ok (encode size ss, rest)
        ∧ Reception.describedStatuses ss.length #[]
            ((encode size ss).flatMap (fun c => BigEndian.bytes16 c.wire) ++ rest)
          = (ss, rest) := by
  have hfits := fitsWire_encode size ss
  have hcovers := covers_encode size ss
  have htake := take_flatMap_encode size ss
  rcases (covers_iff _ _).1 hcovers with ⟨hnone, hsome⟩
  have hself : (encode size ss).map (fun c => ofWire c.wire) = encode size ss :=
    List.map_congr_left (fun c hc => ofWire_wire c (hfits c hc)) |>.trans (List.map_id' _)
  refine ⟨?_, ?_, ?_, ?_, fun rest => ⟨?_, ?_⟩⟩
  · rw [hself, decode_eq, htake]
  · intro c hc
    exact ⟨ofWire_wire c (hfits c hc), hfits c hc, capacity_pos_encode size ss c hc⟩
  · intro hnil
    exact hnone (List.length_eq_zero_iff.2 hnil)
  · intro hne
    exact hsome (List.length_pos_iff.2 hne)
  · exact Message.takeChunks_wire _ #[] _ rest hfits hcovers
  · have hdescribed := Reception.describedStatuses_wire (encode size ss) ss.length #[] rest hfits
      hcovers
    rw [hdescribed]
    simp only [Array.size_empty, Nat.sub_zero, htake, List.nil_append]

-- Fifteen numbers that have not been received are one run, since a vector has no
-- room for them. The statuses after them take two bits each.
theorem decode_wire_encode_run_and_vector :
    ∃ ss, ss = List.replicate 15 Status.notReceived ++ [.smallDelta, .largeDelta, .unknown]
      ∧ encode .oneBit ss = [.run .notReceived 15, .double 6912]
      ∧ decode ((encode .oneBit ss).map fun c => ofWire c.wire) 18 = ss
      ∧ ofWire (run .notReceived 15).wire = run .notReceived 15
      ∧ 15 < ss.length ∧ ss.length ≤ 22 := by
  refine ⟨_, rfl, rfl, ?_⟩
  rcases decode_wire_encode .oneBit
    (List.replicate 15 Status.notReceived ++ [.smallDelta, .largeDelta, .unknown]) with
    ⟨hdecode, hchunks, _, hcover, _⟩
  refine ⟨hdecode, (hchunks _ List.mem_cons_self).1, ?_⟩
  exact hcover (by decide)

end Chunk

end Feedback

end VideoTransport

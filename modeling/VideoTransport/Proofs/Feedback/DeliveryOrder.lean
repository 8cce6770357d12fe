import Mathlib.Data.List.Induction
import Mathlib.Data.List.Pairwise
import VideoTransport.Proofs.Feedback.HistoryUpdates
import VideoTransport.Proofs.Feedback.WholeInfo

/-!
# Order of Delivery

Feedback may be delivered in any order, and more than once, without a difference
to what the sender knows in the end.

A reader that gets a feedback early takes the numbers before it for lost, and
the feedback about them has to undo that when it comes. It can, since a packet
that has arrived is not lost, whatever was said before. The other way round, the
cursor keeps numbers that a feedback has covered from being passed over again,
so nothing undoes what has been said about them.

So all that counts for a number is which feedback has been delivered, not when:
the one that covers it decides, if it has come, and if none has, then whether the
cursor has got past the number. `Told` states this of one number, and it is kept
by each delivery.

## Main definitions

* `ReportReader.readAll`: Reads feedback after feedback.
* `furthest`: How far from a number the ranges of some feedback reach.
* `Told`: What a delivery has made of one packet.

## Theorems

* `Told.deliver`: One more delivery.
* `ReportReader.readAll_infos`: A whole delivery.
* `ReportReader.readAll_eq_of_mem_iff`: The order of a delivery makes no difference.
-/

namespace VideoTransport

namespace Feedback

namespace ReportReader

/-- Reads feedback after feedback. What is refused changes nothing. -/
def readAll (r : ReportReader) (h : SendHistory) :
    List (List UInt8) → List (Except Error Report) × ReportReader × SendHistory
  | [] => ([], r, h)
  | info :: rest =>
    match r.read h info with
    | .ok (report, r, h) =>
      let (reports, after) := readAll r h rest
      (.ok report :: reports, after)
    | .error e =>
      let (reports, after) := readAll r h rest
      (.error e :: reports, after)

theorem readAll_append (r : ReportReader) (h : SendHistory) (infos more : List (List UInt8)) :
    readAll r h (infos ++ more)
      = ((readAll r h infos).1 ++ (readAll (readAll r h infos).2.1 (readAll r h infos).2.2 more).1,
        (readAll (readAll r h infos).2.1 (readAll r h infos).2.2 more).2) := by
  induction infos generalizing r h with
  | nil => rfl
  | cons info rest ih =>
      rw [List.cons_append, readAll, readAll]
      cases r.read h info with
      | ok out =>
          simp only
          rw [ih]
          rfl
      | error e =>
          simp only
          rw [ih]
          rfl

end ReportReader

/-- How far the range of a feedback reaches, in steps from some number. -/
def WholeInfo.reach (e : SeqNum) (f : WholeInfo) : Nat :=
  e.stepsTo f.base + f.declared.toNat

/-- How far the ranges of some feedback reach, in steps from some number. -/
def furthest (e : SeqNum) (feedbacks : List WholeInfo) : Nat :=
  feedbacks.foldl (fun n f => max n (f.reach e)) 0

theorem furthest_concat (e : SeqNum) (feedbacks : List WholeInfo) (f : WholeInfo) :
    furthest e (feedbacks ++ [f]) = max (furthest e feedbacks) (f.reach e) :=
  List.foldl_concat ..

theorem furthest_le_iff (e : SeqNum) (feedbacks : List WholeInfo) (n : Nat) :
    furthest e feedbacks ≤ n ↔ ∀ f ∈ feedbacks, f.reach e ≤ n := by
  induction feedbacks using List.reverseRecOn with
  | nil => exact ⟨fun _ f hf => absurd hf List.not_mem_nil, fun _ => Nat.zero_le n⟩
  | append_singleton feedbacks f ih =>
      rw [furthest_concat, Nat.max_le, ih, List.forall_mem_append, List.forall_mem_singleton]

-- It depends on nothing but which feedback there is.
theorem furthest_congr (e : SeqNum) (first second : List WholeInfo)
    (h : ∀ f, f ∈ first ↔ f ∈ second) : furthest e first = furthest e second := by
  have hle (n : Nat) : furthest e first ≤ n ↔ furthest e second ≤ n := by
    rw [furthest_le_iff, furthest_le_iff]
    exact ⟨fun hall f hf => hall f ((h f).2 hf), fun hall f hf => hall f ((h f).1 hf)⟩
  exact Nat.le_antisymm ((hle _).2 (Nat.le_refl _)) ((hle _).1 (Nat.le_refl _))

namespace WholeInfo

/-- As seen from a number that no range goes past, a feedback covers what lies
    between the ends of its range. -/
theorem covers_iff (e : SeqNum) (f : WholeInfo) (q : SeqNum) (h : f.reach e ≤ 65536) :
    f.Covers q ↔ e.stepsTo f.base ≤ e.stepsTo q ∧ e.stepsTo q < f.reach e :=
  SeqNum.stepsTo_lt_iff e f.base q f.declared.toNat h

theorem stop_eq (e : SeqNum) (f : WholeInfo) : f.stop = e.advance (f.reach e) := by
  rw [stop, reach, ← SeqNum.advance_advance, SeqNum.advance_stepsTo, SeqNum.advance,
    UInt16.ofNat_toNat]

end WholeInfo

namespace ReportReader

-- The cursor goes on to where the furthest range ends.
theorem moveTo_reach (e : SeqNum) (k : Nat) (f : WholeInfo) (hk : k < 32768)
    (hreach : f.reach e < 32768) :
    moveTo ⟨some (e.advance k)⟩ f.stop = ⟨some (e.advance (max k (f.reach e)))⟩ := by
  have hdistance := e.distance_advance_advance k (f.reach e) hk hreach
  rw [f.stop_eq e, moveTo]
  simp only [SeqNum.precedes, hdistance, decide_eq_true_eq]
  split
  · rw [Nat.max_eq_right (by omega)]
  · rw [Nat.max_eq_left (by omega)]

theorem skipped_reach (e : SeqNum) (k : Nat) (f : WholeInfo) (hk : k < 32768)
    (hreach : f.reach e < 32768) :
    skipped ⟨some (e.advance k)⟩ f.base
      = Message.number (e.advance k) (List.replicate (e.stepsTo f.base - k) .notReceived) := by
  rw [WholeInfo.reach] at hreach
  have hdistance := e.distance_advance_advance k (e.stepsTo f.base) hk (by omega)
  rw [SeqNum.advance_stepsTo] at hdistance
  have hcount : (SeqNum.distance (e.advance k) f.base).toNat = e.stepsTo f.base - k := by omega
  simp only [skipped, hcount]

-- Each number that lies between the cursor and the range is passed over once.
theorem filter_passed (e : SeqNum) (k : Nat) (f : WholeInfo) (q : SeqNum) (hk : k < 32768)
    (hreach : f.reach e < 32768) :
    (passed ⟨some (e.advance k)⟩ f.base).filter (·.seq = q)
      = if k ≤ e.stepsTo q ∧ e.stepsTo q < e.stepsTo f.base then [⟨q, .notReceived, none⟩]
        else [] := by
  have hseqs : (passed ⟨some (e.advance k)⟩ f.base).map (·.seq)
      = (Message.number (e.advance k)
        (List.replicate (e.stepsTo f.base - k) .notReceived)).map Prod.fst := by
    rw [map_seq_passed, skipped_reach e k f hk hreach]
  have hlt : e.stepsTo f.base - k < 32768 := by
    rw [WholeInfo.reach] at hreach
    omega
  have hmem : q ∈ (passed ⟨some (e.advance k)⟩ f.base).map (·.seq)
      ↔ k ≤ e.stepsTo q ∧ e.stepsTo q < e.stepsTo f.base := by
    have hbetween := SeqNum.stepsTo_lt_iff e (e.advance k) q (e.stepsTo f.base - k)
    rw [e.stepsTo_advance k (by omega)] at hbetween
    rw [hseqs, Message.map_fst_number, List.length_replicate,
      SeqNum.mem_map_advance_range _ _ _ (by omega), hbetween (by omega)]
    omega
  split
  · rename_i hq
    rcases List.mem_map.1 (hmem.2 hq) with ⟨r, hr, rfl⟩
    have hnodup : ((passed ⟨some (e.advance k)⟩ f.base).map (·.seq)).Nodup := by
      rw [hseqs]
      exact Message.nodup_fst_number _ _ (by rw [List.length_replicate]; omega)
    rw [Reception.filter_seq_of_mem _ hnodup r hr, ← eq_of_mem_passed _ _ r hr]
  · rename_i hq
    exact Reception.filter_seq_of_notMem _ q fun h => hq (hmem.1 h)

end ReportReader

/-- What a delivery of some feedback has made of the packet of a number: if a
    feedback covers the number, what that feedback says about it, and otherwise
    the packet is lost if the cursor has got past it. -/
structure Told (e : SeqNum) (delivered : List WholeInfo) (q : SeqNum) (p p' : SentPacket) :
    Prop where
  covered : ∀ f ∈ delivered, f.Covers q → p' = p.applyAll (f.own.filter (·.seq = q))
  passed : (∀ f ∈ delivered, ¬ f.Covers q) →
    p' = if e.stepsTo q < furthest e delivered then p.apply .notReceived none else p

/-- One more feedback is delivered, which may have been delivered before. -/
theorem Told.deliver (e : SeqNum) (delivered : List WholeInfo) (f : WholeInfo) (q : SeqNum)
    (p p' : SentPacket) (h : Told e delivered q p p')
    (hnear : ∀ g ∈ delivered ++ [f], g.reach e < 32768)
    (hdisjoint : ∀ g ∈ delivered, g ≠ f → g.Disjoint f) :
    Told e (delivered ++ [f]) q p (p'.applyAll ((ReportReader.passed
      ⟨some (e.advance (furthest e delivered))⟩ f.base ++ f.own).filter (·.seq = q))) := by
  have hf := hnear f List.mem_concat_self
  have hfurthest : furthest e delivered ≤ 32767 := by
    rw [furthest_le_iff]
    intro g hg
    exact Nat.le_of_lt_succ (hnear g (List.mem_append_left _ hg))
  have hcovers (g : WholeInfo) (hg : g ∈ delivered ++ [f]) :=
    g.covers_iff e q (Nat.le_trans (Nat.le_of_lt (hnear g hg)) (by decide))
  rw [List.filter_append, ReportReader.filter_passed e _ f q (Nat.lt_succ_of_le hfurthest) hf]
  by_cases hq : f.Covers q
  · -- The number is not passed over, and what has been said about it is undone or
    -- said again.
    rcases f.exists_filter_own q hq with ⟨r, hr, hseq, hfilter⟩
    have hafter : p'.apply r.status r.arrival = p.apply r.status r.arrival := by
      by_cases hbefore : ∃ g ∈ delivered, g.Covers q
      · rcases hbefore with ⟨g, hg, hgq⟩
        have hsame : g = f := by
          by_contra hne
          exact hdisjoint g hg hne q ⟨hgq, hq⟩
        have hp' := h.covered g hg hgq
        rw [hsame, hfilter] at hp'
        rw [hp']
        exact p.apply_apply_self r.status r.arrival
      · have hp' := h.passed fun g hg hgq => hbefore ⟨g, hg, hgq⟩
        rw [hp']
        split
        · exact p.apply_apply_of_not_isReceived .notReceived r.status none r.arrival (by decide)
        · rfl
    have hnot : ¬ (furthest e delivered ≤ e.stepsTo q ∧ e.stepsTo q < e.stepsTo f.base) := by
      have := ((hcovers f List.mem_concat_self).1 hq).1
      omega
    rw [if_neg hnot, List.nil_append, hfilter]
    refine ⟨?_, ?_⟩
    · intro g hg hgq
      have hsame : g = f := by
        by_contra hne
        rcases List.mem_append.1 hg with hg | hg
        · exact hdisjoint g hg hne q ⟨hgq, hq⟩
        · exact hne (List.mem_singleton.1 hg)
      rw [hsame, hfilter]
      exact hafter
    · intro hnone
      exact absurd hq (hnone f List.mem_concat_self)
  · rw [f.filter_own_of_not_covers q hq, List.append_nil]
    have hoff : ¬ (e.stepsTo f.base ≤ e.stepsTo q ∧ e.stepsTo q < f.reach e) := fun hbetween =>
      hq ((hcovers f List.mem_concat_self).2 hbetween)
    refine ⟨?_, ?_⟩
    · intro g hg hgq
      rcases List.mem_append.1 hg with hg | hg
      · -- What has been covered lies behind the cursor, and is not passed over.
        have hbehind : e.stepsTo q < furthest e delivered := by
          have hreach := (furthest_le_iff e delivered (furthest e delivered)).1 (Nat.le_refl _) g hg
          have hbetween := ((hcovers g (List.mem_append_left _ hg)).1 hgq).2
          omega
        rw [if_neg (by omega)]
        exact h.covered g hg hgq
      · rw [List.mem_singleton.1 hg] at hgq
        exact absurd hgq hq
    · intro hnone
      have hp' := h.passed fun g hg => hnone g (List.mem_append_left _ hg)
      have hbase : e.stepsTo f.base ≤ f.reach e := Nat.le_add_right _ _
      rw [furthest_concat]
      by_cases hpassed : furthest e delivered ≤ e.stepsTo q ∧ e.stepsTo q < e.stepsTo f.base
      · rw [if_neg (by omega)] at hp'
        rw [if_pos hpassed, if_pos (by omega), hp']
        rfl
      · rw [if_neg hpassed, hp']
        have hsame : e.stepsTo q < max (furthest e delivered) (f.reach e)
            ↔ e.stepsTo q < furthest e delivered := by omega
        simp only [hsame]
        rfl

theorem told_nil (e : SeqNum) (q : SeqNum) (p : SentPacket) : Told e [] q p p where
  covered _ hf := absurd hf List.not_mem_nil
  passed _ := (if_neg (Nat.not_lt_zero _)).symm

-- Two deliveries of the same feedback have made the same of a packet.
theorem Told.unique (e : SeqNum) (first second : List WholeInfo) (q : SeqNum)
    (p p' p'' : SentPacket) (hsame : ∀ f, f ∈ first ↔ f ∈ second) (hfirst : Told e first q p p')
    (hsecond : Told e second q p p'') : p' = p'' := by
  by_cases hcovered : ∃ f ∈ first, f.Covers q
  · rcases hcovered with ⟨f, hf, hq⟩
    rw [hfirst.covered f hf hq, hsecond.covered f ((hsame f).1 hf) hq]
  · have hnone (f : WholeInfo) (hf : f ∈ first) : ¬ f.Covers q := fun hq => hcovered ⟨f, hf, hq⟩
    rw [hfirst.passed hnone, hsecond.passed fun f hf => hnone f ((hsame f).2 hf),
      furthest_congr e first second hsame]

-- What is known of a packet that a feedback reports received.
theorem Told.of_isReceived (e : SeqNum) (delivered : List WholeInfo) (p p' : SentPacket)
    (f : WholeInfo) (hf : f ∈ delivered) (r : Reception) (hr : r ∈ f.own)
    (h : Told e delivered r.seq p p') (hreceived : r.status.isReceived = true) :
    p' = { p with arrival := r.arrival.or p.arrival, lost := false } := by
  have hcovers := (f.mem_own_iff r.seq).1 (List.mem_map_of_mem hr)
  rw [h.covered f hf hcovers, Reception.filter_seq_of_mem f.own f.nodup_own r hr]
  exact p.apply_of_isReceived r.status r.arrival hreceived

-- What is known of a packet that no feedback reports received. Those that cover
-- it and those that do not have the same to say about it.
theorem Told.of_not_isReceived (e : SeqNum) (delivered : List WholeInfo) (q : SeqNum)
    (p p' : SentPacket) (h : Told e delivered q p p')
    (hnear : ∀ f ∈ delivered, f.reach e < 32768)
    (hnone : ∀ f ∈ delivered, ∀ r ∈ f.own, r.seq = q → r.status.isReceived = false) :
    p' = if e.stepsTo q < furthest e delivered ∧ p.arrival = none then { p with lost := true }
      else p := by
  have hmissed (status : Status) (arrival : Option Duration) (hstatus : status.isReceived = false)
      (hbehind : e.stepsTo q < furthest e delivered) :
      p.apply status arrival
        = if e.stepsTo q < furthest e delivered ∧ p.arrival = none then { p with lost := true }
          else p := by
    rw [p.apply_of_not_isReceived status arrival (by rw [hstatus]; decide)]
    simp only [hbehind, true_and]
  by_cases hcovered : ∃ f ∈ delivered, f.Covers q
  · rcases hcovered with ⟨f, hf, hq⟩
    rcases f.exists_filter_own q hq with ⟨r, hr, hseq, hfilter⟩
    have hreach := (furthest_le_iff e delivered _).1 (Nat.le_refl _) f hf
    have hbetween := (f.covers_iff e q (Nat.le_trans (Nat.le_of_lt (hnear f hf)) (by decide))).1 hq
    rw [h.covered f hf hq, hfilter]
    exact hmissed r.status r.arrival (hnone f hf r hr hseq) (by omega)
  · rw [h.passed fun f hf hq => hcovered ⟨f, hf, hq⟩]
    by_cases hbehind : e.stepsTo q < furthest e delivered
    · rw [if_pos hbehind]
      exact hmissed .notReceived none rfl hbehind
    · rw [if_neg hbehind, if_neg fun h => hbehind h.1]

namespace ReportReader

/-- A whole delivery: all of it is read, the cursor goes to the end of what
    reaches furthest, and each packet is told what concerns it. -/
theorem readAll_infos (e : SeqNum) (h : SendHistory) (delivered : List WholeInfo)
    (hnear : ∀ f ∈ delivered, f.reach e < 32768)
    (hdisjoint : ∀ f ∈ delivered, ∀ g ∈ delivered, f ≠ g → f.Disjoint g) :
    (∀ out ∈ (readAll ⟨some e⟩ h (delivered.map WholeInfo.info)).1, ∃ report, out = .ok report)
      ∧ ∃ rs, (readAll ⟨some e⟩ h (delivered.map WholeInfo.info)).2
          = (⟨some (e.advance (furthest e delivered))⟩, h.applyAll rs)
        ∧ ∀ q p, Told e delivered q p (p.applyAll (rs.filter (·.seq = q))) := by
  induction delivered using List.reverseRecOn with
  | nil =>
      refine ⟨fun out hout => absurd hout List.not_mem_nil, [], ?_, fun q p => told_nil e q p⟩
      rw [furthest, List.foldl_nil, SeqNum.advance_zero]
      rfl
  | append_singleton delivered f ih =>
      rcases ih (fun g hg => hnear g (List.mem_append_left _ hg)) (fun g hg g' hg' =>
        hdisjoint g (List.mem_append_left _ hg) g' (List.mem_append_left _ hg'))
        with ⟨hall, rs, hstate, htold⟩
      have hfurthest : furthest e delivered ≤ 32767 := by
        rw [furthest_le_iff]
        intro g hg
        exact Nat.le_of_lt_succ (hnear g (List.mem_append_left _ hg))
      rcases read_info ⟨some (e.advance (furthest e delivered))⟩ (h.applyAll rs) f with
        ⟨report, hread, _⟩
      rw [moveTo_reach e _ f (Nat.lt_succ_of_le hfurthest) (hnear f List.mem_concat_self),
        ← furthest_concat] at hread
      rw [List.map_append, List.map_singleton, readAll_append, hstate]
      simp only [readAll, hread]
      refine ⟨?_, rs ++ (passed ⟨some (e.advance (furthest e delivered))⟩ f.base ++ f.own), ?_, ?_⟩
      · intro out hout
        rcases List.mem_append.1 hout with hout | hout
        · exact hall out hout
        · exact ⟨report, List.mem_singleton.1 hout⟩
      · simp only [SendHistory.applyAll, List.foldl_append]
      · intro q p
        rw [List.filter_append, SentPacket.applyAll_append]
        exact (htold q p).deliver e delivered f q p _ hnear fun g hg =>
          hdisjoint g (List.mem_append_left _ hg) f List.mem_concat_self

/-- After one feedback has been read, with the cursor at `e` behind it, it makes
    no difference in which order others are delivered, and how often, if their
    ranges are disjoint and less than half a turn ahead of the cursor.

    All of them are read. The cursor goes to the end of the furthest range. A
    packet that a feedback reports received is received, with the time that this
    feedback gives. A packet that none reports received is lost if its number
    lies before the cursor, unless it has been received earlier. -/
theorem readAll_eq_of_mem_iff (e : SeqNum) (h : SendHistory) (feedbacks : List WholeInfo)
    (hdisjoint : feedbacks.Pairwise WholeInfo.Disjoint)
    (hnear : ∀ f ∈ feedbacks, e.stepsTo f.base + f.declared.toNat ≤ 32767)
    (first second : List WholeInfo) (hfirst : ∀ f, f ∈ first ↔ f ∈ feedbacks)
    (hsecond : ∀ f, f ∈ second ↔ f ∈ feedbacks) :
    (readAll ⟨some e⟩ h (first.map WholeInfo.info)).2
        = (readAll ⟨some e⟩ h (second.map WholeInfo.info)).2
      ∧ (∀ out ∈ (readAll ⟨some e⟩ h (first.map WholeInfo.info)).1, ∃ report, out = .ok report)
      ∧ (readAll ⟨some e⟩ h (first.map WholeInfo.info)).2.1
        = ⟨some (e.advance (furthest e feedbacks))⟩
      ∧ ∀ q p, h.get? q = some p →
        ∃ p', (readAll ⟨some e⟩ h (first.map WholeInfo.info)).2.2.get? q = some p'
          ∧ (∀ f ∈ feedbacks, ∀ r ∈ f.own, r.seq = q → r.status.isReceived = true →
            p' = { p with arrival := r.arrival.or p.arrival, lost := false })
          ∧ ((∀ f ∈ feedbacks, ∀ r ∈ f.own, r.seq = q → r.status.isReceived = false) →
            p' = if e.stepsTo q < furthest e feedbacks ∧ p.arrival = none then
              { p with lost := true } else p) := by
  have hsymmetric : Std.Symm WholeInfo.Disjoint := ⟨fun f g hfg q hq => hfg q hq.symm⟩
  have hdelivery (delivered : List WholeInfo) (hmem : ∀ f, f ∈ delivered ↔ f ∈ feedbacks) :=
    readAll_infos e h delivered (fun f hf => Nat.lt_succ_of_le (hnear f ((hmem f).1 hf)))
      fun f hf g hg => hdisjoint.forall ((hmem f).1 hf) ((hmem g).1 hg)
  rcases hdelivery first hfirst with ⟨hall, rs, hstate, htold⟩
  rcases hdelivery second hsecond with ⟨_, ss, hstate', htold'⟩
  have hsame (f : WholeInfo) : f ∈ first ↔ f ∈ second := (hfirst f).trans (hsecond f).symm
  rw [hstate, hstate', furthest_congr e first second hsame,
    ← furthest_congr e second feedbacks hsecond]
  refine ⟨?_, hall, rfl, ?_⟩
  · rw [h.applyAll_congr rs ss fun q p _ => Told.unique e first second q p _ _ hsame (htold q p)
      (htold' q p)]
  · intro q p hp
    refine ⟨_, by rw [h.get?_applyAll, hp, Option.map_some], ?_, ?_⟩
    · intro f hf r hr hseq hreceived
      have htoldq := htold q p
      rw [← hseq] at htoldq ⊢
      exact htoldq.of_isReceived e first p _ f ((hfirst f).2 hf) r hr hreceived
    · intro hnone
      rw [← furthest_congr e first second hsame]
      exact (htold q p).of_not_isReceived e first q p _
        (fun f hf => Nat.lt_succ_of_le (hnear f ((hfirst f).1 hf)))
        fun f hf => hnone f ((hfirst f).1 hf)

-- Two feedbacks around the end of the circle, the later one delivered first and
-- again at the end. Of the packets 65535, 0 and 1, all of which are passed over
-- at first, the second one has arrived, and no feedback is about the third.
theorem readAll_later_first :
    ∃ f g : WholeInfo, f.info = [255, 254, 0, 3, 0, 0, 1, 0, 168, 0, 4, 8]
      ∧ g.info = [0, 2, 0, 2, 0, 0, 1, 1, 176, 0, 1, 1]
      ∧ [f, g].Pairwise WholeInfo.Disjoint
      ∧ (∀ x ∈ [f, g], SeqNum.stepsTo 65533 x.base + x.declared.toNat ≤ 32767)
      ∧ ∃ h : SendHistory, h.toList = [⟨65535, ⟨5⟩, 100, none, none, false⟩,
          ⟨0, ⟨6⟩, 100, none, none, false⟩, ⟨1, ⟨7⟩, 100, none, none, false⟩]
        ∧ (readAll ⟨some 65533⟩ h ([g, f, g].map WholeInfo.info)).2
          = (readAll ⟨some 65533⟩ h ([f, g].map WholeInfo.info)).2
        ∧ (readAll ⟨some 65533⟩ h ([g, f, g].map WholeInfo.info)).2.1 = ⟨some 4⟩
        ∧ (readAll ⟨some 65533⟩ h ([g, f, g].map WholeInfo.info)).2.2.get? 0
          = some ⟨0, ⟨6⟩, 100, none, some ⟨67000000⟩, false⟩
        ∧ (readAll ⟨some 65533⟩ h ([g, f, g].map WholeInfo.info)).2.2.get? 1
          = some ⟨1, ⟨7⟩, 100, none, none, true⟩ := by
  let f : WholeInfo := ⟨65534, 3, 1, 0, [168, 0, 4, 8], by decide, by decide, by decide, by decide⟩
  let g : WholeInfo := ⟨2, 2, 1, 1, [176, 0, 1, 1], by decide, by decide, by decide, by decide⟩
  have hdisjoint : [f, g].Pairwise WholeInfo.Disjoint := by
    rw [List.pairwise_pair]
    rintro q ⟨hf, hg⟩
    rw [WholeInfo.Covers, SeqNum.stepsTo, UInt16.toNat_sub] at hf hg
    have hfdeclared : f.declared.toNat = 3 := rfl
    have hgdeclared : g.declared.toNat = 2 := rfl
    have hfbase : f.base.toNat = 65534 := rfl
    have hgbase : g.base.toNat = 2 := rfl
    omega
  have hnear : ∀ x ∈ [f, g], SeqNum.stepsTo 65533 x.base + x.declared.toNat ≤ 32767 := by decide
  have hfirst : ∀ x, x ∈ [g, f, g] ↔ x ∈ [f, g] := by
    intro x
    simp only [List.mem_cons, List.not_mem_nil, or_false]
    tauto
  rcases readAll_eq_of_mem_iff 65533
    ((((SendHistory.start 8).record 65535 ⟨5⟩ 100).send ⟨6⟩ 100).send ⟨7⟩ 100) [f, g] hdisjoint hnear
    [g, f, g] [f, g] hfirst (fun _ => Iff.rfl) with ⟨hsame, _, hcursor, hpackets⟩
  rcases hpackets 0 ⟨0, ⟨6⟩, 100, none, none, false⟩ rfl with ⟨p, hp, hreceived, _⟩
  rcases hpackets 1 ⟨1, ⟨7⟩, 100, none, none, false⟩ rfl with ⟨p', hp', _, hlost⟩
  have hend : SeqNum.advance 65533 (furthest 65533 [f, g]) = 4 := by decide
  rw [hend] at hcursor
  refine ⟨f, g, by decide, by decide, hdisjoint, hnear, _, rfl, hsame, hcursor, ?_, ?_⟩
  · rw [hp, hreceived f List.mem_cons_self ⟨0, .smallDelta, some ⟨67000000⟩⟩ (by decide) rfl rfl]
    rfl
  · rw [hp', hlost (by decide), if_pos ⟨by decide, rfl⟩]

end ReportReader

end Feedback

end VideoTransport

import VideoTransport.Proofs.Vp8.History
import VideoTransport.Proofs.Vp8.WithheldLosses

/-!
# Losses that are Known

A loss that shows in the stream itself is told once.

There are several places where a loss can show: an identifier that leaves a gap, a
frame that begins before the last one has ended, the rest of a frame that was
given up. All of them can show the same loss. So that it is told once, the
assembly keeps in mind whether one is known, and makes none up if so. This is a
`Switch`: the telling of any loss turns it on, and a frame that is given out, or a
call that breaks the stream off, turns it off.

The other half of it is that a loss held for the transport goes first. What shows
a loss then lets the held one pass and makes none up.

## Main definitions

* `Moment.isLoss`, `Moment.isMadeUp`, `Moment.clears`: What matters for what is known.
* `lossKnown`: Whether a loss is known.
* `Assembly.Reports`: A step goes along with what is known, and makes up only what is not.
* `Assembly.Notices`: A packet shows that something may be missing.

## Theorems

* `Assembly.reports_step`: Each event goes along with what is known.
* `Assembly.reports_history`: The assembly knows whether a loss is known, in any run.
* `Assembly.notices_of_mem`: A packet that tells of a loss has shown one.
* `Assembly.notices_of_made`: A loss is only made up with a packet that shows one.
* `Assembly.step_of_notices`: What shows a loss lets a held one pass, and tells of no other.
* `Receiver.madeUp_once`: A loss that shows in the stream is told once.
-/

namespace VideoTransport

namespace Vp8

namespace Moment

/-- A loss is told, whoever has noticed it. -/
def isLoss : Moment → Bool
  | .output (.packetLost _ _) => true
  | _ => false

/-- A loss is told that the transport has not reported. -/
def isMadeUp : Moment → Bool
  | .output (.packetLost .stream _) => true
  | _ => false

-- A loss that is made up is told.
theorem isLoss_of_isMadeUp (m : Moment) (h : m.isMadeUp = true) : m.isLoss = true := by
  cases m with
  | event e => exact absurd h Bool.false_ne_true
  | output o =>
      cases o with
      | packetLost origin r => rfl
      | _ => exact absurd h Bool.false_ne_true

/-- From here on another loss is news: a frame is given out, or a call breaks the
    stream off. -/
def clears : Moment → Bool
  | .output (.frame _) => true
  | .event .flush => true
  | .event .reset => true
  | _ => false

end Moment

/-- A loss has been told, and neither a frame has been given out nor has the stream
    been broken off since. -/
def lossKnown : Switch where
  turnsOn := Moment.isLoss
  turnsOff := Moment.clears

namespace Assembly

/-- A step goes along with what is known, and makes no loss up while one is. -/
abbrev Reports (a : Assembly) (r : Assembly × List Output) : Prop :=
  lossKnown.Takes Moment.isMadeUp false a.lossReported r.1.lossReported (r.2.map .output)

theorem reports_andThen (a : Assembly) (r : Assembly × List Output)
    (next : Assembly → Assembly × List Output) (h : a.Reports r)
    (hnext : r.1.Reports (next r.1)) : a.Reports (andThen r next) := by
  rw [Reports, andThen, List.map_append]
  exact lossKnown.takes_append _ _ _ _ _ _ _ h hnext

theorem reports_self (a : Assembly) : a.Reports (a, []) :=
  lossKnown.takes_nil _ _ _

theorem reports_releaseHeld (a : Assembly) : a.Reports (releaseHeld a) := by
  rw [releaseHeld]
  cases a.withheld with
  | none => exact reports_self a
  | some r => exact ⟨rfl, fun h => absurd h Bool.false_ne_true, trivial⟩

-- The only place where a loss is made up.
theorem reports_ensureReported (pts : Option Duration) (a : Assembly) :
    a.Reports (ensureReported pts a) := by
  unfold ensureReported
  by_cases hheld : a.withheld.isSome = true
  · rw [if_pos hheld]
    exact reports_releaseHeld { a with reportDue := false }
  · rw [if_neg hheld]
    by_cases hreported : a.lossReported = true
    · rw [if_pos hreported]
      exact ⟨rfl, trivial⟩
    · rw [if_neg hreported]
      cases pts with
      | none => exact ⟨rfl, trivial⟩
      | some time => exact ⟨rfl, fun _ => eq_false_of_ne_true hreported, trivial⟩

theorem reports_checkContinuity (s : Settings) (next : Option PictureId) (pts : Option Duration)
    (a : Assembly) : a.Reports (checkContinuity s next pts a) := by
  rw [checkContinuity]
  cases a.lastId with
  | none => exact reports_self a
  | some last =>
      simp only
      cases last.continuity next with
      | follows => exact ⟨rfl, trivial⟩
      | undecided => exact reports_releaseHeld a
      | gap =>
          simp only
          by_cases hhide : (a.withheld.isSome || s.hideIdGaps) = true
          · rw [if_pos hhide]
            exact reports_releaseHeld a
          · rw [if_neg hhide]
            exact reports_ensureReported pts a

theorem reports_settleLosses (s : Settings) (next : Option PictureId) (pts : Option Duration)
    (a : Assembly) : a.Reports (settleLosses s next pts a) := by
  unfold settleLosses
  by_cases hdue : a.reportDue = true
  · rw [if_pos hdue]
    refine reports_andThen a _ _ (reports_ensureReported pts a) ?_
    generalize (ensureReported pts a).1 = reported
    by_cases hreported : reported.lossReported = true
    · rw [if_pos hreported]
      exact reports_self reported
    · rw [if_neg hreported]
      exact reports_checkContinuity s next pts reported
  · rw [if_neg hdue]
    exact reports_checkContinuity s next pts a

theorem reports_openFrame (s : Settings) (next : Option PictureId) (pts : Option Duration)
    (a : Assembly) : a.Reports (openFrame s next pts a) := by
  rw [openFrame_eq]
  exact reports_settleLosses s next pts a.abandonFrame

theorem reports_stopHolding (a : Assembly) : a.Reports (stopHolding a) := by
  unfold stopHolding
  by_cases hholds : a.holdsLosses = true
  · rw [if_pos hholds]
    exact reports_andThen a _ _ (reports_releaseHeld a) ⟨rfl, trivial⟩
  · rw [if_neg hholds]
    exact reports_self a

theorem reports_tellDue (pts : Option Duration) (a : Assembly) : a.Reports (tellDue pts a) := by
  unfold tellDue
  by_cases hdue : a.reportDue = true
  · rw [if_pos hdue]
    exact reports_ensureReported pts a
  · rw [if_neg hdue]
    exact reports_self a

theorem reports_skipPacket (pts : Option Duration) (a : Assembly) :
    a.Reports (skipPacket pts a) := by
  rw [skipPacket_eq]
  exact reports_andThen a _ _ (reports_stopHolding a) (reports_tellDue pts _)

theorem reports_announce (format : Option Format) (a : Assembly) :
    a.Reports (announce format a) := by
  cases format with
  | none => exact reports_self a
  | some f =>
      rw [announce]
      by_cases hsame : a.currentFormat = some f
      · simp only [hsame, if_true]
        exact ⟨rfl, trivial⟩
      · simp only [hsame, if_false]
        refine ⟨?_, fun h => absurd h Bool.false_ne_true, trivial⟩
        exact (Bool.and_true a.lossReported).symm

-- A frame that is given out makes another loss news.
theorem reports_closeFrame (p : Packet) (id : Option PictureId) (data : List UInt8)
    (a : Assembly) : a.Reports (closeFrame p id data a) := by
  unfold closeFrame
  cases FrameHeader.parse data with
  | error err => exact ⟨rfl, trivial⟩
  | ok header =>
      have hannounce := reports_announce header.format { a with partialFrame := none }
      refine reports_andThen a _ _ hannounce ?_
      generalize (announce header.format { a with partialFrame := none }).1 = announced
      by_cases hawaits : announced.awaitsKeyframe = true
      · simp only [hawaits, if_true]
        exact ⟨(Bool.and_true announced.lossReported).symm,
          fun h => absurd h Bool.false_ne_true, trivial⟩
      · simp only [hawaits]
        exact ⟨(Bool.and_false announced.lossReported).symm,
          fun h => absurd h Bool.false_ne_true, trivial⟩

theorem reports_extendFrame (p : Packet) (d : Descriptor) (collected : List UInt8)
    (a : Assembly) : a.Reports (extendFrame p d collected a) := by
  unfold extendFrame
  by_cases hmarker : p.marker = true
  · simp only [hmarker, if_true]
    exact reports_closeFrame p d.pictureId (collected ++ p.payload.drop d.length)
      { a with
        partialFrame := some (collected ++ p.payload.drop d.length)
        lastId := d.pictureId }
  · rw [if_neg hmarker]
    exact ⟨rfl, trivial⟩

theorem reports_takeRest (p : Packet) (d : Descriptor) (a : Assembly) :
    a.Reports (takeRest p d a) := by
  unfold takeRest
  cases a.partialFrame with
  | some collected => exact reports_extendFrame p d collected a
  | none => exact reports_skipPacket p.pts a

theorem reports_takePart (s : Settings) (p : Packet) (d : Descriptor) (a : Assembly) :
    a.Reports (takePart s p d a) := by
  rw [takePart_eq]
  refine reports_andThen a _ _ ?_ (reports_takeRest p d _)
  by_cases hstarts : d.startsFrame = true
  · rw [if_pos hstarts]
    exact reports_openFrame s d.pictureId p.pts a
  · rw [if_neg hstarts]
    exact reports_self a

theorem lossReported_arrive (s : Settings) (p : Packet) (a : Assembly) :
    (arrive s p a).lossReported = a.lossReported := by
  rw [arrive]
  by_cases hbroken : p.discontinuous = true
  · rw [if_pos hbroken]
    rfl
  · rw [if_neg hbroken]

theorem reports_takePacket (s : Settings) (p : Packet) (a : Assembly) :
    a.Reports (step s a (.packet p)) := by
  cases hparse : Descriptor.parse p.payload with
  | error err =>
      rw [step_of_error s p a err hparse]
      exact ⟨lossReported_arrive s p a, trivial⟩
  | ok d =>
      rw [step_of_ok s p a d hparse, Reports, ← lossReported_arrive s p a]
      exact reports_takePart s p d (arrive s p a)

theorem reports_takeLoss (r : LossReport) (a : Assembly) : a.Reports (takeLoss r a) := by
  rw [takeLoss]
  by_cases hholds : a.holdsLosses = true
  · rw [if_pos hholds]
    exact ⟨rfl, trivial⟩
  · rw [if_neg hholds]
    exact ⟨rfl, fun h => absurd h Bool.false_ne_true, trivial⟩

/-- Whatever happens, the assembly goes along with what is known, and makes up
    only what is not. -/
theorem reports_step (s : Settings) (a : Assembly) (e : Event) :
    lossKnown.Takes Moment.isMadeUp false a.lossReported (step s a e).1.lossReported
      (.event e :: (step s a e).2.map .output) := by
  -- An event tells nothing itself. It is news only if it breaks the stream off.
  have hevent (known : Bool) (hmove : lossKnown.move a.lossReported (.event e) = known) :
      lossKnown.Takes Moment.isMadeUp false a.lossReported known [.event e] :=
    ⟨hmove.symm, fun hmade => absurd hmade Bool.false_ne_true, trivial⟩
  cases e with
  | packet p =>
      exact lossKnown.takes_append _ _ _ _ _ [_] _ (hevent _ (Bool.and_true _))
        (reports_takePacket s p a)
  | loss r =>
      exact lossKnown.takes_append _ _ _ _ _ [_] _ (hevent _ (Bool.and_true _))
        (reports_takeLoss r a)
  | flush => exact hevent false (Bool.and_false _)
  | reset => exact hevent false (Bool.and_false _)

/-- The assembly knows of a loss if one has been told in the history and nothing has
    made another one news since. -/
theorem reports_history (s : Settings) (events : List Event) :
    lossKnown.Takes Moment.isMadeUp false false (run s {} events).1.lossReported
      (history s {} events) :=
  lossKnown.takes_history _ _ lossReported s (reports_step s) events {}

/-- A packet shows that something may be missing. -/
inductive Notices (a : Assembly) : Event → Prop where
  /-- The first part of its frame is missing. -/
  | headless (p : Packet) (d : Descriptor) (parsed : Descriptor.parse p.payload = .ok d)
      (later : d.startsFrame = false) (idle : a.partialFrame = none ∨ p.discontinuous = true) :
      Notices a (.packet p)
  /-- It begins a frame before the one in progress has ended. -/
  | unfinished (p : Packet) (d : Descriptor) (parsed : Descriptor.parse p.payload = .ok d)
      (starts : d.startsFrame = true) (inProgress : a.partialFrame.isSome = true) :
      Notices a (.packet p)
  /-- It begins a frame after one that was given up. -/
  | givenUp (p : Packet) (d : Descriptor) (parsed : Descriptor.parse p.payload = .ok d)
      (starts : d.startsFrame = true) (due : a.reportDue = true) : Notices a (.packet p)
  /-- It begins a frame that is not known to follow on the last one. -/
  | apart (p : Packet) (d : Descriptor) (parsed : Descriptor.parse p.payload = .ok d)
      (starts : d.startsFrame = true) (last : PictureId) (lastId : a.lastId = some last)
      (gap : last.continuity d.pictureId ≠ .follows) : Notices a (.packet p)

theorem isMedia_extendFrame (p : Packet) (d : Descriptor) (collected : List UInt8) (a : Assembly)
    (o : Output) (ho : o ∈ (extendFrame p d collected a).2) : o.isMedia = true := by
  rcases extendFrame_cases p d collected a with ⟨hnil, _⟩ | ⟨formats, hformats, hended⟩
  · rw [hnil] at ho
    exact absurd ho List.not_mem_nil
  · have hlast (last : Output) (hlast : last.isMedia = true)
        (heq : (extendFrame p d collected a).2 = formats ++ [last]) : o.isMedia = true := by
      rw [heq] at ho
      rcases List.mem_append.1 ho with ho | ho
      · exact o.isMedia_of_isFormat (hformats o ho)
      · rw [List.mem_singleton.1 ho]
        exact hlast
    rcases hended with heq | ⟨f, heq, _⟩
    · exact hlast _ rfl heq
    · exact hlast _ rfl heq

-- A break and a packet only add to what is due.
theorem reportDue_abandonFrame_arrive (s : Settings) (p : Packet) (a : Assembly) :
    (arrive s p a).abandonFrame.reportDue = (a.reportDue || a.partialFrame.isSome) := by
  rw [arrive]
  by_cases hbroken : p.discontinuous = true
  · rw [if_pos hbroken]
    exact Bool.or_false _
  · rw [if_neg hbroken]
    rfl

theorem lastId_arrive (s : Settings) (p : Packet) (a : Assembly) :
    (arrive s p a).lastId = a.lastId := by
  rw [arrive]
  by_cases hbroken : p.discontinuous = true
  · rw [if_pos hbroken]
    rfl
  · rw [if_neg hbroken]

theorem idle_of_arrive (s : Settings) (p : Packet) (a : Assembly)
    (h : (arrive s p a).partialFrame = none) : a.partialFrame = none ∨ p.discontinuous = true := by
  rw [arrive] at h
  by_cases hbroken : p.discontinuous = true
  · exact Or.inr hbroken
  · rw [if_neg hbroken] at h
    exact Or.inl h

/-- A packet that tells of a loss has shown one. -/
theorem notices_of_mem (s : Settings) (p : Packet) (a : Assembly) (origin : LossOrigin)
    (r : LossReport) (h : .packetLost origin r ∈ (step s a (.packet p)).2) :
    a.Notices (.packet p) := by
  cases hparse : Descriptor.parse p.payload with
  | error err =>
      rw [step_of_error s p a err hparse] at h
      exact absurd h List.not_mem_nil
  | ok d =>
      rw [step_of_ok s p a d hparse, takePart_eq] at h
      by_cases hstarts : d.startsFrame = true
      · rw [if_pos hstarts, openFrame_eq, andThen] at h
        rcases List.mem_append.1 h with hsettled | hrest
        · by_cases hdue : (arrive s p a).abandonFrame.reportDue = true
          · rw [reportDue_abandonFrame_arrive, Bool.or_eq_true] at hdue
            rcases hdue with hdue | hprogress
            · exact .givenUp p d hparse hstarts hdue
            · exact .unfinished p d hparse hstarts hprogress
          · -- Nothing is due, so the identifiers have shown it.
            have hid : (arrive s p a).abandonFrame.lastId = a.lastId := lastId_arrive s p a
            simp only [settleLosses, if_neg hdue, checkContinuity, hid] at hsettled
            cases hlast : a.lastId with
            | none =>
                simp only [hlast] at hsettled
                exact absurd hsettled List.not_mem_nil
            | some last =>
                refine .apart p d hparse hstarts last hlast fun hfollows => ?_
                simp only [hlast, hfollows] at hsettled
                exact absurd hsettled List.not_mem_nil
        · exact absurd (isMedia_extendFrame p d [] _ _ hrest) Bool.false_ne_true
      · rw [if_neg hstarts] at h
        cases hpartial : (arrive s p a).partialFrame with
        | none =>
            exact .headless p d hparse (eq_false_of_ne_true hstarts) (idle_of_arrive s p a hpartial)
        | some collected =>
            simp only [andThen, takeRest, hpartial, List.nil_append] at h
            exact absurd (isMedia_extendFrame p d collected _ _ h) Bool.false_ne_true

/-- A loss is only made up with a packet that shows one. -/
theorem notices_of_made (s : Settings) (a : Assembly) (e : Event) (r : LossReport)
    (h : .packetLost .stream r ∈ (step s a e).2) : a.Notices e := by
  cases e with
  | packet p => exact notices_of_mem s p a .stream r h
  | loss r' =>
      rw [step, takeLoss] at h
      by_cases hholds : a.holdsLosses = true
      · rw [if_pos hholds] at h
        exact absurd h List.not_mem_nil
      · rw [if_neg hholds] at h
        cases List.mem_singleton.1 h
  | flush => exact absurd h List.not_mem_nil
  | reset => exact absurd h List.not_mem_nil

/-- What shows a loss while one is held lets the held one pass, and tells of no
    other. -/
theorem step_of_notices (s : Settings) (last : PictureId) (a : Assembly) (h : a.Holding last)
    (r : LossReport) (hheld : a.withheld = some r) (e : Event) (hnotices : a.Notices e) :
    ∃ more, (step s a e).2 = .packetLost .transport r :: more ∧ ∀ o ∈ more, o.isMedia = true := by
  have hself : a = { a with withheld := some r } := by
    rw [← hheld]
  -- Nothing is in progress or due, so a frame that begins has to be apart.
  have hbegins (p : Packet) (d : Descriptor) (hparse : Descriptor.parse p.payload = .ok d)
      (hstarts : d.startsFrame = true) (hgap : last.continuity d.pictureId ≠ .follows) :
      ∃ more, (step s a (.packet p)).2 = .packetLost .transport r :: more
        ∧ ∀ o ∈ more, o.isMedia = true := by
    have hopen := openFrame_of_not_follows s last (arrive s p a) d.pictureId p.pts
      (a.holding_arrive s last p h) hgap r
    rw [hself, step_of_ok s p _ d hparse, arrive_withheld, takePart_eq, if_pos hstarts, hopen]
    exact ⟨_, rfl, isMedia_extendFrame p d [] _⟩
  cases hnotices with
  | headless p d parsed later idle =>
      have hskip := skipPacket_of_holding last (arrive s p a) p.pts (a.holding_arrive s last p h) r
      have hrest := takeRest_of_none p d { arrive s p a with withheld := some r }
        (a.holding_arrive s last p h).idle
      refine ⟨[], ?_, fun o ho => absurd ho List.not_mem_nil⟩
      rw [hself, step_of_ok s p _ d parsed, arrive_withheld, takePart_eq,
        if_neg (ne_true_of_eq_false later), andThen, hrest, hskip]
      rfl
  | unfinished p d parsed starts inProgress =>
      rw [h.idle] at inProgress
      exact absurd inProgress Bool.false_ne_true
  | givenUp p d parsed starts due =>
      rw [h.notDue] at due
      exact absurd due Bool.false_ne_true
  | apart p d parsed starts other lastId gap =>
      rw [h.lastId_eq, Option.some.injEq] at lastId
      rw [← lastId] at gap
      exact hbegins p d parsed starts gap

end Assembly

-- Of a kind of which none has another before it, there is at most one.
theorem countP_le_one (kind : Moment → Bool) (h : List Moment)
    (hfirst : ∀ front m back, h = front ++ m :: back → kind m = true →
      ∀ q ∈ front, kind q = false) :
    h.countP kind ≤ 1 := by
  induction h with
  | nil => exact Nat.zero_le 1
  | cons m rest ih =>
      rw [List.countP_cons]
      by_cases hm : kind m = true
      · have hrest : rest.countP kind = 0 := by
          refine List.countP_eq_zero.2 fun q hq hkind => ?_
          rcases List.append_of_mem hq with ⟨front, back, rfl⟩
          have hnot := hfirst (m :: front) q back rfl hkind m List.mem_cons_self
          rw [hm] at hnot
          exact absurd hnot.symm Bool.false_ne_true
        rw [hrest, if_pos hm]
      · rw [if_neg hm]
        refine ih fun front q back heq hq q' hq' => ?_
        exact hfirst (m :: front) q back (congrArg (m :: ·) heq) hq q' (List.mem_cons_of_mem m hq')

namespace Receiver

-- Between a loss that is made up and one that was told before it, something has
-- made it news.
theorem exists_clears (s : Settings) (calls : List Call) (before between after : List Moment)
    (first made : Moment) (hfirst : first.isLoss = true) (hmade : made.isMadeUp = true)
    (h : history s calls = before ++ first :: (between ++ made :: after)) :
    ∃ m ∈ between, m.clears = true := by
  by_contra hnone
  have hquiet (m : Moment) (hm : m ∈ between) : m.clears = false := by
    rw [← Bool.not_eq_true]
    exact fun hclears => hnone ⟨m, hm, hclears⟩
  have hknown : lossKnown.after false (before ++ first :: between) = true :=
    (lossKnown.after_eq_true_iff _).2 ⟨before, first, between, rfl, hfirst, hquiet⟩
  have hfinds := (Assembly.reports_history s (events calls)).finds
  have hsplit : Assembly.history s {} (events calls)
      = (before ++ first :: between) ++ made :: after := by
    rw [List.append_assoc, List.cons_append]
    exact h
  rw [hsplit] at hfinds
  rw [lossKnown.after_of_finds Moment.isMadeUp false _ after made hfinds hmade] at hknown
  exact Bool.false_ne_true hknown

-- As long as nothing makes it news, none is told before one that is made up.
theorem isLoss_eq_false_of_quiet (s : Settings) (calls : List Call)
    (before front back after : List Moment) (made : Moment) (hmade : made.isMadeUp = true)
    (h : history s calls = before ++ ((front ++ made :: back) ++ after))
    (hquiet : ∀ m ∈ front, m.clears = false) (m : Moment) (hm : m ∈ front) : m.isLoss = false := by
  rw [← Bool.not_eq_true]
  intro hloss
  rcases List.append_of_mem hm with ⟨earlier, later, rfl⟩
  rcases exists_clears s calls (before ++ earlier) later (back ++ after) m made hloss hmade
    (by simp only [h, List.append_assoc, List.cons_append]) with ⟨news, hnews, hclears⟩
  rw [hquiet news (List.mem_append_right _ (List.mem_cons_of_mem m hnews))] at hclears
  exact Bool.false_ne_true hclears

-- A loss is held only behind a frame.
theorem exists_holding_of_withheld (s : Settings) (calls : List Call) (r : LossReport)
    (hheld : (assemblyAfter s calls).withheld = some r) :
    ∃ last, (assemblyAfter s calls).Holding last := by
  have hafter : (assemblyAfter s calls).HoldsAfterFrame := by
    rw [assemblyAfter, assembly_run]
    exact Assembly.holdsAfterFrame_run s _ _ (Assembly.holdsAfterFrame_of_idle _ rfl rfl rfl)
  exact Assembly.exists_holding _ hafter (hafter.held (by rw [hheld]; rfl))

/-- A loss that shows in the stream is told once.

    Between a loss that is made up and any loss that was told before it, whoever has
    noticed that one, a frame is given out or a call breaks the stream off. So as
    long as none of these happens, as it is between two frames in a row, one loss is
    made up at most, and only if none was told before it.

    A loss is only made up where a packet shows one and none is held. While a loss is
    held, a packet that shows one lets it pass, and nothing else is told of losses. -/
theorem madeUp_once (s : Settings) (calls : List Call) :
    (∀ before between after origin r r',
        history s calls = before ++ .output (.packetLost origin r)
          :: (between ++ .output (.packetLost .stream r') :: after) →
        ∃ m ∈ between, m.clears = true)
      ∧ (∀ before between after, history s calls = before ++ (between ++ after) →
        (∀ m ∈ between, m.clears = false) →
        between.countP Moment.isMadeUp ≤ 1
          ∧ ∀ front m back, between = front ++ m :: back → m.isMadeUp = true →
            ∀ q ∈ front, q.isLoss = false)
      ∧ (∀ e r, .packetLost .stream r ∈ ((assemblyAfter s calls).step s e).2 →
        (assemblyAfter s calls).Notices e ∧ (assemblyAfter s calls).withheld = none)
      ∧ ∀ e r, (assemblyAfter s calls).withheld = some r → (assemblyAfter s calls).Notices e →
        ∃ more, ((assemblyAfter s calls).step s e).2 = .packetLost .transport r :: more
          ∧ ∀ o ∈ more, o.isMedia = true := by
  refine ⟨fun before between after origin r r' h => ?_, fun before between after h hquiet => ?_,
    fun e r hmade => ?_, fun e r hheld hnotices => ?_⟩
  · exact exists_clears s calls before between after _ _ rfl rfl h
  · have hfirst (front : List Moment) (m : Moment) (back : List Moment)
        (hsplit : between = front ++ m :: back) (hm : m.isMadeUp = true) :
        ∀ q ∈ front, q.isLoss = false := by
      subst hsplit
      exact isLoss_eq_false_of_quiet s calls before front back after m hm h
        fun q hq => hquiet q (List.mem_append_left _ hq)
    refine ⟨countP_le_one _ _ fun front m back hsplit hm q hq => ?_, hfirst⟩
    rw [← Bool.not_eq_true]
    intro hmade
    have hloss := hfirst front m back hsplit hm q hq
    rw [q.isLoss_of_isMadeUp hmade] at hloss
    exact Bool.false_ne_true hloss.symm
  · have hnotices := Assembly.notices_of_made s (assemblyAfter s calls) e r hmade
    refine ⟨hnotices, ?_⟩
    cases hheld : (assemblyAfter s calls).withheld with
    | none => rfl
    | some held =>
        rcases exists_holding_of_withheld s calls held hheld with ⟨last, hlast⟩
        rcases Assembly.step_of_notices s last _ hlast held hheld e hnotices with
          ⟨more, heq, hmore⟩
        rw [heq] at hmade
        rcases List.mem_cons.1 hmade with hsame | hmem
        · cases hsame
        · exact absurd (hmore _ hmem) Bool.false_ne_true
  · rcases exists_holding_of_withheld s calls r hheld with ⟨last, hlast⟩
    exact Assembly.step_of_notices s last _ hlast r hheld e hnotices

-- Behind a keyframe with the identifier 127 come frames with 5 and with 9. Each gap
-- is told of, with a frame in between. A loss that is held goes first.
theorem madeUp_once_gaps :
    ∃ (calls : List Call) (e : Event) (r r' held : LossReport) (f f' : Frame)
      (before : List Moment),
      history {} (calls ++ [.handle e])
          = before ++ .output (.packetLost .stream r)
            :: ([.output (.frame f), .event e] ++ .output (.packetLost .stream r')
              :: [.output (.frame f')])
        ∧ (∃ m ∈ [Moment.output (.frame f), .event e], m.clears = true)
        ∧ [Moment.event e, .output (.packetLost .stream r')].countP Moment.isMadeUp ≤ 1
        ∧ .packetLost .stream r' ∈ ((assemblyAfter {} calls).step {} e).2
        ∧ (assemblyAfter {} calls).Notices e
        ∧ (assemblyAfter {} (calls ++ [.handle (.loss held)])).withheld = some held
        ∧ ∃ more, ((assemblyAfter {} (calls ++ [.handle (.loss held)])).step {} e).2
          = .packetLost .transport held :: more := by
  let keyframe : Packet :=
    ⟨[144, 128, 127, 16, 0, 0, 157, 1, 42, 64, 1, 240, 0], true, 1, 90, some ⟨10⟩, false⟩
  let second : Packet :=
    ⟨[144, 128, 5, 17, 0, 0, 0, 0, 0, 0, 0, 0, 0], true, 2, 180, some ⟨20⟩, false⟩
  let third : Packet :=
    ⟨[144, 128, 9, 17, 0, 0, 0, 0, 0, 0, 0, 0, 0], true, 3, 270, some ⟨30⟩, false⟩
  let d : Descriptor := ⟨false, true, 0, some (.narrow 9), none, none, false, 3⟩
  let calls : List Call := [.handle (.packet keyframe), .poll, .handle (.packet second)]
  let f : Frame :=
    ⟨[17, 0, 0, 0, 0, 0, 0, 0, 0, 0], false, none, 180, some ⟨20⟩, some (.narrow 5)⟩
  let f' : Frame :=
    ⟨[17, 0, 0, 0, 0, 0, 0, 0, 0, 0], false, none, 270, some ⟨30⟩, some (.narrow 9)⟩
  let key : Frame := ⟨[16, 0, 0, 157, 1, 42, 64, 1, 240, 0], true, some ⟨320, 240, 0⟩, 90,
    some ⟨10⟩, some (.narrow 127)⟩
  let r : LossReport := .inferred ⟨20⟩
  let r' : LossReport := .inferred ⟨30⟩
  let before : List Moment := [.event (.packet keyframe), .output (.formatChanged ⟨320, 240, 0⟩),
    .output (.frame key), .event (.packet second)]
  have hhistory : history {} (calls ++ [.handle (.packet third)])
      = before ++ .output (.packetLost .stream r)
        :: ([.output (.frame f), .event (.packet third)] ++ .output (.packetLost .stream r')
          :: [.output (.frame f')]) := by decide +kernel +revert
  have hmade : .packetLost .stream r' ∈ ((assemblyAfter {} calls).step {} (.packet third)).2 := by
    decide +kernel +revert
  have hall := madeUp_once {} (calls ++ [.handle (.packet third)])
  have hcalls := madeUp_once {} calls
  have hheld := madeUp_once {} (calls ++ [.handle (.loss ⟨⟨15⟩, ⟨5⟩, false⟩)])
  have hclears := hall.1 before [.output (.frame f), .event (.packet third)] [.output (.frame f')]
    .stream r r' hhistory
  refine ⟨calls, .packet third, r, r', ⟨⟨15⟩, ⟨5⟩, false⟩, f, f', before, hhistory, hclears, ?_,
    hmade, (hcalls.2.2.1 (.packet third) r' hmade).1, rfl, ?_⟩
  · refine (hall.2.1 (before ++ [.output (.packetLost .stream r), .output (.frame f)])
      [.event (.packet third), .output (.packetLost .stream r')] [.output (.frame f')]
      (hhistory.trans rfl) fun m hm => ?_).1
    rcases List.mem_cons.1 hm with rfl | hm
    · rfl
    · rw [List.mem_singleton.1 hm]
      rfl
  · have hnotices : (assemblyAfter {} (calls ++ [.handle (.loss ⟨⟨15⟩, ⟨5⟩, false⟩)])).Notices
        (.packet third) :=
      .apart third d rfl rfl (.narrow 5) rfl (by decide)
    rcases hheld.2.2.2 (.packet third) ⟨⟨15⟩, ⟨5⟩, false⟩ rfl hnotices with ⟨more, hmore, _⟩
    exact ⟨more, hmore⟩

end Receiver

end Vp8

end VideoTransport

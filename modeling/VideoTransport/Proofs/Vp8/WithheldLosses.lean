import VideoTransport.Proofs.Vp8.ReceiverRuns
import VideoTransport.Proofs.Vp8.UntoldLosses

/-!
# Losses That Are Held

What becomes of a loss that the transport reports: it is passed on once, or there
is a reason why it never is.

A loss is held only between a complete frame with an identifier and the next
packet that can be read. In between there is no frame in progress and no other
loss that is due, so the first packet that can be read finds the loss alone and
decides it. Nothing else gets in its way but another loss, which takes its place,
and a call that breaks the stream off.

Two reports with the same content cannot be told apart in the outputs. What is
said of one report is therefore said of all runs that have another report in its
place: it is passed on if the outputs of these runs differ in one place, which has
the report of each run, and it is not if they do not differ.

## Main definitions

* `Descriptor.FollowsOn`: A frame begins that shows that no picture is missing.
* `Withholds`: The events that keep a held loss from being passed on.
* `PassedOnOnce`, `NeverPassedOn`: What becomes of one report.
* `Assembly.HoldsAfterFrame`: When a loss can be held.
* `Assembly.Holding`: Losses are held, and the next packet decides.

## Theorems

* `Assembly.holdsAfterFrame_step`, `Assembly.holdsAfterFrame_run`: Losses are never held otherwise.
* `Assembly.step_of_unreadable`, `Assembly.step_of_followsOn`, `Assembly.step_of_not_followsOn`:
  What a packet does to a loss that is held.
* `Assembly.run_of_withholds`, `Assembly.run_of_not_withholds`: What events do to it.
* `Receiver.passedOnOnce_unless_keptBack`: What becomes of a loss, in any run.
-/

namespace VideoTransport

namespace Vp8

/-- The packet begins a frame that directly follows on the last one, by an
    identifier that is not narrower. -/
def Descriptor.FollowsOn (last : PictureId) (d : Descriptor) : Prop :=
  d.startsFrame = true ∧ ∃ next, d.pictureId = some next ∧ last.isJustBefore next = true
    ∧ (last.isWide = true → next.isWide = true)

theorem PictureId.continuity_eq_follows_iff (last : PictureId) (next : Option PictureId) :
    last.continuity next = .follows ↔ ∃ id, next = some id ∧ last.isJustBefore id = true
      ∧ (last.isWide = true → id.isWide = true) := by
  cases next with
  | none =>
      refine ⟨fun h => ?_, fun ⟨id, hid, _⟩ => ?_⟩
      · cases h
      · cases hid
  | some id =>
      simp only [PictureId.continuity, Option.some.injEq, exists_eq_left']
      cases last.isWide <;> cases id.isWide <;> cases last.isJustBefore id <;> decide

/-- What may come after a loss that is held, behind a frame with the identifier
    `last`, so that the loss is never passed on. -/
inductive Withholds (last : PictureId) : List Event → Prop where
  /-- Nothing that decides has come yet. -/
  | undecided : Withholds last []
  /-- A later loss takes its place. -/
  | replaced (r : LossReport) (rest : List Event) : Withholds last (.loss r :: rest)
  /-- The stream is flushed. -/
  | flushed (rest : List Event) : Withholds last (.flush :: rest)
  /-- The stream begins anew. -/
  | reset (rest : List Event) : Withholds last (.reset :: rest)
  /-- The next frame follows on the last one, so no picture is missing. -/
  | follows (p : Packet) (d : Descriptor) (rest : List Event)
      (parsed : Descriptor.parse p.payload = .ok d) (next : d.FollowsOn last) :
      Withholds last (.packet p :: rest)
  /-- A packet that cannot be read decides nothing. -/
  | unreadable (p : Packet) (e : DescriptorError) (rest : List Event)
      (unparsed : Descriptor.parse p.payload = .error e) (later : Withholds last rest) :
      Withholds last (.packet p :: rest)

/-- One report is passed on once, as it is: whichever it is, the outputs have it
    in one place, and differ in nothing else. -/
def PassedOnOnce (outputs : LossReport → List Output) : Prop :=
  ∃ earlier later, ∀ r, outputs r = earlier ++ .packetLost .transport r :: later

/-- One report is never passed on: whichever it is, the outputs are the same. -/
def NeverPassedOn (outputs : LossReport → List Output) : Prop :=
  ∀ r r', outputs r = outputs r'

namespace Assembly

/-- A loss is held only after a complete frame with an identifier, as long as no
    frame is in progress and no other loss is due. -/
structure HoldsAfterFrame (a : Assembly) : Prop where
  held : a.withheld.isSome = true → a.holdsLosses = true
  holding : a.holdsLosses = true → a.lastId.isSome = true ∧ a.reportDue = false
  collecting : a.partialFrame.isSome = true → a.holdsLosses = false ∧ a.reportDue = false

theorem withheld_eq_none (a : Assembly) (h : a.HoldsAfterFrame) (hnot : a.holdsLosses = false) :
    a.withheld = none := by
  cases hheld : a.withheld with
  | none => rfl
  | some r =>
      have hholds := h.held (by rw [hheld]; rfl)
      rw [hnot] at hholds
      exact absurd hholds Bool.false_ne_true

theorem partialFrame_eq_none (a : Assembly) (h : a.HoldsAfterFrame)
    (hholds : a.holdsLosses = true) : a.partialFrame = none := by
  cases hpartial : a.partialFrame with
  | none => rfl
  | some data =>
      have hnot := (h.collecting (by rw [hpartial]; rfl)).1
      rw [hholds] at hnot
      exact absurd hnot.symm Bool.false_ne_true

-- With no frame in progress it is enough that losses are not held.
theorem holdsAfterFrame_of_idle (a : Assembly) (hheld : a.withheld = none)
    (hnot : a.holdsLosses = false) (hidle : a.partialFrame = none) : a.HoldsAfterFrame := by
  refine ⟨fun h => ?_, fun h => ?_, fun h => ?_⟩
  · rw [hheld] at h
    exact absurd h Bool.false_ne_true
  · rw [hnot] at h
    exact absurd h Bool.false_ne_true
  · rw [hidle] at h
    exact absurd h Bool.false_ne_true

theorem holdsAfterFrame_abandonFrame (a : Assembly) (h : a.HoldsAfterFrame) :
    a.abandonFrame.HoldsAfterFrame where
  held := h.held
  holding hholds := by
    refine ⟨(h.holding hholds).1, ?_⟩
    rw [abandonFrame, (h.holding hholds).2, a.partialFrame_eq_none h hholds]
    rfl
  collecting hcollecting := absurd hcollecting Bool.false_ne_true

/-- Where a frame begins, what was held has been decided, and no loss is due. -/
theorem exists_openFrame (s : Settings) (next : Option PictureId) (pts : Option Duration)
    (a : Assembly) (h : a.HoldsAfterFrame) :
    ∃ reported, (openFrame s next pts a).1 = { a with
      partialFrame := some []
      withheld := none
      holdsLosses := false
      lossReported := reported
      reportDue := false } := by
  -- A loss can only be held if there is an identifier to compare with.
  have hlast : a.lastId = none → a.withheld = none := by
    intro hnone
    apply a.withheld_eq_none h
    rw [← Bool.not_eq_true]
    intro hholds
    have hid := (h.holding hholds).1
    rw [hnone] at hid
    exact absurd hid Bool.false_ne_true
  rcases a.abandonFrame.exists_settleLosses s next pts hlast with ⟨reported, hsettle⟩
  refine ⟨reported, ?_⟩
  rw [openFrame_eq, hsettle]
  rfl

/-- A packet without a frame leaves nothing behind that is held or due. -/
theorem exists_skipPacket (pts : Option Duration) (a : Assembly) (h : a.HoldsAfterFrame) :
    ∃ reported, (skipPacket pts a).1 = { a with
      withheld := none
      holdsLosses := false
      lossReported := reported
      reportDue := false } := by
  rcases a.exists_stopHolding (a.withheld_eq_none h) with ⟨known, hstop⟩
  rcases exists_tellDue pts (stopHolding a).1 (by rw [hstop]) with ⟨reported, htell⟩
  refine ⟨reported, ?_⟩
  rw [skipPacket_eq, andThen, htell, hstop]

theorem holdsAfterFrame_arrive (s : Settings) (p : Packet) (a : Assembly)
    (h : a.HoldsAfterFrame) : (arrive s p a).HoldsAfterFrame := by
  rw [arrive]
  by_cases hbroken : p.discontinuous = true
  · rw [if_pos hbroken]
    have habandoned := a.holdsAfterFrame_abandonFrame h
    exact ⟨habandoned.held, habandoned.holding, habandoned.collecting⟩
  · rw [if_neg hbroken]
    exact h

-- While a frame is in progress no loss is held or due, and its packets keep it so
-- up to the last one.
theorem holdsAfterFrame_extendFrame (p : Packet) (d : Descriptor) (collected : List UInt8)
    (a : Assembly) (hheld : a.withheld = none) (hholds : a.holdsLosses = false)
    (hdue : a.reportDue = false) :
    (extendFrame p d collected a).1.HoldsAfterFrame
      ∧ (extendFrame p d collected a).1.withheld = none := by
  unfold extendFrame
  by_cases hmarker : p.marker = true
  · simp only [hmarker, if_true]
    rcases exists_closeFrame p d.pictureId (collected ++ p.payload.drop d.length) { a with
      partialFrame := some (collected ++ p.payload.drop d.length)
      lastId := d.pictureId } with hclose | ⟨reported, awaits, format, hclose⟩
    · rw [hclose]
      exact ⟨holdsAfterFrame_of_idle _ hheld hholds rfl, hheld⟩
    · rw [hclose]
      refine ⟨⟨fun h => ?_, fun h => ⟨?_, hdue⟩, fun h => absurd h Bool.false_ne_true⟩, hheld⟩
      · rw [hheld] at h
        exact absurd h Bool.false_ne_true
      · simpa only [hholds, Bool.false_or] using h
  · rw [if_neg hmarker]
    refine ⟨⟨fun h => ?_, fun h => ?_, fun _ => ⟨hholds, hdue⟩⟩, hheld⟩
    · rw [hheld] at h
      exact absurd h Bool.false_ne_true
    · rw [hholds] at h
      exact absurd h Bool.false_ne_true

/-- After a packet that can be read, no loss is held. -/
theorem holdsAfterFrame_takePart (s : Settings) (p : Packet) (d : Descriptor) (a : Assembly)
    (h : a.HoldsAfterFrame) :
    (takePart s p d a).1.HoldsAfterFrame ∧ (takePart s p d a).1.withheld = none := by
  unfold takePart
  by_cases hstarts : d.startsFrame = true
  · rcases a.exists_openFrame s d.pictureId p.pts h with ⟨reported, hopen⟩
    simp only [hstarts, if_true, andThen, hopen]
    exact holdsAfterFrame_extendFrame p d [] _ rfl rfl rfl
  · simp only [hstarts, Bool.false_eq_true, if_false, andThen]
    cases hpartial : a.partialFrame with
    | some collected =>
        have hcollecting := h.collecting (by rw [hpartial]; rfl)
        exact holdsAfterFrame_extendFrame p d collected a
          (a.withheld_eq_none h hcollecting.1) hcollecting.1 hcollecting.2
    | none =>
        rcases a.exists_skipPacket p.pts h with ⟨reported, hskip⟩
        simp only [hskip]
        exact ⟨holdsAfterFrame_of_idle _ rfl rfl hpartial, trivial⟩

/-- Whatever happens, losses are held after complete frames only. -/
theorem holdsAfterFrame_step (s : Settings) (e : Event) (a : Assembly) (h : a.HoldsAfterFrame) :
    (step s a e).1.HoldsAfterFrame := by
  cases e with
  | packet p =>
      have harrive := a.holdsAfterFrame_arrive s p h
      cases hparse : Descriptor.parse p.payload with
      | error e =>
          rw [step_of_error s p a e hparse]
          exact holdsAfterFrame_abandonFrame _ harrive
      | ok d =>
          rw [step_of_ok s p a d hparse]
          exact (holdsAfterFrame_takePart s p d _ harrive).1
  | loss r =>
      rw [step, takeLoss]
      by_cases hholds : a.holdsLosses = true
      · rw [if_pos hholds]
        exact ⟨fun _ => hholds, h.holding, h.collecting⟩
      · rw [if_neg hholds]
        exact ⟨h.held, h.holding, h.collecting⟩
  | flush => exact holdsAfterFrame_of_idle _ rfl rfl rfl
  | reset => exact holdsAfterFrame_of_idle _ rfl rfl rfl

theorem holdsAfterFrame_run (s : Settings) (events : List Event) (a : Assembly)
    (h : a.HoldsAfterFrame) : (run s a events).1.HoldsAfterFrame := by
  induction events generalizing a with
  | nil => exact h
  | cons e rest ih => exact ih _ (a.holdsAfterFrame_step s e h)

/-- Losses are held behind a frame with the identifier `last`, and the next packet
    that can be read decides what becomes of them. -/
structure Holding (last : PictureId) (a : Assembly) : Prop where
  holds : a.holdsLosses = true
  lastId_eq : a.lastId = some last
  idle : a.partialFrame = none
  notDue : a.reportDue = false

theorem exists_holding (a : Assembly) (h : a.HoldsAfterFrame) (hholds : a.holdsLosses = true) :
    ∃ last, a.Holding last := by
  rcases Option.isSome_iff_exists.1 (h.holding hholds).1 with ⟨last, hlast⟩
  exact ⟨last, hholds, hlast, a.partialFrame_eq_none h hholds, (h.holding hholds).2⟩

section Holding

variable (s : Settings) (last : PictureId) (p : Packet) (a : Assembly)

theorem arrive_withheld (r : LossReport) :
    arrive s p { a with withheld := some r } = { arrive s p a with withheld := some r } := by
  unfold arrive
  by_cases hbroken : p.discontinuous = true
  · rw [if_pos hbroken, if_pos hbroken]
    rfl
  · rw [if_neg hbroken, if_neg hbroken]

theorem holding_abandonFrame (h : a.Holding last) : a.abandonFrame.Holding last := by
  refine ⟨h.holds, h.lastId_eq, rfl, ?_⟩
  rw [abandonFrame, h.notDue, h.idle]
  rfl

theorem holding_arrive (h : a.Holding last) : (arrive s p a).Holding last := by
  unfold arrive
  by_cases hbroken : p.discontinuous = true
  · rw [if_pos hbroken]
    have habandoned := a.holding_abandonFrame last h
    exact ⟨habandoned.holds, habandoned.lastId_eq, habandoned.idle, habandoned.notDue⟩
  · rw [if_neg hbroken]
    exact h

/-- A packet that cannot be read leaves a held loss where it is. -/
theorem step_of_unreadable (e : DescriptorError) (h : a.Holding last)
    (hparse : Descriptor.parse p.payload = .error e) :
    ∃ a', Holding last a' ∧ ∀ r, step s { a with withheld := some r } (.packet p)
      = ({ a' with withheld := some r }, []) := by
  refine ⟨(arrive s p a).abandonFrame, holding_abandonFrame last _ (a.holding_arrive s last p h),
    fun r => ?_⟩
  rw [step_of_error s p _ e hparse, arrive_withheld]
  rfl

-- No other loss is due, so the identifiers alone decide where a frame begins.
theorem openFrame_of_holding (next : Option PictureId) (pts : Option Duration)
    (h : a.Holding last) (r : LossReport) :
    openFrame s next pts { a with withheld := some r }
      = ({ (checkContinuity s next pts { a with withheld := some r }).1 with
          partialFrame := some []
          holdsLosses := false },
        (checkContinuity s next pts { a with withheld := some r }).2) := by
  have habandon : abandonFrame { a with withheld := some r } = { a with withheld := some r } := by
    simp only [abandonFrame, h.idle, h.notDue, Option.isSome_none, Bool.or_self]
  rw [openFrame_eq, habandon, settleLosses, if_neg (ne_true_of_eq_false h.notDue)]

/-- A frame that follows on the last one drops a held loss, and tells of none. -/
theorem openFrame_of_follows (next : Option PictureId) (pts : Option Duration)
    (h : a.Holding last) (hfollows : last.continuity next = .follows) (r : LossReport) :
    openFrame s next pts { a with withheld := some r }
      = ({ a with partialFrame := some [], withheld := none, holdsLosses := false }, []) := by
  have hcheck : checkContinuity s next pts { a with withheld := some r }
      = ({ a with withheld := none }, []) := by
    simp only [checkContinuity, h.lastId_eq, hfollows]
  rw [openFrame_of_holding s last a next pts h, hcheck]

/-- Any other frame lets a held loss pass, and tells of no other. -/
theorem openFrame_of_not_follows (next : Option PictureId) (pts : Option Duration)
    (h : a.Holding last) (hnot : last.continuity next ≠ .follows) (r : LossReport) :
    openFrame s next pts { a with withheld := some r }
      = ({ a with
          partialFrame := some []
          withheld := none
          holdsLosses := false
          lossReported := true }, [.packetLost .transport r]) := by
  have hcheck : checkContinuity s next pts { a with withheld := some r }
      = ({ a with withheld := none, lossReported := true }, [.packetLost .transport r]) := by
    simp only [checkContinuity, h.lastId_eq]
    cases hcontinuity : last.continuity next with
    | follows => exact absurd hcontinuity hnot
    | undecided => rfl
    | gap => rfl
  rw [openFrame_of_holding s last a next pts h, hcheck]

/-- A packet without a frame lets a held loss pass, and tells of no other. -/
theorem skipPacket_of_holding (pts : Option Duration) (h : a.Holding last) (r : LossReport) :
    skipPacket pts { a with withheld := some r }
      = ({ a with withheld := none, holdsLosses := false, lossReported := true },
        [.packetLost .transport r]) := by
  simp only [skipPacket, h.holds, h.notDue, if_true, Bool.false_eq_true, if_false, andThen,
    releaseHeld, reportLoss, List.append_nil]

-- What a packet that can be read does to a held loss, by what it says about the
-- pictures before it.
theorem takePart_of_followsOn (d : Descriptor) (h : a.Holding last) (hnext : d.FollowsOn last)
    (r r' : LossReport) :
    takePart s p d { a with withheld := some r }
      = takePart s p d { a with withheld := some r' } := by
  have hfollows : last.continuity d.pictureId = .follows :=
    (last.continuity_eq_follows_iff d.pictureId).2 hnext.2
  rw [takePart_eq, takePart_eq, if_pos hnext.1, if_pos hnext.1,
    openFrame_of_follows s last a _ _ h hfollows, openFrame_of_follows s last a _ _ h hfollows]

theorem takePart_of_not_followsOn (d : Descriptor) (h : a.Holding last)
    (hnot : ¬ d.FollowsOn last) :
    ∃ a' more, ∀ r, takePart s p d { a with withheld := some r }
      = (a', .packetLost .transport r :: more) := by
  by_cases hstarts : d.startsFrame = true
  · have hcontinuity : last.continuity d.pictureId ≠ .follows := fun hfollows =>
      hnot ⟨hstarts, (last.continuity_eq_follows_iff d.pictureId).1 hfollows⟩
    let opened := takeRest p d { a with
      partialFrame := some [], withheld := none, holdsLosses := false, lossReported := true }
    refine ⟨opened.1, opened.2, fun r => ?_⟩
    rw [takePart_eq, if_pos hstarts, openFrame_of_not_follows s last a _ _ h hcontinuity]
    rfl
  · refine ⟨{ a with withheld := none, holdsLosses := false, lossReported := true }, [],
      fun r => ?_⟩
    have hrest := (takeRest_of_none p d { a with withheld := some r } h.idle).trans
      (skipPacket_of_holding last a p.pts h r)
    rw [takePart_eq, if_neg hstarts, andThen, hrest]
    rfl

/-- A frame that follows on the last one has a held loss forgotten. -/
theorem step_of_followsOn (d : Descriptor) (h : a.Holding last)
    (hparse : Descriptor.parse p.payload = .ok d) (hnext : d.FollowsOn last) (r r' : LossReport) :
    step s { a with withheld := some r } (.packet p)
      = step s { a with withheld := some r' } (.packet p) := by
  rw [step_of_ok s p _ d hparse, step_of_ok s p _ d hparse, arrive_withheld,
    arrive_withheld]
  exact takePart_of_followsOn s last p _ d (a.holding_arrive s last p h) hnext r r'

/-- Any other packet that can be read lets a held loss pass before all else that
    it causes. -/
theorem step_of_not_followsOn (d : Descriptor) (h : a.Holding last)
    (hparse : Descriptor.parse p.payload = .ok d) (hnot : ¬ d.FollowsOn last) :
    ∃ a' more, ∀ r, step s { a with withheld := some r } (.packet p)
      = (a', .packetLost .transport r :: more) := by
  rcases takePart_of_not_followsOn s last p _ d (a.holding_arrive s last p h) hnot with
    ⟨a', more, hpart⟩
  refine ⟨a', more, fun r => ?_⟩
  rw [step_of_ok s p _ d hparse, arrive_withheld]
  exact hpart r

/-- Events that keep a held loss back cause the same, whatever was reported. -/
theorem run_of_withholds (events : List Event) (h : a.Holding last)
    (hevents : Withholds last events) :
    NeverPassedOn fun r => (run s { a with withheld := some r } events).2 := by
  intro r r'
  induction hevents generalizing a with
  | undecided => rfl
  | replaced later rest =>
      have hstep (r : LossReport) : step s { a with withheld := some r } (.loss later)
          = ({ a with withheld := some later }, []) := if_pos h.holds
      simp only [run, hstep]
  | flushed rest => rfl
  | reset rest => rfl
  | follows p d rest parsed next =>
      simp only [run, a.step_of_followsOn s last p d h parsed next r r']
  | unreadable p e rest unparsed _ ih =>
      rcases a.step_of_unreadable s last p e h unparsed with ⟨a', hholding, hstep⟩
      simp only [run, hstep, andThen]
      exact ih a' hholding

/-- All other events pass a held loss on before all else that they cause, and
    cause nothing else that depends on it. -/
theorem run_of_not_withholds (events : List Event) (h : a.Holding last)
    (hevents : ¬ Withholds last events) :
    ∃ later, ∀ r, (run s { a with withheld := some r } events).2
      = .packetLost .transport r :: later := by
  induction events generalizing a with
  | nil => exact absurd .undecided hevents
  | cons e rest ih =>
      cases e with
      | loss r' => exact absurd (.replaced r' rest) hevents
      | flush => exact absurd (.flushed rest) hevents
      | reset => exact absurd (.reset rest) hevents
      | packet p =>
          cases hparse : Descriptor.parse p.payload with
          | error e =>
              rcases a.step_of_unreadable s last p e h hparse with ⟨a', hholding, hstep⟩
              rcases ih a' hholding fun hrest => hevents (.unreadable p e rest hparse hrest) with
                ⟨later, hlater⟩
              refine ⟨later, fun r => ?_⟩
              rw [run, hstep r, andThen, hlater r]
              rfl
          | ok d =>
              have hnot : ¬ d.FollowsOn last := fun hnext =>
                hevents (.follows p d rest hparse hnext)
              rcases a.step_of_not_followsOn s last p d h hparse hnot with ⟨a', more, hstep⟩
              refine ⟨more ++ (run s a' rest).2, fun r => ?_⟩
              rw [run, hstep r]
              rfl

end Holding

/-- A loss that is reported now is held, and what follows keeps it back. -/
def KeepsBack (a : Assembly) (events : List Event) : Prop :=
  ∃ last, a.Holding last ∧ Withholds last events

/-- A loss that is kept back is never passed on. -/
theorem run_loss_of_keepsBack (s : Settings) (a : Assembly) (events : List Event)
    (hkept : a.KeepsBack events) :
    NeverPassedOn fun r => (run s a (.loss r :: events)).2 := by
  rcases hkept with ⟨last, hholding, hevents⟩
  have hstep (r : LossReport) : step s a (.loss r) = ({ a with withheld := some r }, []) :=
    if_pos hholding.holds
  simp only [run, hstep, andThen, List.nil_append]
  exact a.run_of_withholds s last events hholding hevents

/-- A loss that is not kept back is passed on once. -/
theorem run_loss_of_not_keepsBack (s : Settings) (a : Assembly) (h : a.HoldsAfterFrame)
    (events : List Event) (hnot : ¬ a.KeepsBack events) :
    PassedOnOnce fun r => (run s a (.loss r :: events)).2 := by
  by_cases hholds : a.holdsLosses = true
  · rcases a.exists_holding h hholds with ⟨last, hholding⟩
    have hstep (r : LossReport) : step s a (.loss r) = ({ a with withheld := some r }, []) :=
      if_pos hholds
    rcases a.run_of_not_withholds s last events hholding fun hevents =>
      hnot ⟨last, hholding, hevents⟩ with ⟨later, hlater⟩
    refine ⟨[], later, fun r => ?_⟩
    simp only [run, hstep, andThen, hlater]
  · -- It is passed on at once.
    have hstep (r : LossReport) : step s a (.loss r)
        = ({ a with lossReported := true }, [.packetLost .transport r]) := if_neg hholds
    refine ⟨[], (run s { a with lossReported := true } events).2, fun r => ?_⟩
    simp only [run, hstep, andThen, List.singleton_append, List.nil_append]

end Assembly

namespace Receiver

/-- Where the assembly of a new receiver is after some calls. -/
def assemblyAfter (s : Settings) (calls : List Call) : Assembly :=
  ((start s).run calls).assembly

-- The outputs of a run in which a loss is reported at some point.
theorem outputs_loss (s : Settings) (calls later : List Call) (r : LossReport) :
    (start s).outputs (calls ++ .handle (.loss r) :: later)
      = (Assembly.run s {} (events calls)).2
        ++ (Assembly.run s (assemblyAfter s calls) (.loss r :: events later)).2 := by
  rw [outputs_eq, events_append, events, Assembly.run_append, assemblyAfter, assembly_run]
  rfl

/-- No loss that the transport reports is mislaid.

    A loss is held only after a complete frame with an identifier, while no frame
    is in progress and no other loss is due. After a packet that can be read none
    is held, and one that was held is the first thing that the packet causes to be
    told, unless the packet begins a frame that follows on the last one.

    Each loss is passed on once, unless it is held and kept back: by a loss that
    takes its place, by a frame that follows on the last one, by a flush or a reset,
    or because nothing that decides has come yet. Then it is never passed on. -/
theorem passedOnOnce_unless_keptBack (s : Settings) (calls : List Call) :
    (∀ r, (assemblyAfter s calls).withheld = some r →
        ∃ last, (assemblyAfter s calls).Holding last)
      ∧ (∀ p d, Descriptor.parse p.payload = .ok d →
        ((assemblyAfter s calls).step s (.packet p)).1.withheld = none
          ∧ ∀ r, (assemblyAfter s calls).withheld = some r →
            (∃ last, (assemblyAfter s calls).lastId = some last ∧ d.FollowsOn last)
              ∨ ∃ more, ((assemblyAfter s calls).step s (.packet p)).2
                = .packetLost .transport r :: more)
      ∧ ∀ later,
        ((assemblyAfter s calls).KeepsBack (events later) →
          NeverPassedOn fun r => (start s).outputs (calls ++ .handle (.loss r) :: later))
        ∧ (¬ (assemblyAfter s calls).KeepsBack (events later) →
          PassedOnOnce fun r => (start s).outputs (calls ++ .handle (.loss r) :: later)) := by
  have hafter : (assemblyAfter s calls).HoldsAfterFrame := by
    rw [assemblyAfter, assembly_run]
    exact Assembly.holdsAfterFrame_run s _ _ (Assembly.holdsAfterFrame_of_idle _ rfl rfl rfl)
  simp only [outputs_loss]
  generalize assemblyAfter s calls = a at hafter ⊢
  have hholding (r : LossReport) (hheld : a.withheld = some r) : ∃ last, a.Holding last :=
    a.exists_holding hafter (hafter.held (by rw [hheld]; rfl))
  refine ⟨hholding, fun p d hparse => ⟨?_, fun r hheld => ?_⟩, fun later => ⟨fun hkept => ?_,
    fun hnot => ?_⟩⟩
  · rw [a.step_of_ok s p d hparse]
    exact (Assembly.holdsAfterFrame_takePart s p d _ (a.holdsAfterFrame_arrive s p hafter)).2
  · rcases hholding r hheld with ⟨last, hlast⟩
    by_cases hnext : d.FollowsOn last
    · exact Or.inl ⟨last, hlast.lastId_eq, hnext⟩
    · rcases a.step_of_not_followsOn s last p d hlast hparse hnext with ⟨a', more, hstep⟩
      have hself : a = { a with withheld := some r } := by
        rw [← hheld]
      rw [hself, hstep r]
      exact Or.inr ⟨more, rfl⟩
  · intro r r'
    simp only [Assembly.run_loss_of_keepsBack s a (events later) hkept r r']
  · rcases Assembly.run_loss_of_not_keepsBack s a hafter (events later) hnot with
      ⟨earlier, more, hrun⟩
    refine ⟨(Assembly.run s {} (events calls)).2 ++ earlier, more, fun r => ?_⟩
    simp only [hrun r, List.append_assoc]

-- Behind a keyframe with the last of the narrow identifiers, a loss outlasts a
-- packet that cannot be read, and a frame that does not follow lets it pass. With
-- another loss in between, that one takes its place.
theorem passedOnOnce_unless_keptBack_gap :
    ∃ (calls later : List Call) (p : Packet) (d : Descriptor) (r : LossReport),
      Descriptor.parse p.payload = .ok d
      ∧ events later = [.packet ⟨[144], false, 2, 90, none, true⟩, .packet p]
      ∧ (assemblyAfter {} (calls ++ [.handle (.loss r)])).withheld = some r
      ∧ (∃ more, ((assemblyAfter {} (calls ++ [.handle (.loss r)])).step {} (.packet p)).2
        = .packetLost .transport r :: more)
      ∧ (PassedOnOnce fun r => (start {}).outputs (calls ++ .handle (.loss r) :: later))
      ∧ NeverPassedOn fun r' =>
        (start {}).outputs (calls ++ .handle (.loss r') :: .handle (.loss r) :: later) := by
  let keyframe : Packet :=
    ⟨[144, 128, 127, 16, 0, 0, 157, 1, 42, 64, 1, 240, 0], true, 1, 90, some ⟨10⟩, false⟩
  let broken : Packet := ⟨[144], false, 2, 90, none, true⟩
  let p : Packet := ⟨[144, 128, 5, 17, 0, 0, 0, 0], false, 9, 180, some ⟨20⟩, false⟩
  let d : Descriptor := ⟨false, true, 0, some (.narrow 5), none, none, false, 3⟩
  let r : LossReport := ⟨⟨15⟩, ⟨5⟩, false⟩
  have hparse : Descriptor.parse p.payload = .ok d := rfl
  have hbroken : Descriptor.parse broken.payload = .error ⟨1, 1⟩ := rfl
  have hnot : ¬ d.FollowsOn (.narrow 127) := by
    rintro ⟨_, next, hnext, hfollows, _⟩
    cases hnext
    exact absurd hfollows (by decide)
  have hafter := passedOnOnce_unless_keptBack {} ([.handle (.packet keyframe), .handle (.loss r)])
  have hbefore := passedOnOnce_unless_keptBack {} ([.handle (.packet keyframe)])
  have hholding : (assemblyAfter {} [.handle (.packet keyframe)]).Holding (.narrow 127) :=
    ⟨rfl, rfl, rfl, rfl⟩
  refine ⟨[.handle (.packet keyframe)], [.handle (.packet broken), .poll, .handle (.packet p)], p,
    d, r, hparse, rfl, rfl, ?_, (hbefore.2.2 _).2 ?_, (hbefore.2.2 _).1 ?_⟩
  · rcases (hafter.2.1 p d hparse).2 r rfl with ⟨last, hlast, hfollows⟩ | hmore
    · cases hlast
      exact absurd hfollows hnot
    · exact hmore
  · rintro ⟨last, hlast, hevents⟩
    have hsame : last = .narrow 127 :=
      Option.some.inj (hlast.lastId_eq.symm.trans hholding.lastId_eq)
    subst hsame
    cases hevents with
    | follows _ _ _ parsed _ => cases hbroken.symm.trans parsed
    | unreadable _ _ _ _ later =>
        cases later with
        | follows _ _ _ parsed next =>
            cases hparse.symm.trans parsed
            exact hnot next
        | unreadable _ _ _ unparsed _ => cases hparse.symm.trans unparsed
  · exact ⟨_, hholding, .replaced r _⟩

end Receiver

end Vp8

end VideoTransport

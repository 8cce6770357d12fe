import VideoTransport.Proofs.Vp8.Media
import VideoTransport.Proofs.Vp8.ReceiverRuns

/-!
# What Does Not Depend on Losses

The media that a receiver gives out do not depend on what is known of losses, and
the losses that it passes on do not depend on those that it finds by itself.

The first is a matter of the media machine, which sees no losses and reads one of
the two settings. For the second, two assemblies are compared that differ in
whether a loss has been reported: that is all that the other setting and the
losses found in the stream leave behind. It decides which of those are told, and
whether identifiers are compared after a frame that was given up. But by then a
loss that was held is out, so the comparison has nothing left to pass on or drop.

## Main definitions

* `Event.isLoss`, `Output.isInferred`: What is left out in a comparison.
* `Assembly.Alike`: Assemblies that differ in whether a loss has been reported.
* `Assembly.Agree`: Steps that lead to such assemblies, and pass on the same.

## Theorems

* `Media.run_filter`, `Media.run_settings`: Media do not depend on losses or on hidden gaps.
* `Assembly.agree_settleLosses`: Where a frame begins, the same is passed on.
* `Assembly.agree_step`, `Assembly.agree_run`: Events, and runs, agree.
* `Receiver.outputs_independent_of_losses`: Both, for the outputs of receivers.
-/

namespace VideoTransport

namespace Vp8

/-- The transport reports a loss. -/
def Event.isLoss : Event → Bool
  | .loss _ => true
  | _ => false

/-- A loss that nobody has reported, but that shows in the stream. -/
def Output.isInferred : Output → Bool
  | .packetLost .stream _ => true
  | _ => false

namespace Media

/-- Losses that are reported do not exist for media. -/
theorem run_filter (s : Settings) (m : Media) (events : List Event) :
    run s m (events.filter fun e => !e.isLoss) = run s m events := by
  induction events generalizing m with
  | nil => rfl
  | cons e rest ih =>
      cases e with
      | loss r =>
          rw [List.filter_cons_of_neg (by simp [Event.isLoss]), run]
          exact ih m
      | _ =>
          rw [List.filter_cons_of_pos (by simp [Event.isLoss]), run, run, ih]

/-- Of the settings, media only depend on what a break does. -/
theorem run_settings (s s' : Settings) (h : s.keyframeAfterBreak = s'.keyframeAfterBreak)
    (m : Media) (events : List Event) : run s m events = run s' m events := by
  have hstep (m : Media) (e : Event) : step s m e = step s' m e := by
    cases e with
    | packet p =>
        simp only [step, takePacket, breakOff, h]
    | _ => rfl
  induction events generalizing m with
  | nil => rfl
  | cons e rest ih => rw [run, run, hstep, ih]

end Media

namespace Assembly

/-- The assembly, with another answer to whether a loss has been reported. -/
def setReported (reported : Bool) (a : Assembly) : Assembly :=
  { a with lossReported := reported }

/-- Two assemblies differ at most in whether a loss has been reported. -/
def Alike (a b : Assembly) : Prop :=
  ∃ reported, b = a.setReported reported

/-- Two steps lead to assemblies that are alike, and give the same but for losses
    that they have found in the stream. -/
structure Agree (r r' : Assembly × List Output) : Prop where
  alike : r.1.Alike r'.1
  passedOn : (r.2.filter fun o => !o.isInferred) = r'.2.filter fun o => !o.isInferred

theorem alike_refl (a : Assembly) : a.Alike a :=
  ⟨a.lossReported, rfl⟩

theorem agree_refl (r : Assembly × List Output) : Agree r r :=
  ⟨alike_refl r.1, rfl⟩

theorem agree_symm (r r' : Assembly × List Output) (h : Agree r r') : Agree r' r := by
  rcases h with ⟨⟨reported, halike⟩, hout⟩
  refine ⟨⟨r.1.lossReported, ?_⟩, hout.symm⟩
  rw [halike]
  rfl

theorem agree_trans (r r' r'' : Assembly × List Output) (h : Agree r r') (h' : Agree r' r'') :
    Agree r r'' := by
  rcases h with ⟨⟨reported, halike⟩, hout⟩
  rcases h' with ⟨⟨reported', halike'⟩, hout'⟩
  refine ⟨⟨reported', ?_⟩, hout.trans hout'⟩
  rw [halike', halike]
  rfl

-- Steps that agree can be put in a row.
theorem agree_andThen (r r' : Assembly × List Output)
    (next next' : Assembly → Assembly × List Output) (h : Agree r r')
    (hnext : Agree (next r.1) (next' r'.1)) : Agree (andThen r next) (andThen r' next') := by
  refine ⟨hnext.alike, ?_⟩
  rw [andThen, andThen, List.filter_append, List.filter_append, h.passedOn, hnext.passedOn]

theorem agree_releaseHeld (a b : Assembly) (h : a.Alike b) :
    Agree (releaseHeld a) (releaseHeld b) := by
  rcases h with ⟨reported, rfl⟩
  rcases a.withheld.eq_none_or_eq_some with hheld | ⟨r, hheld⟩
  · rw [releaseHeld_of_none a hheld,
      releaseHeld_of_none (a.setReported reported) hheld]
    exact ⟨⟨reported, rfl⟩, rfl⟩
  · rw [releaseHeld_of_some a r hheld, releaseHeld_of_some (a.setReported reported) r hheld]
    exact agree_refl _

-- With no loss held, only one that is found in the stream can be told.
theorem agree_ensureReported_self (pts : Option Duration) (a : Assembly)
    (hheld : a.withheld = none) :
    Agree ({ a with reportDue := false }, []) (ensureReported pts a) := by
  simp only [ensureReported, hheld, Option.isSome_none, Bool.false_eq_true, if_false]
  by_cases hreported : a.lossReported = true
  · rw [if_pos hreported, ← hheld]
    exact ⟨alike_refl _, rfl⟩
  · rw [if_neg hreported, ← hheld]
    cases pts with
    | none => exact ⟨alike_refl _, rfl⟩
    | some time => exact ⟨⟨true, rfl⟩, rfl⟩

theorem agree_ensureReported (pts : Option Duration) (a b : Assembly) (h : a.Alike b) :
    Agree (ensureReported pts a) (ensureReported pts b) := by
  rcases h with ⟨reported, rfl⟩
  rcases a.withheld.eq_none_or_eq_some with hheld | ⟨r, hheld⟩
  · have hself := agree_ensureReported_self pts a hheld
    have hself' := agree_ensureReported_self pts (a.setReported reported) hheld
    refine agree_trans _ _ _ (agree_symm _ _ hself) (agree_trans _ _ _ ?_ hself')
    exact ⟨⟨reported, rfl⟩, rfl⟩
  · rw [ensureReported_of_some pts a r hheld,
      ensureReported_of_some pts (a.setReported reported) r hheld]
    exact agree_releaseHeld _ _ ⟨reported, rfl⟩

-- With no loss held, the identifiers can only show one that is found in the stream.
theorem agree_checkContinuity_self (s : Settings) (next : Option PictureId)
    (pts : Option Duration) (a : Assembly) (hheld : a.withheld = none)
    (hdue : a.reportDue = false) : Agree (a, []) (checkContinuity s next pts a) := by
  have hnone : { a with withheld := none } = a := by
    rw [← hheld]
  have hensure := agree_ensureReported_self pts a hheld
  have hnotDue : { a with reportDue := false } = a := by
    rw [← hdue]
  rw [hnotDue] at hensure
  rw [checkContinuity, hnone, releaseHeld_of_none a hheld]
  rcases a.lastId.eq_none_or_eq_some with hlast | ⟨last, hlast⟩
  · rw [hlast]
    exact agree_refl _
  · simp only [hlast]
    cases last.continuity next with
    | follows => exact agree_refl _
    | undecided => exact agree_refl _
    | gap =>
        simp only
        by_cases hrelease : (a.withheld.isSome || s.hideIdGaps) = true
        · rw [if_pos hrelease]
          exact agree_refl _
        · rw [if_neg hrelease]
          exact hensure

/-- The identifiers decide on a held loss in the same way, whatever the settings. -/
theorem agree_checkContinuity (s s' : Settings) (next : Option PictureId)
    (pts : Option Duration) (a b : Assembly) (h : a.Alike b) (hdue : a.reportDue = false) :
    Agree (checkContinuity s next pts a) (checkContinuity s' next pts b) := by
  rcases h with ⟨reported, rfl⟩
  rcases a.withheld.eq_none_or_eq_some with hheld | ⟨r, hheld⟩
  · have hself := agree_checkContinuity_self s next pts a hheld hdue
    have hself' :=
      agree_checkContinuity_self s' next pts (a.setReported reported) hheld hdue
    refine agree_trans _ _ _ (agree_symm _ _ hself) (agree_trans _ _ _ ?_ hself')
    exact ⟨⟨reported, rfl⟩, rfl⟩
  · have hsome : a.withheld.isSome = true := by
      rw [hheld]
      rfl
    have hrelease := agree_releaseHeld a (a.setReported reported) ⟨reported, rfl⟩
    have hsame : (a.setReported reported).lastId = a.lastId := rfl
    have hsome' : (a.setReported reported).withheld.isSome = true := hsome
    rw [checkContinuity, checkContinuity, hsame, hsome, hsome']
    simp only [Bool.true_or, if_true]
    rcases a.lastId.eq_none_or_eq_some with hlast | ⟨last, hlast⟩
    · rw [hlast]
      exact ⟨⟨reported, rfl⟩, rfl⟩
    · simp only [hlast]
      cases last.continuity next with
      | follows => exact ⟨⟨reported, rfl⟩, rfl⟩
      | undecided => exact hrelease
      | gap => exact hrelease

-- Behind a loss that was due, the identifiers have nothing to pass on or drop.
theorem agree_settleLosses_of_due (s : Settings) (next : Option PictureId)
    (pts : Option Duration) (a : Assembly) (hdue : a.reportDue = true) :
    Agree (ensureReported pts a) (settleLosses s next pts a) := by
  have hthen : Agree (andThen (ensureReported pts a) fun a => (a, []))
      (settleLosses s next pts a) := by
    rw [settleLosses, if_pos hdue]
    refine agree_andThen _ _ _ _ (agree_refl _) ?_
    rcases a.exists_ensureReported pts with ⟨known, hensure⟩
    rw [hensure]
    cases known with
    | true => exact agree_refl _
    | false => exact agree_checkContinuity_self s next pts _ rfl rfl
  rw [andThen, List.append_nil] at hthen
  exact hthen

/-- Where a frame begins, the same is passed on, whatever the settings. -/
theorem agree_settleLosses (s s' : Settings) (next : Option PictureId) (pts : Option Duration)
    (a b : Assembly) (h : a.Alike b) :
    Agree (settleLosses s next pts a) (settleLosses s' next pts b) := by
  have hsame : b.reportDue = a.reportDue := by
    rcases h with ⟨reported, rfl⟩
    rfl
  by_cases hdue : a.reportDue = true
  · refine agree_trans _ _ _ (agree_symm _ _ (agree_settleLosses_of_due s next pts a hdue)) ?_
    refine agree_trans _ _ _ (agree_ensureReported pts a b h) ?_
    exact agree_settleLosses_of_due s' next pts b (hsame.trans hdue)
  · rw [settleLosses, settleLosses, hsame, if_neg hdue, if_neg hdue]
    exact agree_checkContinuity s s' next pts a b h (eq_false_of_ne_true hdue)

theorem alike_abandonFrame (a b : Assembly) (h : a.Alike b) :
    a.abandonFrame.Alike b.abandonFrame := by
  rcases h with ⟨reported, rfl⟩
  exact ⟨reported, rfl⟩

theorem agree_openFrame (s s' : Settings) (next : Option PictureId) (pts : Option Duration)
    (a b : Assembly) (h : a.Alike b) :
    Agree (openFrame s next pts a) (openFrame s' next pts b) := by
  have hsettle := agree_settleLosses s s' next pts _ _ (alike_abandonFrame a b h)
  rw [openFrame_eq, openFrame_eq]
  refine ⟨?_, hsettle.passedOn⟩
  rcases hsettle.alike with ⟨reported, halike⟩
  refine ⟨reported, ?_⟩
  rw [halike]
  rfl

theorem agree_stopHolding (a b : Assembly) (h : a.Alike b) :
    Agree (stopHolding a) (stopHolding b) := by
  have hsame : b.holdsLosses = a.holdsLosses := by
    rcases h with ⟨reported, rfl⟩
    rfl
  rw [stopHolding, stopHolding, hsame]
  by_cases hholds : a.holdsLosses = true
  · rw [if_pos hholds, if_pos hholds]
    have hrelease := agree_releaseHeld a b h
    refine agree_andThen _ _ _ _ hrelease ?_
    rcases hrelease.alike with ⟨reported, halike⟩
    rw [halike]
    exact ⟨⟨reported, rfl⟩, rfl⟩
  · rw [if_neg hholds, if_neg hholds]
    exact ⟨h, rfl⟩

theorem agree_tellDue (pts : Option Duration) (a b : Assembly) (h : a.Alike b) :
    Agree (tellDue pts a) (tellDue pts b) := by
  have hsame : b.reportDue = a.reportDue := by
    rcases h with ⟨reported, rfl⟩
    rfl
  rw [tellDue, tellDue, hsame]
  by_cases hdue : a.reportDue = true
  · rw [if_pos hdue, if_pos hdue]
    exact agree_ensureReported pts a b h
  · rw [if_neg hdue, if_neg hdue]
    exact ⟨h, rfl⟩

theorem agree_skipPacket (pts : Option Duration) (a b : Assembly) (h : a.Alike b) :
    Agree (skipPacket pts a) (skipPacket pts b) := by
  have hstop := agree_stopHolding a b h
  rw [skipPacket_eq, skipPacket_eq]
  exact agree_andThen _ _ _ _ hstop (agree_tellDue pts _ _ hstop.alike)

-- The end of a frame does not look at losses at all.
theorem agree_closeFrame (p : Packet) (id : Option PictureId) (data : List UInt8)
    (a b : Assembly) (h : a.Alike b) : Agree (closeFrame p id data a) (closeFrame p id data b) := by
  rcases h with ⟨reported, rfl⟩
  unfold closeFrame
  cases FrameHeader.parse data with
  | error err => exact ⟨⟨reported, rfl⟩, rfl⟩
  | ok header =>
      simp only
      have hannounce : Agree (announce header.format { a with partialFrame := none })
          (announce header.format { a.setReported reported with partialFrame := none }) := by
        cases header.format with
        | none => exact ⟨⟨reported, rfl⟩, rfl⟩
        | some f => exact ⟨⟨reported, rfl⟩, rfl⟩
      refine agree_andThen _ _ _ _ hannounce ?_
      rcases hannounce.alike with ⟨known, halike⟩
      rw [halike]
      generalize (announce header.format { a with partialFrame := none }).1 = announced
      have hsame : (announced.setReported known).awaitsKeyframe = announced.awaitsKeyframe := rfl
      simp only [hsame]
      by_cases hawaits : announced.awaitsKeyframe = true
      · rw [if_pos hawaits, if_pos hawaits]
        exact ⟨⟨known, rfl⟩, rfl⟩
      · rw [if_neg hawaits, if_neg hawaits]
        exact ⟨⟨false, rfl⟩, rfl⟩

theorem agree_extendFrame (p : Packet) (d : Descriptor) (collected : List UInt8)
    (a b : Assembly) (h : a.Alike b) :
    Agree (extendFrame p d collected a) (extendFrame p d collected b) := by
  rcases h with ⟨reported, rfl⟩
  unfold extendFrame
  by_cases hmarker : p.marker = true
  · rw [if_pos hmarker, if_pos hmarker]
    exact agree_closeFrame p _ _ _ _ ⟨reported, rfl⟩
  · rw [if_neg hmarker, if_neg hmarker]
    exact ⟨⟨reported, rfl⟩, rfl⟩

theorem agree_takeRest (p : Packet) (d : Descriptor) (a b : Assembly) (h : a.Alike b) :
    Agree (takeRest p d a) (takeRest p d b) := by
  have hsame : b.partialFrame = a.partialFrame := by
    rcases h with ⟨reported, rfl⟩
    rfl
  rw [takeRest, takeRest, hsame]
  cases a.partialFrame with
  | none => exact agree_skipPacket p.pts a b h
  | some collected => exact agree_extendFrame p d collected a b h

theorem agree_takePart (s s' : Settings) (p : Packet) (d : Descriptor) (a b : Assembly)
    (h : a.Alike b) : Agree (takePart s p d a) (takePart s' p d b) := by
  rw [takePart_eq, takePart_eq]
  have hopen : Agree (if d.startsFrame then openFrame s d.pictureId p.pts a else (a, []))
      (if d.startsFrame then openFrame s' d.pictureId p.pts b else (b, [])) := by
    by_cases hstarts : d.startsFrame = true
    · rw [if_pos hstarts, if_pos hstarts]
      exact agree_openFrame s s' d.pictureId p.pts a b h
    · rw [if_neg hstarts, if_neg hstarts]
      exact ⟨h, rfl⟩
  refine agree_andThen _ _ _ _ hopen ?_
  exact agree_takeRest p d _ _ hopen.alike

section Run

variable (s s' : Settings) (hbreak : s.keyframeAfterBreak = s'.keyframeAfterBreak)
include hbreak

theorem alike_arrive (p : Packet) (a b : Assembly) (h : a.Alike b) :
    (arrive s p a).Alike (arrive s' p b) := by
  rcases h with ⟨reported, rfl⟩
  unfold arrive
  by_cases hdiscontinuous : p.discontinuous = true
  · rw [if_pos hdiscontinuous, if_pos hdiscontinuous, breakOff, breakOff, hbreak]
    exact ⟨reported, rfl⟩
  · rw [if_neg hdiscontinuous, if_neg hdiscontinuous]
    exact ⟨reported, rfl⟩

/-- One event agrees, whatever is known of losses and whether gaps are hidden. -/
theorem agree_step (e : Event) (a b : Assembly) (h : a.Alike b) :
    Agree (step s a e) (step s' b e) := by
  cases e with
  | packet p =>
      have harrive := alike_arrive s s' hbreak p a b h
      cases hparse : Descriptor.parse p.payload with
      | error e =>
          rw [step_of_error s p a e hparse, step_of_error s' p b e hparse]
          exact ⟨alike_abandonFrame _ _ harrive, rfl⟩
      | ok d =>
          rw [step_of_ok s p a d hparse, step_of_ok s' p b d hparse]
          exact agree_takePart s s' p d _ _ harrive
  | loss r =>
      rcases h with ⟨reported, rfl⟩
      have hsame : (a.setReported reported).holdsLosses = a.holdsLosses := rfl
      rw [step, step, takeLoss, takeLoss, hsame]
      by_cases hholds : a.holdsLosses = true
      · rw [if_pos hholds, if_pos hholds]
        exact ⟨⟨reported, rfl⟩, rfl⟩
      · rw [if_neg hholds, if_neg hholds]
        exact agree_refl _
  | flush =>
      rcases h with ⟨reported, rfl⟩
      exact agree_refl _
  | reset => exact agree_refl _

/-- Runs agree, whatever is known of losses and whether gaps are hidden. -/
theorem agree_run (events : List Event) (a b : Assembly) (h : a.Alike b) :
    Agree (run s a events) (run s' b events) := by
  induction events generalizing a b with
  | nil => exact ⟨h, rfl⟩
  | cons e rest ih =>
      have hstep := agree_step s s' hbreak e a b h
      refine agree_andThen _ _ _ _ hstep ?_
      exact ih _ _ hstep.alike

end Run

end Assembly

namespace Receiver

/-- What is known of losses, by reports or by the identifiers, has no influence on
    the media that are given out: they are the same if the packets, flushes and
    resets are the same. If the reports are also the same, then the same losses are
    passed on, each at the same place among the media, whether gaps are hidden or
    not. Only the losses that show in the stream depend on that. -/
theorem outputs_independent_of_losses (s s' : Settings)
    (hbreak : s.keyframeAfterBreak = s'.keyframeAfterBreak) (calls calls' : List Call)
    (hsame : (events calls).filter (fun e => !e.isLoss)
      = (events calls').filter fun e => !e.isLoss) :
    ((start s).outputs calls).filter Output.isMedia
        = ((start s').outputs calls').filter Output.isMedia
      ∧ (events calls = events calls' →
        ((start s).outputs calls).filter (fun o => !o.isInferred)
          = ((start s').outputs calls').filter fun o => !o.isInferred) := by
  rw [outputs_eq, outputs_eq]
  refine ⟨?_, fun hevents => ?_⟩
  · calc (Assembly.run s {} (events calls)).2.filter Output.isMedia
      _ = (Media.run s {} (events calls)).2 := (Assembly.media_run s {} (events calls)).2
      _ = (Media.run s {} (events calls')).2 := by
        rw [← Media.run_filter, hsame, Media.run_filter]
      _ = (Media.run s' {} (events calls')).2 := by
        rw [Media.run_settings s s' hbreak]
      _ = _ := (Assembly.media_run s' {} (events calls')).2.symm
  · rw [hevents]
    exact (Assembly.agree_run s s' hbreak (events calls') {} {} (Assembly.alike_refl _)).passedOn

-- A frame that does not follow shows a loss, unless gaps are hidden or the loss
-- has been reported. The frame before it is the same in all runs.
theorem outputs_independent_of_losses_gap :
    ∃ (keyframe next : Packet) (r : LossReport),
      let hidden : Settings := { hideIdGaps := true }
      let calls : List Call := [.handle (.packet keyframe), .handle (.packet next)]
      let told : List Call := [.handle (.packet keyframe), .handle (.loss r), .poll,
        .handle (.packet next)]
      (start {}).outputs calls ≠ (start hidden).outputs calls
        ∧ (start {}).outputs calls ≠ (start hidden).outputs told
        ∧ ((start {}).outputs calls).filter Output.isMedia
          = ((start hidden).outputs told).filter Output.isMedia
        ∧ ((start {}).outputs calls).filter (fun o => !o.isInferred)
          = ((start hidden).outputs calls).filter fun o => !o.isInferred := by
  let keyframe : Packet :=
    ⟨[144, 128, 127, 16, 0, 0, 157, 1, 42, 64, 1, 240, 0], true, 1, 90, some ⟨10⟩, false⟩
  let next : Packet := ⟨[144, 128, 5, 17, 0, 0, 0, 0], false, 9, 180, some ⟨20⟩, false⟩
  let calls : List Call := [.handle (.packet keyframe), .handle (.packet next)]
  let told : List Call := [.handle (.packet keyframe), .handle (.loss ⟨⟨15⟩, ⟨5⟩, false⟩), .poll,
    .handle (.packet next)]
  refine ⟨keyframe, next, ⟨⟨15⟩, ⟨5⟩, false⟩, by decide, by decide, ?_, ?_⟩
  · exact (outputs_independent_of_losses {} { hideIdGaps := true } rfl calls told rfl).1
  · exact (outputs_independent_of_losses {} { hideIdGaps := true } rfl calls calls rfl).2 rfl

end Receiver

end Vp8

end VideoTransport

import VideoTransport.Proofs.Vp8.FoundFrames
import VideoTransport.Proofs.Vp8.KnownLosses

/-!
# Frames that are Given Up

Data that is thrown away is always told of, in time.

The data of a frame is thrown away if a packet comes that cannot go on with it: one
behind a break, one that cannot be read, or the first one of another frame. It is
also thrown away if the frame ends too early. None of this is told at once, since a
loss needs a time and a packet that cannot be read may be all there is. Instead a
loss is due, and it stays due until a packet tells of it. A frame that is in progress
has to begin first, and no frame begins while a loss is due that is not told. So the
next frame that is given out comes too late to get in between.

A loss that is known already need not be told again. It has been told since the last
frame, and that is soon enough.

## Main definitions

* `Event.Timed`: The stream is not broken off, and packets have a time.
* `Discards`: Data of a frame is thrown away with an event, told from the events alone.
* `Assembly.Answers`: A loss is known, or will be told before another frame begins.
* `Assembly.Answered`: A step keeps it so, or gives out a frame behind a loss.

## Theorems

* `Assembly.answered_of_due`: What is due is told before a frame is given out.
* `Assembly.answered_of_discards`: Data that is thrown away makes a loss known or due.
* `Assembly.answered_step`: What is known or due stays so until a frame is given out.
* `Receiver.discard_told`: Around data that is thrown away, a loss is told.
-/

namespace VideoTransport

namespace Vp8

/-- The event does not break the stream off, and if it is a packet, it has a time. -/
def Event.Timed : Event → Prop
  | .packet p => p.pts.isSome = true
  | .loss _ => True
  | .flush => False
  | .reset => False

instance : DecidablePred Event.Timed
  | .packet p => inferInstanceAs (Decidable (p.pts.isSome = true))
  | .loss _ => .isTrue trivial
  | .flush => .isFalse not_false
  | .reset => .isFalse not_false

/-- Data of a frame is thrown away with an event. -/
inductive Discards (earlier : List Event) (e : Event) : Prop where
  /-- A group is open, and the event cannot go on with it. -/
  | brokenOff (g : List Event) (mem : g ∈ earlier.tails) (isOpen : isOpen g = true)
      (breaks : e.continues = false)
  /-- A group ends with the event, and its data is too short for a header. -/
  | tooShort (g : List Event) (mem : g ∈ (earlier ++ [e]).tails) (reaches : reaches g = true)
      (ends : e.ends = true) (short : (dataOf g).length < 10)

-- Up to the first frame, a list of outputs can be cut in one way only.
theorem exists_append_of_frame (first more between rest : List Output) (f : Frame)
    (h : first ++ more = between ++ .frame f :: rest) (hfirst : ∀ o ∈ first, o.frame? = none) :
    ∃ since, between = first ++ since ∧ more = since ++ .frame f :: rest := by
  rcases List.append_eq_append_iff.1 h with ⟨since, hbetween, hmore⟩ | ⟨tail, htail, hrest⟩
  · exact ⟨since, hbetween, hmore⟩
  · cases tail with
    | nil =>
        rw [List.append_nil] at htail
        exact ⟨[], by rw [htail, List.append_nil], hrest.symm⟩
    | cons o tail =>
        rw [List.cons_append, List.cons.injEq] at hrest
        have hframe := hfirst o (by rw [htail]; exact List.mem_append_right _ List.mem_cons_self)
        rw [← hrest.1] at hframe
        cases hframe

namespace Assembly

theorem reports_of_timed (s : Settings) (a : Assembly) (e : Event) (he : e.Timed) :
    a.Reports (step s a e) := by
  cases e with
  | packet p => exact reports_takePacket s p a
  | loss r => exact reports_takeLoss r a
  | flush => exact absurd he not_false
  | reset => exact absurd he not_false

theorem reports_run (s : Settings) (events : List Event) (htimed : ∀ e ∈ events, e.Timed)
    (a : Assembly) : a.Reports (run s a events) := by
  induction events generalizing a with
  | nil => exact reports_self a
  | cons e rest ih =>
      have hstep := reports_of_timed s a e (htimed e List.mem_cons_self)
      exact reports_andThen a _ _ hstep (ih (fun q hq => htimed q (List.mem_cons_of_mem e hq)) _)

section Due

variable (pts : Option Duration) (hpts : pts.isSome = true)
include hpts

-- A report that has to be made leaves the loss known.
theorem lossReported_ensureReported (a : Assembly) :
    (ensureReported pts a).1.lossReported = true := by
  rcases Option.isSome_iff_exists.1 hpts with ⟨time, rfl⟩
  cases hheld : a.withheld with
  | some r =>
      have hrelease := releaseHeld_of_some { a with reportDue := false } r hheld
      rw [ensureReported_of_some _ a r hheld, hrelease]
  | none =>
      simp only [ensureReported, hheld, Option.isSome_none, Bool.false_eq_true, if_false]
      by_cases hreported : a.lossReported = true
      · rw [if_pos hreported]
        exact hreported
      · rw [if_neg hreported]
        rfl

-- No frame begins while a loss is due that is not told.
theorem lossReported_openFrame (s : Settings) (next : Option PictureId) (a : Assembly)
    (hdue : a.abandonFrame.reportDue = true) :
    (openFrame s next pts a).1.lossReported = true := by
  have hensure := lossReported_ensureReported pts hpts a.abandonFrame
  rw [openFrame_eq]
  simp only [settleLosses, if_pos hdue, andThen, hensure, if_true]

theorem lossReported_skipPacket (a : Assembly) (hdue : a.reportDue = true) :
    (skipPacket pts a).1.lossReported = true := by
  have hstop : (stopHolding a).1.reportDue = true := by
    unfold stopHolding
    by_cases hholds : a.holdsLosses = true
    · rcases a.exists_releaseHeld with ⟨reported, hrelease⟩
      rw [if_pos hholds, andThen, hrelease]
      exact hdue
    · rw [if_neg hholds]
      exact hdue
  rw [skipPacket_eq, andThen, tellDue, if_pos hstop]
  exact lossReported_ensureReported pts hpts _

end Due

/-- A loss is known, or one is due and no frame is in progress. Then it is told
    before another frame begins. -/
def Answers (a : Assembly) : Prop :=
  a.lossReported = true ∨ a.partialFrame = none ∧ a.reportDue = true

/-- A step gives no frame out and leaves a loss known or due, or it gives out a frame
    when a loss is known. -/
def Answered (a : Assembly) (r : Assembly × List Output) : Prop :=
  ((∀ o ∈ r.2, o.frame? = none) ∧ r.1.Answers)
    ∨ ∃ before f, r.2 = before ++ [.frame f] ∧ (∀ o ∈ before, o.frame? = none)
      ∧ lossKnown.after a.lossReported (before.map .output) = true

-- As long as no frame is given out, a loss that is known stays known.
theorem after_of_no_frame (outputs : List Output) (h : ∀ o ∈ outputs, o.frame? = none) :
    lossKnown.after true (outputs.map .output) = true := by
  refine lossKnown.after_of_not_turnsOff _ fun m hm => ?_
  rcases List.mem_map.1 hm with ⟨o, ho, rfl⟩
  have hnone := h o ho
  cases o with
  | frame f => cases hnone
  | _ => rfl

theorem answered_of_reported (a : Assembly) (r : Assembly × List Output)
    (hreported : a.lossReported = true) (hreports : a.Reports r)
    (hframe : (∀ o ∈ r.2, o.frame? = none) ∨ EndsWithFrame r) : a.Answered r := by
  rcases hframe with hnone | ⟨before, f, heq, hbefore, _⟩
  · refine Or.inl ⟨hnone, Or.inl ?_⟩
    rw [hreports.next_eq, hreported]
    exact after_of_no_frame r.2 hnone
  · refine Or.inr ⟨before, f, heq, hbefore, ?_⟩
    rw [hreported]
    exact after_of_no_frame before hbefore

-- A step that gives no frame out may come before.
theorem answered_andThen (a : Assembly) (r : Assembly × List Output)
    (next : Assembly → Assembly × List Output) (hnone : ∀ o ∈ r.2, o.frame? = none)
    (hreports : a.Reports r) (hnext : r.1.Answered (next r.1)) : a.Answered (andThen r next) := by
  have hboth (outputs : List Output) (h : ∀ o ∈ outputs, o.frame? = none) (o : Output)
      (ho : o ∈ r.2 ++ outputs) : o.frame? = none := by
    rcases List.mem_append.1 ho with ho | ho
    · exact hnone o ho
    · exact h o ho
  rcases hnext with ⟨hnext, hanswers⟩ | ⟨before, f, heq, hbefore, hknown⟩
  · exact Or.inl ⟨hboth _ hnext, hanswers⟩
  · refine Or.inr ⟨r.2 ++ before, f, ?_, hboth before hbefore, ?_⟩
    · rw [andThen, heq, List.append_assoc]
    · rw [List.map_append, Switch.after_append, ← hreports.next_eq]
      exact hknown

theorem endsWithFrame_takeRest (p : Packet) (d : Descriptor) (a : Assembly) :
    (∀ o ∈ (takeRest p d a).2, o.frame? = none) ∨ EndsWithFrame (takeRest p d a) := by
  unfold takeRest
  cases a.partialFrame with
  | some collected => exact endsWithFrame_extendFrame p d collected a
  | none => exact Or.inl (frame?_of_quiet _ _ (quiet_skipPacket p.pts a))

-- If a packet that can be read cannot go on with a frame, none is in progress when
-- it is looked at.
theorem partialFrame_arrive (s : Settings) (p : Packet) (d : Descriptor) (a : Assembly)
    (hparse : Descriptor.parse p.payload = .ok d) (hlater : d.startsFrame = false)
    (hidle : (Event.packet p).continues = true → a.partialFrame = none) :
    (arrive s p a).partialFrame = none := by
  rw [arrive]
  by_cases hbroken : p.discontinuous = true
  · rw [if_pos hbroken]
    rfl
  · rw [if_neg hbroken]
    apply hidle
    simp only [Event.continues, hparse, eq_false_of_ne_true hbroken, hlater, Bool.not_false,
      Bool.and_self]

/-- What is due is told before a frame is given out. A frame in progress is due with
    a packet that cannot go on with it. -/
theorem answered_of_due (s : Settings) (p : Packet) (a : Assembly) (hpts : p.pts.isSome = true)
    (hdue : (a.reportDue || a.partialFrame.isSome) = true)
    (hidle : (Event.packet p).continues = true → a.partialFrame = none) :
    a.Answered (step s a (.packet p)) := by
  have habandoned : (arrive s p a).abandonFrame.reportDue = true := by
    rw [reportDue_abandonFrame_arrive]
    exact hdue
  cases hparse : Descriptor.parse p.payload with
  | error err =>
      rw [step_of_error s p a err hparse]
      exact Or.inl ⟨fun o ho => absurd ho List.not_mem_nil, Or.inr ⟨rfl, habandoned⟩⟩
  | ok d =>
      rw [step_of_ok s p a d hparse, takePart_eq, Answered, ← lossReported_arrive s p a]
      change (arrive s p a).Answered _
      by_cases hstarts : d.startsFrame = true
      · rw [if_pos hstarts]
        refine answered_andThen _ _ _ (frame?_of_quiet _ _ (shows_openFrame s _ _ _))
          (reports_openFrame s _ _ _) ?_
        exact answered_of_reported _ _
          (lossReported_openFrame p.pts hpts s d.pictureId _ habandoned) (reports_takeRest p d _)
          (endsWithFrame_takeRest p d _)
      · have hpartial :=
          partialFrame_arrive s p d a hparse (eq_false_of_ne_true hstarts) hidle
        have hreport : (arrive s p a).reportDue = true := by
          rw [abandonFrame, hpartial] at habandoned
          exact (Bool.or_false _).symm.trans habandoned
        rw [if_neg hstarts, andThen, takeRest_of_none p d _ hpartial]
        exact Or.inl ⟨frame?_of_quiet _ _ (quiet_skipPacket p.pts _),
          Or.inl (lossReported_skipPacket p.pts hpts _ hreport)⟩

/-- A loss that is known or due stays so until a frame is given out. -/
theorem answered_step (s : Settings) (a : Assembly) (e : Event) (he : e.Timed)
    (h : a.Answers) : a.Answered (step s a e) := by
  rcases h with hreported | ⟨hidle, hdue⟩
  · exact answered_of_reported a _ hreported (reports_of_timed s a e he) (frame_step s e a)
  · cases e with
    | packet p =>
        refine answered_of_due s p a he ?_ fun _ => hidle
        rw [hdue, Bool.true_or]
    | loss r =>
        rw [step, takeLoss]
        by_cases hholds : a.holdsLosses = true
        · rw [if_pos hholds]
          exact Or.inl ⟨fun o ho => absurd ho List.not_mem_nil, Or.inr ⟨hidle, hdue⟩⟩
        · rw [if_neg hholds]
          refine Or.inl ⟨fun o ho => ?_, Or.inl rfl⟩
          rw [List.mem_singleton.1 ho]
          rfl
    | flush => exact absurd he not_false
    | reset => exact absurd he not_false

-- Data that is too short for a header ends the frame, and nothing is given out.
theorem extendFrame_of_short (p : Packet) (d : Descriptor) (collected : List UInt8) (a : Assembly)
    (hmarker : p.marker = true) (hshort : (collected ++ p.payload.drop d.length).length < 10) :
    extendFrame p d collected a
      = ({ a with partialFrame := none, lastId := d.pictureId, reportDue := true }, []) := by
  cases hheader : FrameHeader.parse (collected ++ p.payload.drop d.length) with
  | ok header =>
      have hsized := (FrameHeader.parse_eq_ok_iff _).1 ⟨header, hheader⟩
      exact absurd hshort (Nat.not_lt.2 hsized)
  | error err => simp only [extendFrame, hmarker, if_true, closeFrame, hheader]

theorem answered_of_short (s : Settings) (p : Packet) (a : Assembly) (data : List UInt8)
    (hcollected : a.media.collected (.packet p) = some data) (hmarker : p.marker = true)
    (hshort : data.length < 10) : a.Answered (step s a (.packet p)) := by
  cases hparse : Descriptor.parse p.payload with
  | error err =>
      rw [Media.collected_of_error _ p err hparse] at hcollected
      cases hcollected
  | ok d =>
      have hclose (b : Assembly) (collected : List UInt8)
          (hdata : collected ++ p.payload.drop d.length = data) :
          b.Answered (extendFrame p d collected b) := by
        rw [extendFrame_of_short p d collected b hmarker (by rw [hdata]; exact hshort)]
        exact Or.inl ⟨fun o ho => absurd ho List.not_mem_nil, Or.inr ⟨rfl, rfl⟩⟩
      simp only [Media.collected, Event.opens, Event.continues, Event.part, hparse] at hcollected
      rw [step_of_ok s p a d hparse, takePart_eq, Answered, ← lossReported_arrive s p a]
      change (arrive s p a).Answered _
      by_cases hstarts : d.startsFrame = true
      · rw [if_pos hstarts, Option.some.injEq] at hcollected
        rw [if_pos hstarts]
        refine answered_andThen _ _ _ (frame?_of_quiet _ _ (shows_openFrame s _ _ _))
          (reports_openFrame s _ _ _) ?_
        rw [openFrame_eq]
        exact hclose _ [] hcollected
      · rw [if_neg hstarts] at hcollected ⊢
        by_cases hbroken : p.discontinuous = true
        · simp only [hbroken, Bool.not_true, Bool.false_and, Bool.false_eq_true, if_false]
            at hcollected
          cases hcollected
        · simp only [eq_false_of_ne_true hbroken, eq_false_of_ne_true hstarts, Bool.not_false,
            Bool.and_self, if_true] at hcollected
          rcases Option.map_eq_some_iff.1 hcollected with ⟨collected, hpartial, hdata⟩
          have hpartial' : (arrive s p a).partialFrame = some collected := by
            rw [arrive, if_neg hbroken]
            exact hpartial
          rw [andThen, takeRest, hpartial']
          exact hclose _ collected hdata

/-- Data that is thrown away makes a loss known or due. -/
theorem answered_of_discards (s : Settings) (earlier : List Event) (e : Event) (he : e.Timed)
    (h : Discards earlier e) :
    (run s {} earlier).1.Answered (step s (run s {} earlier).1 e) := by
  have hmedia : (run s {} earlier).1.media = (Media.run s {} earlier).1 :=
    (media_run s {} earlier).1
  cases h with
  | brokenOff g mem isOpen breaks =>
      have hopen : dataOf g ∈ (run s {} earlier).1.partialFrame.toList := by
        rw [show (run s {} earlier).1.partialFrame = (Media.run s {} earlier).1.partialFrame from
          congrArg Media.partialFrame hmedia, ← tails_open]
        exact List.mem_map_of_mem (List.mem_filter.2 ⟨mem, isOpen⟩)
      cases e with
      | packet p =>
          refine answered_of_due s p _ he ?_ fun hcontinues => ?_
          · rw [Option.isSome_iff_exists.2 ⟨dataOf g, Option.mem_toList.1 hopen⟩, Bool.or_true]
          · rw [breaks] at hcontinues
            exact absurd hcontinues Bool.false_ne_true
      | loss r => exact absurd breaks (Bool.false_ne_true ∘ Eq.symm)
      | flush => exact absurd he not_false
      | reset => exact absurd he not_false
  | tooShort g mem reaches ends short =>
      have hreaching := reaching_of_collected s earlier e
      have hmem := List.mem_filter.2 ⟨mem, reaches⟩
      cases e with
      | packet p =>
          cases hcollected : (Media.run s {} earlier).1.collected (.packet p) with
          | none =>
              rw [hcollected] at hreaching
              rw [hreaching] at hmem
              exact absurd hmem List.not_mem_nil
          | some data =>
              rw [hcollected] at hreaching
              rcases hreaching with ⟨g', hg', hdata, _⟩
              rw [hg', List.mem_singleton] at hmem
              rw [hmem, hdata] at short
              rw [← hmedia] at hcollected
              exact answered_of_short s p _ data hcollected ends short
      | _ => exact absurd ends Bool.false_ne_true

-- If a step has answered, a loss is known where the next frame is given out, by the
-- step itself or later.
theorem after_of_answered (a : Assembly) (r : Assembly × List Output) (hreports : a.Reports r)
    (hanswered : a.Answered r) (more between rest : List Output) (f : Frame)
    (h : r.2 ++ more = between ++ .frame f :: rest) (hbetween : ∀ o ∈ between, o.frame? = none)
    (hlater : r.1.Answers → ∀ since, more = since ++ .frame f :: rest →
      (∀ o ∈ since, o.frame? = none) →
      lossKnown.after r.1.lossReported (since.map .output) = true) :
    lossKnown.after a.lossReported (between.map .output) = true := by
  rcases hanswered with ⟨hnone, hanswers⟩ | ⟨before, f', heq, hbefore, hknown⟩
  · rcases exists_append_of_frame r.2 more between rest f h hnone with ⟨since, rfl, hmore⟩
    rw [List.map_append, Switch.after_append, ← hreports.next_eq]
    exact hlater hanswers since hmore fun o ho => hbetween o (List.mem_append_right _ ho)
  · rw [heq, List.append_assoc] at h
    rcases exists_append_of_frame before _ between rest f h hbefore with ⟨since, rfl, hmore⟩
    -- The frame of the step is the first one, so nothing lies between the two.
    cases since with
    | nil =>
        rw [List.append_nil]
        exact hknown
    | cons o since =>
        rw [List.singleton_append, List.cons_append, List.cons.injEq] at hmore
        have hframe := hbetween o (List.mem_append_right _ List.mem_cons_self)
        rw [← hmore.1] at hframe
        cases hframe

/-- A loss that is known or due is known where the next frame is given out. -/
theorem after_of_answers (s : Settings) (events : List Event) (htimed : ∀ e ∈ events, e.Timed)
    (a : Assembly) (hanswers : a.Answers) (between rest : List Output) (f : Frame)
    (h : (run s a events).2 = between ++ .frame f :: rest)
    (hbetween : ∀ o ∈ between, o.frame? = none) :
    lossKnown.after a.lossReported (between.map .output) = true := by
  induction events generalizing a between with
  | nil => exact absurd h (List.append_ne_nil_of_right_ne_nil _ (List.cons_ne_nil _ _)).symm
  | cons e more ih =>
      have he := htimed e List.mem_cons_self
      refine after_of_answered a _ (reports_of_timed s a e he) (answered_step s a e he hanswers) _
        between rest f h hbetween fun hnext since hmore hsince => ?_
      exact ih (fun q hq => htimed q (List.mem_cons_of_mem e hq)) _ hnext since hmore hsince

end Assembly

namespace Receiver

/-- Around data that is thrown away, a loss is told.

    Nothing breaks the stream off, and all packets have a time. With some event, data
    of a frame is thrown away. Up to then `shown` has been given out up to the last
    frame, or there is none, and `since` has been given out behind it. With the event
    and later comes `between`, and then the next frame. Then there is a loss between
    the two frames, whatever the settings are. -/
theorem discard_told (s : Settings) (earlier later : List Call) (e : Event)
    (htimed : ∀ q ∈ events (earlier ++ .handle e :: later), q.Timed)
    (hdiscards : Discards (events earlier) e) (shown since between rest : List Output) (f : Frame)
    (hshown : shown = [] ∨ ∃ g, shown.getLast? = some (.frame g))
    (hearlier : (start s).outputs earlier = shown ++ since)
    (houtputs : (start s).outputs (earlier ++ .handle e :: later)
      = shown ++ (since ++ between) ++ .frame f :: rest)
    (hnone : ∀ o ∈ since ++ between, o.frame? = none) :
    ∃ origin r, .packetLost origin r ∈ since ++ between := by
  rw [events_append, events] at htimed
  rw [outputs_eq] at hearlier houtputs
  rw [events_append, events, Assembly.run_append, Assembly.andThen, hearlier] at houtputs
  simp only [List.append_assoc, List.append_cancel_left_eq] at houtputs
  have hbefore := Assembly.reports_run s (events earlier)
    (fun q hq => htimed q (List.mem_append_left _ hq)) {}
  have he := htimed e (List.mem_append_right _ List.mem_cons_self)
  -- Where the next frame is given out, a loss is known.
  have hknown := Assembly.after_of_answered _ _ (Assembly.reports_of_timed s _ e he)
    (Assembly.answered_of_discards s (events earlier) e he hdiscards) _ between rest f houtputs
    (fun o ho => hnone o (List.mem_append_right _ ho))
    (fun hanswers since' hmore hsince' => Assembly.after_of_answers s (events later)
      (fun q hq => htimed q (List.mem_append_right _ (List.mem_cons_of_mem e hq))) _ hanswers
      since' rest f hmore hsince')
  -- Behind the last frame none was.
  have hcleared : lossKnown.after false (shown.map .output) = false := by
    rcases hshown with rfl | ⟨g, hg⟩
    · rfl
    · rcases List.getLast?_eq_some_iff.1 hg with ⟨front, rfl⟩
      rw [List.map_append, Switch.after_append]
      exact Bool.and_false _
  rw [hbefore.next_eq, hearlier, ← Switch.after_append, ← List.map_append, List.append_assoc,
    List.map_append, Switch.after_append] at hknown
  change lossKnown.after (lossKnown.after false (shown.map .output)) _ = true at hknown
  rw [hcleared] at hknown
  by_contra hloss
  rw [lossKnown.after_of_not_turnsOn] at hknown
  · exact Bool.false_ne_true hknown
  · intro m hm
    rcases List.mem_map.1 hm with ⟨o, ho, rfl⟩
    cases o with
    | packetLost origin r => exact absurd ⟨origin, r, ho⟩ hloss
    | _ => rfl

-- Behind a keyframe, the first packet of a frame, and then one that cannot be read. It
-- is told of before the next frame, though gaps between identifiers are hidden.
theorem discard_told_unreadable :
    ∃ (s : Settings) (earlier later : List Call) (e : Event)
      (shown since between rest : List Output) (f : Frame),
      s.hideIdGaps = true
        ∧ (∀ q ∈ events (earlier ++ .handle e :: later), q.Timed)
        ∧ Discards (events earlier) e
        ∧ (start s).outputs earlier = shown ++ since
        ∧ (start s).outputs (earlier ++ .handle e :: later)
          = shown ++ (since ++ between) ++ .frame f :: rest
        ∧ ∃ origin r, .packetLost origin r ∈ since ++ between := by
  let s : Settings := { hideIdGaps := true }
  let keyframe : Packet :=
    ⟨[144, 128, 127, 16, 0, 0, 157, 1, 42, 64, 1, 240, 0], true, 1, 90, some ⟨10⟩, false⟩
  let started : Packet := ⟨[144, 128, 0, 17, 0, 0], false, 2, 180, some ⟨20⟩, false⟩
  let unreadable : Packet := ⟨[144], false, 3, 180, some ⟨20⟩, false⟩
  let next : Packet :=
    ⟨[144, 128, 1, 17, 0, 0, 0, 0, 0, 0, 0, 0, 0], true, 4, 270, some ⟨30⟩, false⟩
  let key : Frame := ⟨[16, 0, 0, 157, 1, 42, 64, 1, 240, 0], true, some ⟨320, 240, 0⟩, 90,
    some ⟨10⟩, some (.narrow 127)⟩
  let f : Frame :=
    ⟨[17, 0, 0, 0, 0, 0, 0, 0, 0, 0], false, none, 270, some ⟨30⟩, some (.narrow 1)⟩
  let earlier : List Call := [.handle (.packet keyframe), .handle (.packet started), .poll]
  let later : List Call := [.handle (.packet next)]
  let shown : List Output := [.formatChanged ⟨320, 240, 0⟩, .frame key]
  let told : Output := .packetLost .stream (.inferred ⟨30⟩)
  have htimed : ∀ q ∈ events (earlier ++ .handle (.packet unreadable) :: later), q.Timed := by
    decide +kernel +revert
  have hmem : [.packet started] ∈ (events earlier).tails := by
    decide +kernel +revert
  have hopen : isOpen [.packet started] = true := by
    decide +kernel +revert
  have hearlier : (start s).outputs earlier = shown ++ [] := by
    decide +kernel +revert
  have houtputs : (start s).outputs (earlier ++ .handle (.packet unreadable) :: later)
      = shown ++ ([] ++ [told]) ++ .frame f :: [] := by
    decide +kernel +revert
  have hdiscards : Discards (events earlier) (.packet unreadable) := .brokenOff _ hmem hopen rfl
  have hnone : ∀ o ∈ [] ++ [told], o.frame? = none := by
    intro o ho
    rw [List.mem_singleton.1 ho]
    rfl
  exact ⟨s, earlier, later, .packet unreadable, shown, [], [told], [], f, rfl, htimed, hdiscards,
    hearlier, houtputs, discard_told s earlier later _ htimed hdiscards shown [] [told] [] f
      (Or.inr ⟨key, rfl⟩) hearlier houtputs hnone⟩

end Receiver

end Vp8

end VideoTransport

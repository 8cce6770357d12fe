import VideoTransport.Proofs.Vp8.FrameGroups
import VideoTransport.Proofs.Vp8.Media

/-!
# Losses Not Told

What the assembly is like as long as nothing has been told since a frame.

The assembly compares identifiers only where a frame begins: that of its first
packet with that of the last packet before it. What it finds there is told, and
so is a loss that is due, unless one has been told since the last frame. So in a
state where nothing has been told, a frame can begin without an output in one
case only, that it follows on the last one.

`Untold` is that state: either the identifier of the frame is still the last
one, or a frame has begun that follows on it, or a frame was given up and its
loss will be told before another one begins. An event that tells nothing keeps
it, and an event that gives out a frame leads to it again.

## Main definitions

* `Event.Numbered`: A packet that can be read has a time and an identifier.
* `Output.isFormat`: The output announces a format, which tells nothing.
* `Assembly.Untold`: The state after a frame, as long as nothing is told.
* `Assembly.EndsWithFrame`: The state after a frame, and its outputs.

## Theorems

* `Assembly.openFrame_of_untold`: Where a frame begins untold, it follows on the last one.
* `Assembly.untold_step`: An event that tells nothing keeps the state untold.
* `Assembly.opens_step`: An event that begins a frame untold carries what follows.
* `Assembly.frame_step`: A frame is the last output of an event.
-/

namespace VideoTransport

namespace Vp8

namespace Event

/-- The identifier that the event carries, if it is a packet that can be read
    and has one. -/
def pictureId : Event → Option PictureId
  | .packet p =>
    match Descriptor.parse p.payload with
    | .ok d => d.pictureId
    | .error _ => none
  | _ => none

/-- The event does not break the stream off, and if it is a packet that can be
    read, it has a time and an identifier of one width. -/
def Numbered (wide : Bool) : Event → Prop
  | .packet p => ∀ d, Descriptor.parse p.payload = .ok d
      → p.pts.isSome = true ∧ ∃ id, d.pictureId = some id ∧ id.isWide = wide
  | .loss _ => True
  | .flush => False
  | .reset => False

theorem numbered_packet (p : Packet) (d : Descriptor) (id : PictureId)
    (hparse : Descriptor.parse p.payload = .ok d) (hpts : p.pts.isSome = true)
    (hid : d.pictureId = some id) : (packet p).Numbered id.isWide := by
  intro d' hd'
  rw [hparse, Except.ok.injEq] at hd'
  rw [← hd']
  exact ⟨hpts, id, hid, rfl⟩

end Event

namespace Output

/-- The output announces a format, and nothing else. -/
def isFormat : Output → Bool
  | .formatChanged _ => true
  | _ => false

/-- The frame that the output is, if it is one. -/
def frame? : Output → Option Frame
  | .frame f => some f
  | _ => none

theorem frame?_of_isFormat (o : Output) (h : o.isFormat = true) : o.frame? = none := by
  cases o with
  | frame f => exact absurd h Bool.false_ne_true
  | _ => rfl

theorem isMedia_of_isFormat (o : Output) (h : o.isFormat = true) : o.isMedia = true := by
  cases o with
  | packetLost origin r => exact absurd h Bool.false_ne_true
  | _ => rfl

end Output

namespace Assembly

/-- Nothing has been told since a frame, and nothing has to be if the next one
    follows on it. A loss that is due will be told before another frame begins,
    and so will that of the frame in progress if there is one then. -/
structure Untold (last : PictureId) (a : Assembly) : Prop where
  notReported : a.lossReported = false
  idle : a.partialFrame = none → a.reportDue = true ∨ a.lastId = some last

-- A report that has to be made is made, if there is a time for it.
theorem ensureReported_ne_nil (pts : Option Duration) (a : Assembly) (hpts : pts.isSome = true)
    (h : a.lossReported = false) : (ensureReported pts a).2 ≠ [] := by
  rcases Option.isSome_iff_exists.1 hpts with ⟨time, rfl⟩
  unfold ensureReported
  cases hheld : a.withheld with
  | none =>
      simp only [Option.isSome_none, Bool.false_eq_true, if_false, h]
      exact List.cons_ne_nil _ _
  | some r =>
      simp only [Option.isSome_some, if_true, releaseHeld]
      exact List.cons_ne_nil _ _

theorem releaseHeld_of_eq_nil (a : Assembly) (h : (releaseHeld a).2 = []) :
    releaseHeld a = (a, []) := by
  unfold releaseHeld at h ⊢
  cases hheld : a.withheld with
  | none => rfl
  | some r =>
      rw [hheld] at h
      exact absurd h (List.cons_ne_nil _ _)

-- Identifiers of one width that do not follow on each other are told of.
theorem checkContinuity_of_eq_nil (s : Settings) (last next : PictureId) (pts : Option Duration)
    (a : Assembly) (hshown : s.hideIdGaps = false) (hwidth : last.isWide = next.isWide)
    (hpts : pts.isSome = true) (hreported : a.lossReported = false) (hlast : a.lastId = some last)
    (h : (checkContinuity s (some next) pts a).2 = []) :
    last.isJustBefore next = true
      ∧ checkContinuity s (some next) pts a = ({ a with withheld := none }, []) := by
  have hcomparable : (last.isWide && !next.isWide) = false := by
    rw [hwidth, Bool.and_not_self]
  unfold checkContinuity at h ⊢
  simp only [hlast, PictureId.continuity, hcomparable, Bool.false_eq_true, if_false, hshown,
    Bool.or_false] at h ⊢
  by_cases hfollows : last.isJustBefore next = true
  · simp only [hfollows, if_true]
    exact ⟨trivial, trivial⟩
  · simp only [hfollows] at h
    by_cases hheld : a.withheld.isSome = true
    · simp only [hheld, if_true] at h
      rcases Option.isSome_iff_exists.1 hheld with ⟨r, hr⟩
      rw [releaseHeld, hr] at h
      exact absurd h (List.cons_ne_nil _ _)
    · simp only [hheld] at h
      exact absurd h (ensureReported_ne_nil pts a hpts hreported)

/-- Where a frame begins and nothing is told, it follows on the last one. A frame
    that was in progress, or given up before, would have been told of. -/
theorem openFrame_of_untold (s : Settings) (last next : PictureId) (pts : Option Duration)
    (a : Assembly) (hshown : s.hideIdGaps = false) (hwidth : last.isWide = next.isWide)
    (hpts : pts.isSome = true) (h : a.Untold last)
    (hnil : (openFrame s (some next) pts a).2 = []) :
    last.isJustBefore next = true ∧ (openFrame s (some next) pts a).1.lossReported = false := by
  have hreported : a.abandonFrame.lossReported = false := h.notReported
  unfold openFrame at hnil ⊢
  by_cases hdue : a.abandonFrame.reportDue = true
  · simp only [hdue, if_true, andThen, List.append_nil, List.append_eq_nil_iff] at hnil
    exact absurd hnil.1 (ensureReported_ne_nil pts _ hpts hreported)
  · simp only [hdue, andThen, List.append_nil] at hnil
    have hnone : a.partialFrame = none ∧ a.reportDue = false := by
      simp only [abandonFrame, Bool.or_eq_true, not_or, Bool.not_eq_true, Option.isSome_eq_false_iff,
        Option.isNone_iff_eq_none] at hdue
      exact ⟨hdue.2, hdue.1⟩
    have hlast : a.abandonFrame.lastId = some last := by
      rcases h.idle hnone.1 with hpending | hlast
      · rw [hnone.2] at hpending
        exact absurd hpending Bool.false_ne_true
      · exact hlast
    rcases checkContinuity_of_eq_nil s last next pts _ hshown hwidth hpts hreported hlast hnil with
      ⟨hfollows, hcheck⟩
    simp only [hdue, Bool.false_eq_true, if_false, hcheck, andThen]
    exact ⟨hfollows, hreported⟩

-- A packet without a frame tells of a loss that is due or held. If it tells
-- nothing, there was none.
theorem skipPacket_of_untold (last : PictureId) (pts : Option Duration) (a : Assembly)
    (hpts : pts.isSome = true) (h : a.Untold last) (hnil : (skipPacket pts a).2 = []) :
    (skipPacket pts a).1.Untold last := by
  have hforwarded (b : Assembly) (hb : b.Untold last)
      (hbnil : (if b.reportDue then ensureReported pts b else (b, [])).2 = []) :
      (if b.reportDue then ensureReported pts b else (b, [])).1.Untold last := by
    by_cases hdue : b.reportDue = true
    · rw [if_pos hdue] at hbnil
      exact absurd hbnil (ensureReported_ne_nil pts b hpts hb.notReported)
    · rw [if_neg hdue]
      exact hb
  unfold skipPacket at hnil ⊢
  by_cases hholds : a.holdsLosses = true
  · simp only [hholds, if_true, andThen, List.append_nil, List.append_eq_nil_iff] at hnil ⊢
    have hheld := releaseHeld_of_eq_nil a hnil.1
    rw [hheld] at hnil ⊢
    exact hforwarded { a with holdsLosses := false } ⟨h.notReported, h.idle⟩ hnil.2
  · simp only [hholds, Bool.false_eq_true, if_false, andThen, List.nil_append] at hnil ⊢
    exact hforwarded a h hnil

-- The last packet of a frame gives the frame as its last output, or asks for a
-- keyframe, or gives nothing and leaves a loss that is due.
theorem closeFrame_cases (p : Packet) (id : Option PictureId) (data : List UInt8) (a : Assembly) :
    ((closeFrame p id data a).2 = [] ∧ (closeFrame p id data a).1.lossReported = a.lossReported
        ∧ (closeFrame p id data a).1.reportDue = true)
      ∨ ∃ formats, (∀ o ∈ formats, o.isFormat = true)
        ∧ ((closeFrame p id data a).2 = formats ++ [.keyframeRequest]
          ∨ ∃ f, (closeFrame p id data a).2 = formats ++ [.frame f] ∧ f.pictureId = id
            ∧ (closeFrame p id data a).1.partialFrame = none
            ∧ (closeFrame p id data a).1.lastId = a.lastId
            ∧ (closeFrame p id data a).1.lossReported = false) := by
  unfold closeFrame
  cases FrameHeader.parse data with
  | error err => exact Or.inl ⟨rfl, rfl, rfl⟩
  | ok header =>
      simp only
      have hformats : ∀ o ∈ (announce header.format { a with partialFrame := none }).2,
          o.isFormat = true := by
        intro o ho
        cases hformat : header.format with
        | none =>
            rw [hformat] at ho
            exact absurd ho List.not_mem_nil
        | some f =>
            simp only [hformat, announce] at ho
            by_cases hsame : a.currentFormat = some f
            · rw [if_pos hsame] at ho
              exact absurd ho List.not_mem_nil
            · rw [if_neg hsame, List.mem_singleton] at ho
              rw [ho]
              rfl
      have hkept : (announce header.format { a with partialFrame := none }).1.partialFrame = none
          ∧ (announce header.format { a with partialFrame := none }).1.lastId = a.lastId := by
        cases header.format with
        | none => exact ⟨rfl, rfl⟩
        | some f => exact ⟨rfl, rfl⟩
      generalize announce header.format { a with partialFrame := none } = announced at *
      by_cases hawaits : announced.1.awaitsKeyframe = true
      · simp only [andThen, hawaits, if_true]
        exact Or.inr ⟨announced.2, hformats, Or.inl rfl⟩
      · simp only [andThen, hawaits, Bool.false_eq_true, if_false]
        exact Or.inr ⟨announced.2, hformats, Or.inr ⟨_, rfl, rfl, hkept.1, hkept.2, trivial⟩⟩

theorem extendFrame_cases (p : Packet) (d : Descriptor) (collected : List UInt8) (a : Assembly) :
    ((extendFrame p d collected a).2 = []
        ∧ (extendFrame p d collected a).1.lossReported = a.lossReported
        ∧ ((extendFrame p d collected a).1.partialFrame = none
          → (extendFrame p d collected a).1.reportDue = true))
      ∨ ∃ formats, (∀ o ∈ formats, o.isFormat = true)
        ∧ ((extendFrame p d collected a).2 = formats ++ [.keyframeRequest]
          ∨ ∃ f, (extendFrame p d collected a).2 = formats ++ [.frame f] ∧ f.pictureId = d.pictureId
            ∧ (extendFrame p d collected a).1.partialFrame = none
            ∧ (extendFrame p d collected a).1.lastId = d.pictureId
            ∧ (extendFrame p d collected a).1.lossReported = false) := by
  unfold extendFrame
  by_cases hmarker : p.marker = true
  · simp only [hmarker, if_true]
    have hclose := closeFrame_cases p d.pictureId (collected ++ p.payload.drop d.length)
      { a with
        partialFrame := some (collected ++ p.payload.drop d.length)
        lastId := d.pictureId }
    rcases hclose with ⟨hnil, hreported, hdue⟩ | hended
    · exact Or.inl ⟨hnil, hreported, fun _ => hdue⟩
    · exact Or.inr hended
  · simp only [hmarker, Bool.false_eq_true, if_false]
    exact Or.inl ⟨trivial, trivial, fun hnone => absurd hnone (Option.some_ne_none _)⟩

-- Where a frame begins, nothing but losses is told.
theorem openFrame_eq_nil (s : Settings) (next : Option PictureId) (pts : Option Duration)
    (a : Assembly) (h : ∀ o ∈ (openFrame s next pts a).2, o.isMedia = true) :
    (openFrame s next pts a).2 = [] := by
  have hmedia := (shows_openFrame s next pts a).2
  rwa [List.filter_eq_self.2 h] at hmedia

theorem untold_abandonFrame (last : PictureId) (a : Assembly) (h : a.Untold last) :
    a.abandonFrame.Untold last := by
  refine ⟨h.notReported, fun _ => ?_⟩
  cases hpartial : a.partialFrame with
  | none =>
      rcases h.idle hpartial with hdue | hlast
      · apply Or.inl
        rw [abandonFrame, hdue]
        rfl
      · exact Or.inr hlast
  | some data =>
      apply Or.inl
      rw [abandonFrame, hpartial]
      exact Bool.or_true _

theorem untold_arrive (s : Settings) (last : PictureId) (p : Packet) (a : Assembly)
    (h : a.Untold last) : (arrive s p a).Untold last := by
  rw [arrive]
  by_cases hbroken : p.discontinuous = true
  · rw [if_pos hbroken]
    have habandoned := untold_abandonFrame last a h
    exact ⟨habandoned.notReported, habandoned.idle⟩
  · rw [if_neg hbroken]
    exact h

-- The part of a packet that tells nothing: a frame that begins with it follows
-- on the last one.
theorem takePart_opens (s : Settings) (last : PictureId) (p : Packet) (d : Descriptor)
    (a : Assembly) (hshown : s.hideIdGaps = false) (hstarts : d.startsFrame = true)
    (hpts : p.pts.isSome = true) (next : PictureId) (hnext : d.pictureId = some next)
    (hwidth : last.isWide = next.isWide) (h : a.Untold last)
    (hmedia : ∀ o ∈ (takePart s p d a).2, o.isMedia = true) :
    (openFrame s d.pictureId p.pts a).2 = [] ∧ last.isJustBefore next = true
      ∧ (openFrame s d.pictureId p.pts a).1.lossReported = false := by
  have hnil : (openFrame s d.pictureId p.pts a).2 = [] := by
    apply openFrame_eq_nil
    intro o ho
    apply hmedia o
    rw [takePart, if_pos hstarts]
    exact List.mem_append_left _ ho
  refine ⟨hnil, ?_⟩
  rw [hnext] at hnil ⊢
  exact openFrame_of_untold s last next p.pts a hshown hwidth hpts h hnil

theorem untold_extendFrame (last : PictureId) (p : Packet) (d : Descriptor)
    (collected : List UInt8) (a : Assembly) (h : a.lossReported = false)
    (hformats : ∀ o ∈ (extendFrame p d collected a).2, o.isFormat = true) :
    (extendFrame p d collected a).1.Untold last := by
  -- An output that ends the frame is no format.
  have hlast (formats : List Output) (o : Output) (ho : o.isFormat = false)
      (heq : (extendFrame p d collected a).2 = formats ++ [o]) : False := by
    rw [heq] at hformats
    have hformat := hformats o (List.mem_append_right _ (List.mem_singleton_self o))
    rw [ho] at hformat
    exact Bool.false_ne_true hformat
  rcases extendFrame_cases p d collected a with ⟨_, hreported, hdue⟩ | ⟨formats, _, hended⟩
  · exact ⟨hreported.trans h, fun hnone => Or.inl (hdue hnone)⟩
  · rcases hended with heq | ⟨f, heq, _⟩
    · exact (hlast formats _ rfl heq).elim
    · exact (hlast formats _ rfl heq).elim

theorem untold_takePart (s : Settings) (last : PictureId) (p : Packet) (d : Descriptor)
    (a : Assembly) (hshown : s.hideIdGaps = false) (hpts : p.pts.isSome = true)
    (next : PictureId) (hnext : d.pictureId = some next) (hwidth : last.isWide = next.isWide)
    (h : a.Untold last) (hformats : ∀ o ∈ (takePart s p d a).2, o.isFormat = true) :
    (takePart s p d a).1.Untold last := by
  have hmedia (o : Output) (ho : o ∈ (takePart s p d a).2) : o.isMedia = true :=
    Output.isMedia_of_isFormat o (hformats o ho)
  by_cases hstarts : d.startsFrame = true
  · rcases takePart_opens s last p d a hshown hstarts hpts next hnext hwidth h hmedia with
      ⟨hnil, _, hreported⟩
    have hpartial : (openFrame s d.pictureId p.pts a).1.partialFrame = some [] :=
      congrArg Media.partialFrame (shows_openFrame s d.pictureId p.pts a).1
    rw [takePart, if_pos hstarts] at hformats ⊢
    simp only [andThen, hnil, hpartial, List.nil_append] at hformats ⊢
    exact untold_extendFrame last p d [] _ hreported hformats
  · rw [takePart, if_neg hstarts] at hformats ⊢
    simp only [andThen, List.nil_append] at hformats ⊢
    cases hpartial : a.partialFrame with
    | some collected =>
        simp only [hpartial] at hformats ⊢
        exact untold_extendFrame last p d collected a h.notReported hformats
    | none =>
        simp only [hpartial] at hformats ⊢
        apply skipPacket_of_untold last p.pts a hpts h
        have hquiet : (skipPacket p.pts a).2.filter Output.isMedia = [] :=
          (quiet_skipPacket p.pts a).2
        rwa [List.filter_eq_self.2 fun o ho => Output.isMedia_of_isFormat o (hformats o ho)]
          at hquiet

/-- An event that tells nothing keeps the state untold. -/
theorem untold_step (s : Settings) (last : PictureId) (e : Event) (a : Assembly)
    (hshown : s.hideIdGaps = false) (he : e.Numbered last.isWide) (h : a.Untold last)
    (hformats : ∀ o ∈ (step s a e).2, o.isFormat = true) : (step s a e).1.Untold last := by
  cases e with
  | packet p =>
      have harrive := untold_arrive s last p a h
      change ∀ o ∈ (takePacket s p a).2, o.isFormat = true at hformats
      change (takePacket s p a).1.Untold last
      unfold takePacket at hformats ⊢
      cases hparse : Descriptor.parse p.payload with
      | error err =>
          simp only
          exact untold_abandonFrame last _ harrive
      | ok d =>
          simp only [hparse] at hformats ⊢
          rcases he d hparse with ⟨hpts, next, hnext, hwidth⟩
          exact untold_takePart s last p d _ hshown hpts next hnext hwidth.symm harrive hformats
  | loss r =>
      rw [step, takeLoss] at hformats ⊢
      by_cases hholds : a.holdsLosses = true
      · rw [if_pos hholds]
        exact ⟨h.notReported, h.idle⟩
      · rw [if_neg hholds] at hformats
        exact absurd (hformats _ (List.mem_singleton_self _)) Bool.false_ne_true
  | flush => exact absurd he not_false
  | reset => exact absurd he not_false

-- An event that tells nothing of a loss and begins a frame carries the
-- identifier that follows.
theorem opens_step (s : Settings) (last : PictureId) (e : Event) (a : Assembly)
    (hshown : s.hideIdGaps = false) (he : e.Numbered last.isWide) (h : a.Untold last)
    (hopens : e.opens = true) (hmedia : ∀ o ∈ (step s a e).2, o.isMedia = true) :
    ∃ first, e.pictureId = some first ∧ last.isJustBefore first = true := by
  cases e with
  | packet p =>
      change ∀ o ∈ (takePacket s p a).2, o.isMedia = true at hmedia
      unfold takePacket at hmedia
      cases hparse : Descriptor.parse p.payload with
      | error err =>
          simp only [Event.opens, hparse] at hopens
          exact absurd hopens Bool.false_ne_true
      | ok d =>
          simp only [Event.opens, hparse] at hopens
          simp only [hparse] at hmedia
          rcases he d hparse with ⟨hpts, next, hnext, hwidth⟩
          have hfollows := takePart_opens s last p d _ hshown hopens hpts next hnext hwidth.symm
            (untold_arrive s last p a h) hmedia
          refine ⟨next, ?_, hfollows.2.1⟩
          simp only [Event.pictureId, hparse, hnext]
  | _ => exact absurd hopens Bool.false_ne_true

-- Where no media are shown, there is no frame.
theorem frame?_of_quiet (r : Assembly × List Output) (m : Media) (h : Shows r (m, []))
    (o : Output) (ho : o ∈ r.2) : o.frame? = none := by
  cases o with
  | frame f =>
      have hkept : Output.frame f ∈ r.2.filter Output.isMedia := List.mem_filter.2 ⟨ho, rfl⟩
      rw [h.2] at hkept
      exact absurd hkept List.not_mem_nil
  | _ => rfl

/-- The outputs end with a frame and have no other, and the state is that after
    the frame. -/
def EndsWithFrame (r : Assembly × List Output) : Prop :=
  ∃ before f, r.2 = before ++ [.frame f] ∧ (∀ o ∈ before, o.frame? = none)
    ∧ r.1.lastId = f.pictureId ∧ r.1.partialFrame = none ∧ r.1.lossReported = false

theorem endsWithFrame_andThen (r : Assembly × List Output)
    (next : Assembly → Assembly × List Output) (h : ∀ o ∈ r.2, o.frame? = none)
    (hnext : (∀ o ∈ (next r.1).2, o.frame? = none) ∨ EndsWithFrame (next r.1)) :
    (∀ o ∈ (andThen r next).2, o.frame? = none) ∨ EndsWithFrame (andThen r next) := by
  rcases hnext with hnone | ⟨before, f, heq, hbefore, hstate⟩
  · apply Or.inl
    intro o ho
    rcases List.mem_append.1 ho with ho | ho
    · exact h o ho
    · exact hnone o ho
  · refine Or.inr ⟨r.2 ++ before, f, ?_, ?_, hstate⟩
    · rw [andThen, heq, List.append_assoc]
    · intro o ho
      rcases List.mem_append.1 ho with ho | ho
      · exact h o ho
      · exact hbefore o ho

theorem endsWithFrame_extendFrame (p : Packet) (d : Descriptor) (collected : List UInt8)
    (a : Assembly) :
    (∀ o ∈ (extendFrame p d collected a).2, o.frame? = none)
      ∨ EndsWithFrame (extendFrame p d collected a) := by
  rcases extendFrame_cases p d collected a with ⟨hnil, _⟩ | ⟨formats, hformats, heq | hframe⟩
  · apply Or.inl
    rw [hnil]
    intro o ho
    exact absurd ho List.not_mem_nil
  · apply Or.inl
    rw [heq]
    intro o ho
    rcases List.mem_append.1 ho with ho | ho
    · exact o.frame?_of_isFormat (hformats o ho)
    · rw [List.mem_singleton.1 ho]
      rfl
  · rcases hframe with ⟨f, heq, hid, hpartial, hlast, hreported⟩
    exact Or.inr ⟨formats, f, heq, fun o ho => o.frame?_of_isFormat (hformats o ho),
      hlast.trans hid.symm, hpartial, hreported⟩

theorem endsWithFrame_takePart (s : Settings) (p : Packet) (d : Descriptor) (a : Assembly) :
    (∀ o ∈ (takePart s p d a).2, o.frame? = none) ∨ EndsWithFrame (takePart s p d a) := by
  rw [takePart]
  refine endsWithFrame_andThen _ _ ?_ ?_
  · intro o ho
    by_cases hstarts : d.startsFrame = true
    · rw [if_pos hstarts] at ho
      exact frame?_of_quiet _ _ (shows_openFrame s d.pictureId p.pts a) o ho
    · rw [if_neg hstarts] at ho
      exact absurd ho List.not_mem_nil
  · generalize (if d.startsFrame then openFrame s d.pictureId p.pts a else (a, [])).1 = opened
    cases opened.partialFrame with
    | some collected =>
        simp only
        exact endsWithFrame_extendFrame p d collected opened
    | none =>
        simp only
        exact Or.inl (frame?_of_quiet _ _ (quiet_skipPacket p.pts opened))

/-- A frame is the last output of an event that gives one, and the state is that
    after the frame. -/
theorem frame_step (s : Settings) (e : Event) (a : Assembly) :
    (∀ o ∈ (step s a e).2, o.frame? = none) ∨ EndsWithFrame (step s a e) := by
  cases e with
  | packet p =>
      change (∀ o ∈ (takePacket s p a).2, o.frame? = none) ∨ EndsWithFrame (takePacket s p a)
      unfold takePacket
      cases Descriptor.parse p.payload with
      | error err => exact Or.inl fun o ho => absurd ho List.not_mem_nil
      | ok d => exact endsWithFrame_takePart s p d _
  | loss r =>
      apply Or.inl
      intro o ho
      rw [step, takeLoss] at ho
      by_cases hholds : a.holdsLosses = true
      · rw [if_pos hholds] at ho
        exact absurd ho List.not_mem_nil
      · rw [if_neg hholds] at ho
        rw [List.mem_singleton.1 ho]
        rfl
  | flush => exact Or.inl fun o ho => absurd ho List.not_mem_nil
  | reset => exact Or.inl fun o ho => absurd ho List.not_mem_nil

end Assembly

end Vp8

end VideoTransport

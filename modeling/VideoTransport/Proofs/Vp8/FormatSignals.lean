import VideoTransport.Proofs.Vp8.KeyframeGate
import VideoTransport.Proofs.Vp8.KnownLosses

/-!
# Signals of Formats

Which formats are told, and when.

A receiver keeps the format in mind that it told last, so as not to tell it again.
It is made to forget it when it is flushed and when the stream begins anew, and by
nothing else. `knownFormat` works that out from the history alone, and each event
takes it to where the assembly has it in `currentFormat`.

A format is told where its keyframe ends, right before this is given out. So what
an output has to be depends on the format that is known there, and for a format on
the next output too. `Fits` says what that is. Losses that an event tells come
before all else that it causes, and do not get in between.

## Main definitions

* `announcedIn`: The formats that are announced in a history.
* `Moment.remember`, `knownFormat`: The format that is known after a history.
* `Moment.Fits`, `AllFit`: Formats and frames fit the format that is known.
* `Signals`: Some moments fit, and take the format that is known from one to another.

## Theorems

* `Assembly.exists_losses_step`: Losses are told first.
* `Media.signals_close`, `Assembly.signals_step`: What an event does to the known format.
* `Assembly.signals_history`: The assembly has the known format in mind.
* `Receiver.formats_signalled`: Each format is told once, with its keyframe.
-/

namespace VideoTransport

namespace Vp8

/-- The format that the output announces, if it does. -/
def Output.format? : Output → Option Format
  | .formatChanged f => some f
  | _ => none

/-- The formats that are announced in a history. -/
def announcedIn (h : List Moment) : List Format :=
  h.filterMap fun m => m.output?.bind Output.format?

namespace Moment

/-- The format that is known after a moment. Flushing makes a receiver forget it,
    as does a stream that begins anew. -/
def remember (known : Option Format) : Moment → Option Format
  | .output (.formatChanged f) => some f
  | .event .flush => none
  | .event .reset => none
  | _ => known

/-- A moment fits the format that is known before it and what comes next. A format
    that is announced is not known yet, and its keyframe comes next. A keyframe has
    the format that is known, and an inter frame has none. -/
def Fits (known : Option Format) (rest : List Moment) : Moment → Prop
  | .output (.formatChanged f) => known ≠ some f ∧ ∃ frame more,
      rest = .output (.frame frame) :: more ∧ frame.keyframe = true ∧ frame.format = some f
  | .output (.frame frame) =>
      (frame.keyframe = true → frame.format ≠ none ∧ frame.format = known)
        ∧ (frame.keyframe = false → frame.format = none)
  | _ => True

end Moment

/-- The format that is known after some moments. -/
def knownFormat (known : Option Format) (h : List Moment) : Option Format :=
  h.foldl Moment.remember known

theorem knownFormat_append (known : Option Format) (h h' : List Moment) :
    knownFormat known (h ++ h') = knownFormat (knownFormat known h) h' :=
  List.foldl_append

-- Without a new format, a format is known until it is forgotten.
theorem knownFormat_of_not_forgotten (known : Option Format) (h : List Moment)
    (hnew : announcedIn h = []) (hflush : .event .flush ∉ h) (hreset : .event .reset ∉ h) :
    knownFormat known h = known := by
  induction h with
  | nil => rfl
  | cons m rest ih =>
      rw [List.mem_cons, not_or] at hflush hreset
      have hm : m.output?.bind Output.format? = none
          ∧ announcedIn rest = [] := by
        rw [announcedIn, List.filterMap_eq_nil_iff, List.forall_mem_cons] at hnew
        exact ⟨hnew.1, List.filterMap_eq_nil_iff.2 hnew.2⟩
      have hremember : m.remember known = known := by
        cases m with
        | event e =>
            cases e with
            | flush => exact absurd rfl hflush.1
            | reset => exact absurd rfl hreset.1
            | _ => rfl
        | output o =>
            cases o with
            | formatChanged f => cases hm.1
            | _ => rfl
      rw [knownFormat, List.foldl_cons, hremember]
      exact ih hm.2 hflush.2 hreset.2

/-- A format that is known is the one that was announced last. -/
theorem getLast?_announcedIn (h : List Moment) (f : Format) (hknown : knownFormat none h = some f) :
    (announcedIn h).getLast? = some f := by
  induction h using List.reverseRecOn with
  | nil => cases hknown
  | append_singleton h m ih =>
      rw [knownFormat_append] at hknown
      change m.remember (knownFormat none h) = some f at hknown
      rw [announcedIn, List.filterMap_append]
      cases m with
      | event e =>
          cases e with
          | flush => cases hknown
          | reset => cases hknown
          | _ =>
              rw [List.filterMap_cons_none rfl, List.filterMap_nil, List.append_nil]
              exact ih hknown
      | output o =>
          cases o with
          | formatChanged f' =>
              cases hknown
              exact List.getLast?_concat ..
          | _ =>
              rw [List.filterMap_cons_none rfl, List.filterMap_nil, List.append_nil]
              exact ih hknown

/-- Each of some moments fits what is known before it and what comes next. -/
def AllFit (known : Option Format) : List Moment → Prop
  | [] => True
  | m :: rest => m.Fits known rest ∧ AllFit (m.remember known) rest

-- What comes next is not changed by what comes after that.
theorem Moment.fits_append (known : Option Format) (rest more : List Moment) (m : Moment)
    (h : m.Fits known rest) : m.Fits known (rest ++ more) := by
  cases m with
  | event e => trivial
  | output o =>
      cases o with
      | formatChanged f =>
          rcases h with ⟨hnew, frame, next, rfl, hframe⟩
          exact ⟨hnew, frame, next ++ more, rfl, hframe⟩
      | frame f => exact h
      | _ => trivial

theorem allFit_append (known : Option Format) (h h' : List Moment) (hfirst : AllFit known h)
    (hrest : AllFit (knownFormat known h) h') : AllFit known (h ++ h') := by
  induction h generalizing known with
  | nil => exact hrest
  | cons m rest ih => exact ⟨m.fits_append known rest h' hfirst.1, ih _ hfirst.2 hrest⟩

/-- A moment fits what is known after all that is before it. -/
theorem fits_of_allFit (known : Option Format) (before after : List Moment) (m : Moment)
    (h : AllFit known (before ++ m :: after)) : m.Fits (knownFormat known before) after := by
  induction before generalizing known with
  | nil => exact h.1
  | cons q rest ih => exact ih _ h.2

/-- Some moments fit, and take the format that is known from one to another. -/
structure Signals (known next : Option Format) (h : List Moment) : Prop where
  next_eq : next = knownFormat known h
  fit : AllFit known h

theorem signals_nil (known : Option Format) : Signals known known [] :=
  ⟨rfl, trivial⟩

theorem signals_append (known mid next : Option Format) (h h' : List Moment)
    (hfirst : Signals known mid h) (hrest : Signals mid next h') :
    Signals known next (h ++ h') := by
  rw [hfirst.next_eq] at hrest
  refine ⟨?_, allFit_append known h h' hfirst.fit hrest.fit⟩
  rw [knownFormat_append]
  exact hrest.next_eq

-- Losses have nothing to do with formats.
theorem signals_of_losses (known : Option Format) (losses : List Output)
    (h : ∀ o ∈ losses, o.isMedia = false) : Signals known known (losses.map .output) := by
  induction losses with
  | nil => exact signals_nil known
  | cons o rest ih =>
      have hrest := ih fun q hq => h q (List.mem_cons_of_mem _ hq)
      have ho := h o List.mem_cons_self
      cases o with
      | packetLost origin r => exact ⟨hrest.next_eq, trivial, hrest.fit⟩
      | _ => exact absurd ho (Bool.false_ne_true ∘ Eq.symm)

namespace Media

/-- Where a frame ends, its format is told if it is not known. -/
theorem signals_close (p : Packet) (id : Option PictureId) (data : List UInt8) (m : Media) :
    Signals m.currentFormat (close p id data m).1.currentFormat
      ((close p id data m).2.map .output) := by
  unfold close
  cases FrameHeader.parse data with
  | error err => exact signals_nil m.currentFormat
  | ok header =>
      simp only
      by_cases hkeyframe : header.keyframe = true
      · rw [FrameHeader.format, if_pos hkeyframe, hkeyframe]
        simp only
        by_cases hformat : m.currentFormat = some ⟨header.width, header.height, header.profile⟩
        · rw [if_pos hformat]
          exact ⟨hformat.symm, ⟨fun _ => ⟨Option.some_ne_none _, hformat.symm⟩,
            fun h => absurd h (Bool.false_ne_true ∘ Eq.symm)⟩, trivial⟩
        · rw [if_neg hformat]
          exact ⟨rfl, ⟨hformat, _, [], rfl, rfl, rfl⟩, ⟨fun _ => ⟨Option.some_ne_none _, rfl⟩,
            fun h => absurd h (Bool.false_ne_true ∘ Eq.symm)⟩, trivial⟩
      · rw [FrameHeader.format, if_neg hkeyframe, eq_false_of_ne_true hkeyframe]
        simp only
        by_cases hawaits : m.awaitsKeyframe = true
        · rw [if_pos hawaits]
          exact ⟨rfl, trivial, trivial⟩
        · rw [if_neg hawaits]
          exact ⟨rfl, ⟨fun h => absurd h Bool.false_ne_true, fun _ => rfl⟩, trivial⟩

theorem currentFormat_arrive (s : Settings) (p : Packet) (m : Media) :
    (m.arrive s p).currentFormat = m.currentFormat := by
  rw [arrive]
  split
  · rfl
  · rfl

/-- Each event takes the format that is known to where the machine has it in mind. -/
theorem signals_step (s : Settings) (m : Media) (e : Event) :
    Signals (Moment.remember m.currentFormat (.event e)) (step s m e).1.currentFormat
      ((step s m e).2.map .output) := by
  cases e with
  | packet p =>
      change Signals m.currentFormat (takePacket s p m).1.currentFormat _
      rw [← m.currentFormat_arrive s p]
      change Signals _ _ ((takePacket s p m).2.map .output)
      rcases takePacket_cases s m p with ⟨data, htake⟩ | ⟨id, data, htake⟩
      · rw [htake]
        exact signals_nil _
      · rw [htake]
        exact signals_close p id data (m.arrive s p)
  | loss r => exact signals_nil m.currentFormat
  | flush => exact signals_nil none
  | reset => exact signals_nil none

end Media

namespace Assembly

/-- What an event tells of losses comes before all else that it causes. -/
theorem exists_losses_step (s : Settings) (a : Assembly) (e : Event) :
    ∃ losses, (∀ o ∈ losses, o.isMedia = false)
      ∧ (step s a e).2 = losses ++ (Media.step s a.media e).2 := by
  have hsplit (losses rest : List Output) (heq : (step s a e).2 = losses ++ rest)
      (hlosses : losses.filter Output.isMedia = []) (hrest : rest.filter Output.isMedia = rest) :
      ∃ losses, (∀ o ∈ losses, o.isMedia = false)
        ∧ (step s a e).2 = losses ++ (Media.step s a.media e).2 := by
    refine ⟨losses, fun o ho => eq_false_of_ne_true (List.filter_eq_nil_iff.1 hlosses o ho), ?_⟩
    rw [← (media_step s a e).2, heq, List.filter_append, hlosses, hrest, List.nil_append]
  cases e with
  | packet p =>
      cases hparse : Descriptor.parse p.payload with
      | error err =>
          rw [step_of_error s p a err hparse] at hsplit ⊢
          exact hsplit [] [] rfl rfl rfl
      | ok d =>
          rw [step_of_ok s p a d hparse, takePart_eq] at hsplit ⊢
          have hopened : (if d.startsFrame then openFrame s d.pictureId p.pts (arrive s p a)
              else (arrive s p a, [])).2.filter Output.isMedia = [] := by
            split
            · exact (shows_openFrame s d.pictureId p.pts (arrive s p a)).2
            · rfl
          generalize (if d.startsFrame then openFrame s d.pictureId p.pts (arrive s p a)
            else (arrive s p a, [])) = opened at *
          cases hpartial : opened.1.partialFrame with
          | none =>
              refine hsplit (opened.2 ++ (skipPacket p.pts opened.1).2) [] ?_ ?_ rfl
              · rw [andThen, takeRest_of_none p d opened.1 hpartial, List.append_nil]
              · rw [List.filter_append, hopened, (quiet_skipPacket p.pts opened.1).2]
                rfl
          | some collected =>
              refine hsplit opened.2 (extendFrame p d collected opened.1).2 ?_ hopened
                (List.filter_eq_self.2 (isMedia_extendFrame p d collected opened.1))
              rw [andThen, takeRest, hpartial]
  | loss r =>
      refine hsplit (takeLoss r a).2 [] (List.append_nil _).symm ?_ rfl
      exact (media_step s a (.loss r)).2
  | flush => exact hsplit [] [] rfl rfl rfl
  | reset => exact hsplit [] [] rfl rfl rfl

/-- Each event takes the format that is known to where the assembly has it in mind. -/
theorem signals_step (s : Settings) (a : Assembly) (e : Event) :
    Signals a.currentFormat (step s a e).1.currentFormat
      (.event e :: (step s a e).2.map .output) := by
  have hformat : (step s a e).1.currentFormat = (Media.step s a.media e).1.currentFormat :=
    congrArg Media.currentFormat (media_step s a e).1
  rcases exists_losses_step s a e with ⟨losses, hlosses, heq⟩
  rw [hformat, heq, List.map_append]
  have hrest := signals_append _ _ _ _ _ (signals_of_losses _ losses hlosses)
    (Media.signals_step s a.media e)
  exact ⟨hrest.next_eq, trivial, hrest.fit⟩

/-- The assembly has the format in mind that is known, in any run. -/
theorem signals_history (s : Settings) (events : List Event) (a : Assembly) :
    Signals a.currentFormat (run s a events).1.currentFormat (history s a events) :=
  history_of_steps (·.currentFormat) Signals signals_nil signals_append s (signals_step s) events a

end Assembly

namespace Receiver

-- What comes before an output and after it does so in the history as well.
theorem exists_history_of_outputs (s : Settings) (calls : List Call) (before after : List Output)
    (o : Output) (h : (start s).outputs calls = before ++ o :: after) :
    ∃ first rest, history s calls = first ++ .output o :: rest
      ∧ first.filterMap Moment.output? = before ∧ rest.filterMap Moment.output? = after := by
  rw [← outputs_history, List.filterMap_eq_append_iff] at h
  rcases h with ⟨first, rest, heq, hbefore, hrest⟩
  rcases List.filterMap_eq_cons_iff.1 hrest with ⟨events, m, rest, rfl, hevents, hm, hafter⟩
  have hnone : events.filterMap Moment.output? = [] := List.filterMap_eq_nil_iff.2 hevents
  cases m with
  | event e => cases hm
  | output o' =>
      cases hm
      refine ⟨first ++ events, rest, ?_, ?_, hafter⟩
      · rw [heq, List.append_assoc]
      · rw [List.filterMap_append, hnone, List.append_nil, hbefore]

/-- Each format is told once, with its keyframe.

    A keyframe that is given out has a format, and it is the one that was told last.
    A format that is told is followed at once by a keyframe that has it. It is not
    told twice with no other one in between, unless the receiver is flushed between
    the two or the stream begins anew. And an inter frame has no format. -/
theorem formats_signalled (s : Settings) (calls : List Call) :
    (∀ before f after, (start s).outputs calls = before ++ .frame f :: after →
        f.keyframe = true →
        f.format ≠ none ∧ (before.filterMap Output.format?).getLast? = f.format)
      ∧ (∀ before format after, (start s).outputs calls = before ++ .formatChanged format :: after →
        ∃ f rest, after = .frame f :: rest ∧ f.keyframe = true ∧ f.format = some format)
      ∧ (∀ before format between after, history s calls = before
          ++ .output (.formatChanged format) :: (between
            ++ .output (.formatChanged format) :: after) →
        announcedIn between = [] → .event .flush ∈ between ∨ .event .reset ∈ between)
      ∧ ∀ f, .frame f ∈ (start s).outputs calls → f.keyframe = false → f.format = none := by
  have hfit : AllFit none (history s calls) := (Assembly.signals_history s (events calls) {}).fit
  refine ⟨?_, ?_, ?_, ?_⟩
  · intro before f after h hkeyframe
    rcases exists_history_of_outputs s calls before after _ h with ⟨first, rest, heq, rfl, rfl⟩
    rw [heq] at hfit
    rcases (fits_of_allFit none first rest _ hfit).1 hkeyframe with ⟨hsome, hknown⟩
    rcases Option.ne_none_iff_exists'.1 hsome with ⟨format, hformat⟩
    rw [hformat] at hknown
    refine ⟨hsome, ?_⟩
    rw [hformat, List.filterMap_filterMap]
    exact getLast?_announcedIn first format hknown.symm
  · intro before format after h
    rcases exists_history_of_outputs s calls before after _ h with ⟨first, rest, heq, rfl, rfl⟩
    rw [heq] at hfit
    rcases fits_of_allFit none first rest _ hfit with ⟨_, f, more, rfl, hframe⟩
    exact ⟨f, more.filterMap Moment.output?, rfl, hframe⟩
  · intro before format between after h hnew
    by_contra hkept
    rw [not_or] at hkept
    rw [h, ← List.cons_append, ← List.append_assoc] at hfit
    have hknown : knownFormat none (before ++ .output (.formatChanged format) :: between)
        = some format := by
      rw [knownFormat_append]
      exact knownFormat_of_not_forgotten (some format) between hnew hkept.1 hkept.2
    exact (fits_of_allFit none _ after _ hfit).1 hknown
  · intro f hf hinter
    rcases List.append_of_mem hf with ⟨before, after, h⟩
    rcases exists_history_of_outputs s calls before after _ h with ⟨first, rest, heq, _, _⟩
    rw [heq] at hfit
    exact (fits_of_allFit none first rest _ hfit).2 hinter

-- Two keyframes of one format with a flush in between, behind which a loss is told.
-- The format is told again, and the inter frame behind it has none.
theorem formats_signalled_flushed :
    ∃ (calls : List Call) (format : Format) (key again inter : Frame) (r : LossReport)
      (before between after : List Moment),
      (start {}).outputs calls = [.formatChanged format, .frame key, .packetLost .transport r,
        .formatChanged format, .frame again, .frame inter]
      ∧ history {} calls = before ++ .output (.formatChanged format)
        :: (between ++ .output (.formatChanged format) :: after)
      ∧ announcedIn between = [] ∧ (.event .flush ∈ between ∨ .event .reset ∈ between)
      ∧ again.format ≠ none
      ∧ ([Output.formatChanged format, .frame key, .packetLost .transport r,
        .formatChanged format].filterMap Output.format?).getLast? = again.format
      ∧ (∃ f rest, [Output.frame again, .frame inter] = .frame f :: rest ∧ f.keyframe = true
        ∧ f.format = some format)
      ∧ inter.keyframe = false ∧ inter.format = none := by
  let payload : List UInt8 := [144, 128, 127, 16, 0, 0, 157, 1, 42, 64, 1, 240, 0]
  let first : Packet := ⟨payload, true, 1, 90, some ⟨10⟩, false⟩
  let second : Packet := ⟨payload, true, 2, 180, some ⟨20⟩, false⟩
  let third : Packet :=
    ⟨[144, 128, 0, 17, 0, 0, 0, 0, 0, 0, 0, 0, 0], true, 3, 270, some ⟨30⟩, false⟩
  let r : LossReport := ⟨⟨15⟩, ⟨5⟩, false⟩
  let calls : List Call := [.handle (.packet first), .poll, .handle .flush, .handle (.loss r),
    .handle (.packet second), .poll, .handle (.packet third)]
  let format : Format := ⟨320, 240, 0⟩
  let key : Frame :=
    ⟨payload.drop 3, true, some format, 90, some ⟨10⟩, some (.narrow 127)⟩
  let again : Frame :=
    ⟨payload.drop 3, true, some format, 180, some ⟨20⟩, some (.narrow 127)⟩
  let inter : Frame :=
    ⟨[17, 0, 0, 0, 0, 0, 0, 0, 0, 0], false, none, 270, some ⟨30⟩, some (.narrow 0)⟩
  let between : List Moment := [.output (.frame key), .event .flush, .event (.loss r),
    .output (.packetLost .transport r), .event (.packet second)]
  have houtputs : (start {}).outputs calls = [.formatChanged format, .frame key,
      .packetLost .transport r, .formatChanged format, .frame again, .frame inter] := by
    decide +kernel +revert
  have hhistory : history {} calls = [.event (.packet first)] ++ .output (.formatChanged format)
      :: (between ++ .output (.formatChanged format)
        :: [.output (.frame again), .event (.packet third), .output (.frame inter)]) := by
    decide +kernel +revert
  rcases formats_signalled {} calls with ⟨hkeyframe, hformat, hagain, hinter⟩
  have hlast := hkeyframe [_, _, _, _] again [.frame inter] houtputs rfl
  refine ⟨calls, format, key, again, inter, r, _, between, _, houtputs, hhistory, rfl,
    hagain _ format between _ hhistory rfl, hlast.1, hlast.2, ?_, rfl, ?_⟩
  · exact hformat [_, _, _] format _ houtputs
  · refine hinter inter ?_ rfl
    rw [houtputs]
    exact List.mem_of_getLast? rfl

end Receiver

end Vp8

end VideoTransport

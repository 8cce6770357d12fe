import VideoTransport.Proofs.Vp8.FoundFrames
import VideoTransport.Proofs.Vp8.History
import VideoTransport.Proofs.Vp8.WithheldLosses

/-!
# Inter Frames behind a Keyframe

An inter frame is given out if there is a keyframe to build on, and a keyframe is
asked for if not.

Whether there is one is a `Switch`: a keyframe that is given out turns it on, and a
reset turns it off, as does a break if the settings say that frames behind it are
of no use. The assembly has it in `awaitsKeyframe`, the other way round. A flush
leaves it alone, and so does a keyframe that is too short to be given out.

Losses do not matter for any of this, so the steps are those of `Media`.

## Main definitions

* `Moment.isKeyframe`, `Moment.isInterFrame`, `Moment.breaksStream`: What matters for keyframes.
* `keyframeUsable`: Whether there is a keyframe to build on.
* `KeyframeStands`: The same, told from the history alone.

## Theorems

* `Media.gates_step`: Each event of the media machine goes along with the switch.
* `Assembly.gates_history`: The assembly knows whether there is a keyframe to build on.
* `complete_of_group`: What an event gives out when a frame ends with it.
* `Receiver.interFrames_of_keyframe`: An inter frame is given out if and only if there is one.
-/

namespace VideoTransport

namespace Vp8

namespace Moment

/-- A keyframe is given out. -/
def isKeyframe : Moment → Bool
  | .output (.frame f) => f.keyframe
  | _ => false

/-- An inter frame is given out. -/
def isInterFrame : Moment → Bool
  | .output (.frame f) => !f.keyframe
  | _ => false

/-- From here on nothing can build on the frames before: the stream begins anew, or
    there is a break and the settings say so. -/
def breaksStream (s : Settings) : Moment → Bool
  | .event .reset => true
  | .event (.packet p) => s.keyframeAfterBreak && p.discontinuous
  | _ => false

end Moment

/-- A keyframe has been given out that later frames can build on. -/
def keyframeUsable (s : Settings) : Switch where
  turnsOn := Moment.isKeyframe
  turnsOff := Moment.breaksStream s

/-- A keyframe has been given out, and since then neither has the stream begun anew
    nor, if the settings say that this matters, has a packet come after a break. -/
def KeyframeStands (s : Settings) (h : List Moment) : Prop :=
  ∃ before f since, h = before ++ .output (.frame f) :: since ∧ f.keyframe = true
    ∧ .event .reset ∉ since
    ∧ (s.keyframeAfterBreak = true →
      ∀ p, .event (.packet p) ∈ since → p.discontinuous = false)

theorem keyframeStands_iff (s : Settings) (h : List Moment) :
    KeyframeStands s h ↔ (keyframeUsable s).after false h = true := by
  rw [Switch.after_eq_true_iff]
  constructor
  · rintro ⟨before, f, since, rfl, hkeyframe, hreset, hbreak⟩
    refine ⟨before, .output (.frame f), since, rfl, hkeyframe, fun m hm => ?_⟩
    rw [← Bool.not_eq_true]
    intro hbreaks
    cases m with
    | output o => exact absurd hbreaks Bool.false_ne_true
    | event e =>
        cases e with
        | packet p =>
            have hboth : s.keyframeAfterBreak = true ∧ p.discontinuous = true :=
              (Bool.and_eq_true _ _).mp hbreaks
            rw [hbreak hboth.1 p hm] at hboth
            exact absurd hboth.2 Bool.false_ne_true
        | reset => exact hreset hm
        | loss r => exact absurd hbreaks Bool.false_ne_true
        | flush => exact absurd hbreaks Bool.false_ne_true
  · rintro ⟨before, m, since, rfl, hkeyframe, hsince⟩
    cases m with
    | event e => exact absurd hkeyframe Bool.false_ne_true
    | output o =>
        cases o with
        | frame f =>
            refine ⟨before, f, since, rfl, hkeyframe, fun hreset => ?_, fun hset p hp => ?_⟩
            · exact absurd (hsince _ hreset) (Bool.false_ne_true ∘ Eq.symm)
            · have hnot : (s.keyframeAfterBreak && p.discontinuous) = false := hsince _ hp
              rw [hset, Bool.true_and] at hnot
              exact hnot
        | _ => exact absurd hkeyframe Bool.false_ne_true

namespace Media

/-- A step goes along with whether there is a keyframe to build on, and gives inter
    frames only if there is one. -/
abbrev Gates (s : Settings) (m : Media) (r : Media × List Output) : Prop :=
  (keyframeUsable s).Takes Moment.isInterFrame true (!m.awaitsKeyframe) (!r.1.awaitsKeyframe)
    (r.2.map .output)

theorem gates_self (s : Settings) (m : Media) : m.Gates s (m, []) :=
  (keyframeUsable s).takes_nil _ _ _

-- A frame that is given out is a keyframe, or there is one already.
theorem gates_close (s : Settings) (p : Packet) (id : Option PictureId) (data : List UInt8)
    (m : Media) : m.Gates s (close p id data m) := by
  unfold close
  cases FrameHeader.parse data with
  | error err => exact gates_self s m
  | ok header =>
      simp only
      by_cases hkeyframe : header.keyframe = true
      · rw [FrameHeader.format, if_pos hkeyframe, hkeyframe]
        simp only
        by_cases hformat : m.currentFormat = some ⟨header.width, header.height, header.profile⟩
        · rw [if_pos hformat]
          exact ⟨rfl, fun h => absurd h Bool.false_ne_true, trivial⟩
        · rw [if_neg hformat]
          exact ⟨rfl, fun h => absurd h Bool.false_ne_true,
            fun h => absurd h Bool.false_ne_true, trivial⟩
      · rw [FrameHeader.format, if_neg hkeyframe, eq_false_of_ne_true hkeyframe]
        simp only
        by_cases hawaits : m.awaitsKeyframe = true
        · rw [if_pos hawaits]
          exact ⟨(Bool.and_true _).symm, fun h => absurd h Bool.false_ne_true, trivial⟩
        · rw [if_neg hawaits]
          refine ⟨(Bool.and_true _).symm, fun _ => ?_, trivial⟩
          rw [eq_false_of_ne_true hawaits, Bool.not_false]

/-- Each event goes along with whether there is a keyframe to build on. -/
theorem gates_step (s : Settings) (m : Media) (e : Event) :
    (keyframeUsable s).Takes Moment.isInterFrame true (!m.awaitsKeyframe)
      (!(step s m e).1.awaitsKeyframe) (.event e :: (step s m e).2.map .output) := by
  have hevent (usable : Bool)
      (hmove : (keyframeUsable s).move (!m.awaitsKeyframe) (.event e) = usable) :
      (keyframeUsable s).Takes Moment.isInterFrame true (!m.awaitsKeyframe) usable [.event e] :=
    ⟨hmove.symm, fun h => absurd h Bool.false_ne_true, trivial⟩
  cases e with
  | packet p =>
      have harrive : (keyframeUsable s).move (!m.awaitsKeyframe) (.event (.packet p))
          = !(m.arrive s p).awaitsKeyframe := by
        rw [awaitsKeyframe_arrive, Bool.not_or, Bool.and_comm p.discontinuous]
        rfl
      refine (keyframeUsable s).takes_append _ _ _ _ _ [_] _ (hevent _ harrive) ?_
      change Gates s (m.arrive s p) (takePacket s p m)
      rcases takePacket_cases s m p with ⟨data, htake⟩ | ⟨id, data, htake⟩
      · rw [htake]
        exact gates_self s (m.arrive s p)
      · rw [htake]
        exact gates_close s p id data (m.arrive s p)
  | loss r => exact hevent _ (Bool.and_true _)
  | flush => exact hevent _ (Bool.and_true _)
  | reset => exact hevent _ (Bool.and_false _)

end Media

namespace Assembly

/-- Losses neither give frames out nor take their use away, so each event of the
    assembly goes along as well. -/
theorem gates_step (s : Settings) (a : Assembly) (e : Event) :
    (keyframeUsable s).Takes Moment.isInterFrame true (!a.awaitsKeyframe)
      (!(step s a e).1.awaitsKeyframe) (.event e :: (step s a e).2.map .output) := by
  have hmedia := media_step s a e
  have hawaits : (step s a e).1.awaitsKeyframe = (Media.step s a.media e).1.awaitsKeyframe :=
    congrArg Media.awaitsKeyframe hmedia.1
  have hgates := Media.gates_step s a.media e
  rw [← hmedia.2, ← hawaits] at hgates
  refine (keyframeUsable s).takes_of_filter _ _ (fun m => m.output?.all Output.isMedia)
    (fun m hm => ?_) _ _ _ ?_
  · cases m with
    | event e => exact absurd hm (Bool.false_ne_true ∘ Eq.symm)
    | output o =>
        cases o with
        | packetLost origin r => exact ⟨rfl, rfl, rfl⟩
        | _ => exact absurd hm (Bool.false_ne_true ∘ Eq.symm)
  · rw [List.filter_cons_of_pos rfl, List.filter_map]
    exact hgates

/-- The assembly knows whether there is a keyframe to build on, in any run. -/
theorem gates_history (s : Settings) (events : List Event) :
    (keyframeUsable s).Takes Moment.isInterFrame true false
      (!(run s {} events).1.awaitsKeyframe) (history s {} events) :=
  (keyframeUsable s).takes_history _ _ (fun a => !a.awaitsKeyframe) s (gates_step s) events {}

end Assembly

-- No two frames end with the same event.
theorem filter_isFrame_eq (s : Settings) (events : List Event) (e : Event) (g : List Event)
    (hg : g ∈ (events ++ [e]).tails) (hframe : isFrame g = true) :
    (events ++ [e]).tails.filter isFrame = [g] := by
  have hmem : g ∈ (events ++ [e]).tails.filter isFrame := List.mem_filter.2 ⟨hg, hframe⟩
  have hreaching := reaching_of_collected s events e
  rw [filter_isFrame_concat] at hmem ⊢
  rcases List.mem_filter.1 hmem with ⟨hreaches, hsized⟩
  cases hcollected : (Media.run s {} events).1.collected e with
  | none =>
      rw [hcollected] at hreaching
      rw [hreaching] at hreaches
      exact absurd hreaches List.not_mem_nil
  | some data =>
      rw [hcollected] at hreaching
      rcases hreaching with ⟨g', hg', _⟩
      rw [hg', List.mem_singleton] at hreaches
      rw [hg', ← hreaches, List.filter_singleton, hsized]
      rfl

/-- An event with which a frame ends gives that frame out, or stands for it, and
    gives nothing else that is complete. -/
theorem complete_of_group (s : Settings) (events : List Event) (e : Event) (g : List Event)
    (hg : g ∈ (events ++ [e]).tails) (hframe : isFrame g = true) :
    ∃ o, ((Assembly.run s {} events).1.step s e).2.filter Output.isComplete = [o]
      ∧ IsOutputOf s o (events ++ [e], g) := by
  have hstep := forall₂_step s events e
  have hmedia : (Assembly.run s {} events).1.media = (Media.run s {} events).1 :=
    (Assembly.media_run s {} events).1
  have hshown := (Assembly.media_step s (Assembly.run s {} events).1 e).2
  -- What is complete is no loss.
  have hkeep : (fun o : Output => o.isComplete && o.isMedia) = Output.isComplete := by
    funext o
    cases o <;> rfl
  rw [← hmedia, ← hshown, List.filter_filter, hkeep, filter_isFrame_eq s events e g hg hframe,
    List.map_singleton] at hstep
  rcases List.forall₂_cons_right_iff.1 hstep with ⟨o, rest, hisOutput, hrest, heq⟩
  rw [List.forall₂_nil_right_iff.1 hrest] at heq
  exact ⟨o, heq, hisOutput⟩

namespace Receiver

/-- An inter frame is given out if there is a keyframe to build on, and asks for one
    if not.

    Before every inter frame that is given out comes a keyframe, later than the last
    time that the stream began anew. If the settings ask for a keyframe after a
    break, no packet behind a break has come after it either.

    And each row of packets that is an inter frame gives just one complete output
    with its last packet: the frame with all its data if such a keyframe stands, and
    the request for one if none does. -/
theorem interFrames_of_keyframe (s : Settings) (calls : List Call) :
    (∀ before f after, history s calls = before ++ .output (.frame f) :: after →
        f.keyframe = false → KeyframeStands s before)
      ∧ ∀ e g header, g ∈ (events calls ++ [e]).tails → isFrame g = true →
        FrameHeader.parse (dataOf g) = .ok header → header.keyframe = false →
        (KeyframeStands s (history s calls ++ [.event e]) →
          ∃ f, ((assemblyAfter s calls).step s e).2.filter Output.isComplete = [.frame f]
            ∧ f.data = dataOf g ∧ f.keyframe = false)
        ∧ (¬ KeyframeStands s (history s calls ++ [.event e]) →
          ((assemblyAfter s calls).step s e).2.filter Output.isComplete = [.keyframeRequest]) := by
  have hgates := Assembly.gates_history s (events calls)
  refine ⟨fun before f after h hinter => ?_, fun e g header hg hframe hheader hinter => ?_⟩
  · have hfinds := hgates.finds
    have hkind : Moment.isInterFrame (.output (.frame f)) = true := by
      rw [Moment.isInterFrame, hinter, Bool.not_false]
    rw [show Assembly.history s {} (events calls) = _ from h] at hfinds
    exact (keyframeStands_iff s before).2
      ((keyframeUsable s).after_of_finds _ true before after _ hfinds hkind)
  · rcases complete_of_group s (events calls) e g hg hframe with
      ⟨o, ho, p, d, header', hlast, hparse, hheader', heq⟩
    rw [hheader, Except.ok.injEq] at hheader'
    subst hheader'
    -- The packet that ends the frame is the event.
    have hreaches : g ∈ (events calls ++ [e]).tails.filter reaches := by
      rw [isFrame, Bool.and_eq_true, Bool.and_eq_true] at hframe
      exact List.mem_filter.2 ⟨hg, hframe.1.1⟩
    have he : e = .packet p :=
      Option.some.inj ((getLast?_of_mem_tails (events calls) e g hreaches).symm.trans hlast)
    have hwaits : (keyframeUsable s).after false (history s calls ++ [.event e])
        = !waitsAt s (events calls) p := by
      rw [Switch.after_append, history, ← hgates.next_eq, he, waitsAt, Bool.not_or,
        Bool.and_comm p.discontinuous]
      rfl
    rw [hinter, Bool.not_false, Bool.true_and, List.dropLast_concat] at heq
    have hafter : assemblyAfter s calls = (Assembly.run s {} (events calls)).1 :=
      assembly_run (start s) calls
    rw [hafter, keyframeStands_iff, hwaits, ho, heq]
    cases waitsAt s (events calls) p with
    | true => exact ⟨fun h => absurd h Bool.false_ne_true, fun _ => rfl⟩
    | false => exact ⟨fun _ => ⟨_, rfl, rfl, rfl⟩, fun h => absurd rfl h⟩

-- With the settings that ask for it, an inter frame is given out behind a keyframe,
-- and not if a packet behind a break has come in between, which cannot be read.
theorem interFrames_of_keyframe_break :
    ∃ (s : Settings) (calls : List Call) (e broken : Event) (before : List Moment) (f : Frame),
      history s (calls ++ [.handle e]) = before ++ .output (.frame f) :: []
        ∧ f.keyframe = false ∧ KeyframeStands s before
        ∧ (∃ f', ((assemblyAfter s calls).step s e).2.filter Output.isComplete = [.frame f'])
        ∧ ((assemblyAfter s (calls ++ [.handle broken])).step s e).2.filter Output.isComplete
          = [.keyframeRequest] := by
  let s : Settings := { keyframeAfterBreak := true }
  let keyframe : Packet :=
    ⟨[144, 128, 127, 16, 0, 0, 157, 1, 42, 64, 1, 240, 0], true, 1, 90, some ⟨10⟩, false⟩
  let broken : Packet := ⟨[144], false, 2, 90, none, true⟩
  let p : Packet :=
    ⟨[144, 128, 0, 17, 0, 0, 0, 0, 0, 0, 0, 0, 0], true, 3, 180, some ⟨20⟩, false⟩
  let header : FrameHeader := ⟨false, 0, 0, 0⟩
  let f : Frame :=
    ⟨[17, 0, 0, 0, 0, 0, 0, 0, 0, 0], false, none, 180, some ⟨20⟩, some (.narrow 0)⟩
  let key : Frame := ⟨[16, 0, 0, 157, 1, 42, 64, 1, 240, 0], true, some ⟨320, 240, 0⟩, 90,
    some ⟨10⟩, some (.narrow 127)⟩
  let before : List Moment := [.event (.packet keyframe), .output (.formatChanged ⟨320, 240, 0⟩),
    .output (.frame key), .event (.packet p)]
  let first : List Call := [.handle (.packet keyframe)]
  let second : List Call := first ++ [.handle (.packet broken)]
  have hheader : FrameHeader.parse (dataOf [.packet p]) = .ok header := by decide +kernel +revert
  have hframe : isFrame [.packet p] = true := by decide +kernel +revert
  have hfirst : [.packet p] ∈ (events first ++ [Event.packet p]).tails := by
    decide +kernel +revert
  have hsecond : [.packet p] ∈ (events second ++ [Event.packet p]).tails := by
    decide +kernel +revert
  have hhistory : history s (first ++ [.handle (.packet p)])
      = before ++ .output (.frame f) :: [] := by
    decide +kernel +revert
  have hstands :
      (keyframeUsable s).after false (history s first ++ [.event (.packet p)]) = true := by
    decide +kernel +revert
  have hbroken :
      ¬ (keyframeUsable s).after false (history s second ++ [.event (.packet p)]) = true := by
    decide +kernel +revert
  have hshown := (interFrames_of_keyframe s first).2 (.packet p) [.packet p] header hfirst hframe
    hheader rfl
  have hasked := (interFrames_of_keyframe s second).2 (.packet p) [.packet p] header hsecond hframe
    hheader rfl
  rcases hshown.1 ((keyframeStands_iff s _).2 hstands) with ⟨f', hf', _⟩
  have hboth := interFrames_of_keyframe s (first ++ [.handle (.packet p)])
  exact ⟨s, first, .packet p, .packet broken, before, f, hhistory, rfl,
    hboth.1 before f [] hhistory rfl, ⟨f', hf'⟩,
    hasked.2 fun h => hbroken ((keyframeStands_iff s _).1 h)⟩

end Receiver

end Vp8

end VideoTransport

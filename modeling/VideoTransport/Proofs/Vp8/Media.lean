import VideoTransport.Proofs.Vp8.StepParts

/-!
# Media without Losses

What an assembly does with frames, without all that it does about losses.

An assembly has eight fields, and five of them only decide which losses are
told, and when. The other three are a machine of their own: `Media`. It sees the
same events, and makes the same frames, formats and requests for keyframes, in
the same order. What is proved about frames is proved about this machine, and
carried over by `media_run`. Nothing there has to be proved again when the
signalling of losses changes, as long as each of its steps is `Quiet`.

## Main definitions

* `Media`: The frame in progress, what frames are of use, and their format.
* `Media.step`, `Media.run`: One event, and a list of events.
* `Assembly.Shows`: A step of the assembly is a step of the media machine.
* `Assembly.Quiet`: A step does nothing but report losses.

## Theorems

* `FrameHeader.parse_eq_ok_iff`: Data of ten bytes or more has a header.
* `Assembly.quiet_checkContinuity`, `Assembly.quiet_skipPacket`: Losses leave media alone.
* `Assembly.media_step`, `Assembly.media_run`: Events, and runs, are the same for media.
-/

namespace VideoTransport

namespace Vp8

/-- A header is found in all data that is large enough for one. -/
theorem FrameHeader.parse_eq_ok_iff (frame : List UInt8) :
    (∃ header, FrameHeader.parse frame = .ok header) ↔ 10 ≤ frame.length := by
  rcases frame with _ | ⟨_, _ | ⟨_, _ | ⟨_, _ | ⟨_, _ | ⟨_, _ | ⟨_, _ | ⟨_, _ | ⟨_, _ | ⟨_, _ |
    ⟨_, _⟩⟩⟩⟩⟩⟩⟩⟩⟩⟩
  all_goals simp [FrameHeader.parse]

/-- What is left of an assembly if losses are not looked at. -/
structure Media where
  partialFrame : Option (List UInt8) := none
  awaitsKeyframe : Bool := true
  currentFormat : Option Format := none
deriving DecidableEq

/-- The output is not about a loss. -/
def Output.isMedia : Output → Bool
  | .packetLost _ _ => false
  | _ => true

namespace Media

/-- The last packet of a frame, of which `data` is all there is. -/
def close (p : Packet) (id : Option PictureId) (data : List UInt8) (m : Media) :
    Media × List Output :=
  match FrameHeader.parse data with
  | .error _ => ({ m with partialFrame := none }, [])
  | .ok header =>
    let frame : Output := .frame ⟨data, header.keyframe, header.format, p.rtpTime, p.pts, id⟩
    match header.format with
    | some f =>
      (⟨none, false, some f⟩,
        (if m.currentFormat = some f then [] else [.formatChanged f]) ++ [frame])
    | none =>
      ({ m with partialFrame := none }, [if m.awaitsKeyframe then .keyframeRequest else frame])

/-- Adds the data of a packet to the frame in progress. -/
def extend (p : Packet) (d : Descriptor) (collected : List UInt8) (m : Media) :
    Media × List Output :=
  if p.marker then close p d.pictureId (collected ++ p.payload.drop d.length) m
  else ({ m with partialFrame := some (collected ++ p.payload.drop d.length) }, [])

/-- Breaks off the frame in progress where the stream is broken. -/
def breakOff (s : Settings) (m : Media) : Media :=
  { m with partialFrame := none, awaitsKeyframe := m.awaitsKeyframe || s.keyframeAfterBreak }

/-- The part of a packet behind its descriptor, once that has been read. -/
def takePart (p : Packet) (d : Descriptor) (m : Media) : Media × List Output :=
  match if d.startsFrame then some [] else m.partialFrame with
  | some collected => extend p d collected m
  | none => (m, [])

/-- One packet. A payload that cannot be read ends the frame in progress. -/
def takePacket (s : Settings) (p : Packet) (m : Media) : Media × List Output :=
  let m := if p.discontinuous then breakOff s m else m
  match Descriptor.parse p.payload with
  | .error _ => ({ m with partialFrame := none }, [])
  | .ok d => takePart p d m

/-- One event. -/
def step (s : Settings) (m : Media) : Event → Media × List Output
  | .packet p => takePacket s p m
  | .loss _ => (m, [])
  | .flush => ({ awaitsKeyframe := m.awaitsKeyframe }, [])
  | .reset => ({}, [])

/-- A list of events, with all that they cause. -/
def run (s : Settings) (m : Media) : List Event → Media × List Output
  | [] => (m, [])
  | e :: rest => ((run s (step s m e).1 rest).1, (step s m e).2 ++ (run s (step s m e).1 rest).2)

theorem run_append (s : Settings) (m : Media) (first rest : List Event) :
    run s m (first ++ rest) = ((run s (run s m first).1 rest).1,
      (run s m first).2 ++ (run s (run s m first).1 rest).2) := by
  induction first generalizing m with
  | nil => rfl
  | cons e more ih => rw [List.cons_append, run, run, ih, List.append_assoc]

end Media

namespace Assembly

/-- What is left of the assembly if losses are not looked at. -/
def media (a : Assembly) : Media :=
  ⟨a.partialFrame, a.awaitsKeyframe, a.currentFormat⟩

/-- A step of the assembly is one of the media machine, and gives the same but
    for losses. -/
def Shows (r : Assembly × List Output) (q : Media × List Output) : Prop :=
  r.1.media = q.1 ∧ r.2.filter Output.isMedia = q.2

/-- A step does nothing but report losses. -/
def Quiet (a : Assembly) (r : Assembly × List Output) : Prop :=
  Shows r (a.media, [])

-- Two steps in a row are two of the media machine.
theorem shows_andThen (r : Assembly × List Output) (q : Media × List Output)
    (next : Assembly → Assembly × List Output) (q' : Media × List Output) (h : Shows r q)
    (hnext : Shows (next r.1) q') : Shows (andThen r next) (q'.1, q.2 ++ q'.2) := by
  refine ⟨hnext.1, ?_⟩
  rw [andThen, List.filter_append, h.2, hnext.2]

-- After a quiet step, the next one decides what is shown.
theorem shows_andThen_quiet (a : Assembly) (r : Assembly × List Output)
    (next : Assembly → Assembly × List Output) (q : Media × List Output) (h : Quiet a r)
    (hnext : Shows (next r.1) q) : Shows (andThen r next) q :=
  shows_andThen r (a.media, []) next q h hnext

-- Two quiet steps in a row are quiet.
theorem quiet_andThen (a : Assembly) (r : Assembly × List Output)
    (next : Assembly → Assembly × List Output) (h : Quiet a r) (hnext : Quiet r.1 (next r.1)) :
    Quiet a (andThen r next) := by
  rw [Quiet, h.1] at hnext
  exact shows_andThen_quiet a r next _ h hnext

theorem quiet_self (a : Assembly) : Quiet a (a, []) :=
  ⟨rfl, rfl⟩

theorem quiet_releaseHeld (a : Assembly) : Quiet a (releaseHeld a) := by
  rw [releaseHeld]
  cases a.withheld with
  | none => exact quiet_self a
  | some r => exact ⟨rfl, rfl⟩

theorem quiet_ensureReported (pts : Option Duration) (a : Assembly) :
    Quiet a (ensureReported pts a) := by
  unfold ensureReported
  by_cases hheld : a.withheld.isSome = true
  · rw [if_pos hheld]
    exact quiet_releaseHeld { a with reportDue := false }
  · rw [if_neg hheld]
    by_cases hreported : a.lossReported = true
    · rw [if_pos hreported]
      exact ⟨rfl, rfl⟩
    · rw [if_neg hreported]
      cases pts with
      | none => exact ⟨rfl, rfl⟩
      | some time => exact ⟨rfl, rfl⟩

theorem quiet_checkContinuity (s : Settings) (next : Option PictureId) (pts : Option Duration)
    (a : Assembly) : Quiet a (checkContinuity s next pts a) := by
  rw [checkContinuity]
  cases a.lastId with
  | none => exact quiet_self a
  | some last =>
      simp only
      cases last.continuity next with
      | follows => exact ⟨rfl, rfl⟩
      | undecided => exact quiet_releaseHeld a
      | gap =>
          simp only
          by_cases hhide : (a.withheld.isSome || s.hideIdGaps) = true
          · rw [if_pos hhide]
            exact quiet_releaseHeld a
          · rw [if_neg hhide]
            exact quiet_ensureReported pts a

theorem quiet_settleLosses (s : Settings) (next : Option PictureId) (pts : Option Duration)
    (a : Assembly) : Quiet a (settleLosses s next pts a) := by
  unfold settleLosses
  by_cases hdue : a.reportDue = true
  · rw [if_pos hdue]
    refine quiet_andThen _ _ _ (quiet_ensureReported pts a) ?_
    generalize (ensureReported pts a).1 = reported
    by_cases hreported : reported.lossReported = true
    · rw [if_pos hreported]
      exact quiet_self reported
    · rw [if_neg hreported]
      exact quiet_checkContinuity s next pts reported
  · rw [if_neg hdue]
    exact quiet_checkContinuity s next pts a

theorem quiet_skipPacket (pts : Option Duration) (a : Assembly) : Quiet a (skipPacket pts a) := by
  rw [skipPacket_eq]
  refine quiet_andThen a _ _ ?_ ?_
  · unfold stopHolding
    by_cases hholds : a.holdsLosses = true
    · rw [if_pos hholds]
      exact quiet_andThen a _ _ (quiet_releaseHeld a) ⟨rfl, rfl⟩
    · rw [if_neg hholds]
      exact quiet_self a
  · generalize (stopHolding a).1 = stopped
    unfold tellDue
    by_cases hdue : stopped.reportDue = true
    · rw [if_pos hdue]
      exact quiet_ensureReported pts stopped
    · rw [if_neg hdue]
      exact quiet_self stopped

-- The first packet of a frame leaves no data of another one behind.
theorem shows_openFrame (s : Settings) (next : Option PictureId) (pts : Option Duration)
    (a : Assembly) :
    Shows (openFrame s next pts a) ({ a.media with partialFrame := some [] }, []) := by
  have hsettle := quiet_settleLosses s next pts a.abandonFrame
  have hmedia := hsettle.1
  rw [media, media, Media.mk.injEq] at hmedia
  rw [openFrame_eq]
  refine ⟨?_, hsettle.2⟩
  rw [media, Media.mk.injEq]
  exact ⟨rfl, hmedia.2⟩

theorem shows_closeFrame (p : Packet) (id : Option PictureId) (data : List UInt8) (a : Assembly) :
    Shows (closeFrame p id data a) (a.media.close p id data) := by
  rw [closeFrame, Media.close]
  cases FrameHeader.parse data with
  | error err => exact ⟨rfl, rfl⟩
  | ok header =>
      simp only
      cases header.format with
      | none =>
          by_cases hawaits : a.awaitsKeyframe = true
          · simp only [Shows, andThen, announce, media, hawaits, if_true]
            exact ⟨trivial, rfl⟩
          · simp only [Shows, andThen, announce, media, hawaits]
            exact ⟨rfl, rfl⟩
      | some f =>
          by_cases hformat : a.currentFormat = some f
          · simp only [Shows, andThen, announce, media, hformat, if_true]
            exact ⟨rfl, rfl⟩
          · simp only [Shows, andThen, announce, media, hformat, if_false]
            exact ⟨rfl, rfl⟩

theorem shows_extendFrame (p : Packet) (d : Descriptor) (collected : List UInt8) (a : Assembly) :
    Shows (extendFrame p d collected a) (a.media.extend p d collected) := by
  rw [extendFrame, Media.extend]
  by_cases hmarker : p.marker = true
  · rw [if_pos hmarker, if_pos hmarker]
    -- The data has been put in the frame in progress, which is closed with it.
    have hclose := shows_closeFrame p d.pictureId (collected ++ p.payload.drop d.length)
      { a with
        partialFrame := some (collected ++ p.payload.drop d.length)
        lastId := d.pictureId }
    have hsame : (media { a with
        partialFrame := some (collected ++ p.payload.drop d.length)
        lastId := d.pictureId }).close p d.pictureId (collected ++ p.payload.drop d.length)
        = a.media.close p d.pictureId (collected ++ p.payload.drop d.length) := rfl
    rw [hsame] at hclose
    exact hclose
  · rw [if_neg hmarker, if_neg hmarker]
    exact ⟨rfl, rfl⟩

theorem shows_takePart (s : Settings) (p : Packet) (d : Descriptor) (a : Assembly) :
    Shows (takePart s p d a) (a.media.takePart p d) := by
  rw [takePart, Media.takePart]
  by_cases hstarts : d.startsFrame = true
  · have hopen := shows_openFrame s d.pictureId p.pts a
    have hpartial : (openFrame s d.pictureId p.pts a).1.partialFrame = some [] :=
      congrArg Media.partialFrame hopen.1
    simp only [hstarts, if_true]
    have hextend := shows_extendFrame p d [] (openFrame s d.pictureId p.pts a).1
    rw [hopen.1] at hextend
    refine shows_andThen _ _ _ _ hopen ?_
    simp only [hpartial]
    exact hextend
  · have hmedia : a.media.partialFrame = a.partialFrame := rfl
    rw [if_neg hstarts, if_neg hstarts, hmedia]
    refine shows_andThen_quiet a _ _ _ (quiet_self a) ?_
    simp only
    cases a.partialFrame with
    | none => exact quiet_skipPacket p.pts a
    | some collected => exact shows_extendFrame p d collected a

-- One packet is the same for media, whatever is done about losses.
theorem shows_takePacket (s : Settings) (p : Packet) (a : Assembly) :
    Shows (takePacket s p a) (a.media.takePacket s p) := by
  have hbroken : (if p.discontinuous then breakOff s a else a).media
      = if p.discontinuous then a.media.breakOff s else a.media := by
    by_cases hdiscontinuous : p.discontinuous = true
    · rw [if_pos hdiscontinuous, if_pos hdiscontinuous]
      rfl
    · rw [if_neg hdiscontinuous, if_neg hdiscontinuous]
  rw [takePacket, Media.takePacket, ← hbroken]
  cases Descriptor.parse p.payload with
  | error err => exact ⟨rfl, rfl⟩
  | ok d => exact shows_takePart s p d _

/-- One event is the same for media, whatever is done about losses. -/
theorem media_step (s : Settings) (a : Assembly) (e : Event) :
    Shows (step s a e) (Media.step s a.media e) := by
  cases e with
  | packet p => exact shows_takePacket s p a
  | loss r =>
      rw [step, takeLoss]
      by_cases hholds : a.holdsLosses = true
      · rw [if_pos hholds]
        exact ⟨rfl, rfl⟩
      · rw [if_neg hholds]
        exact ⟨rfl, rfl⟩
  | flush => exact ⟨rfl, rfl⟩
  | reset => exact ⟨rfl, rfl⟩

/-- A run is the same for media, whatever is done about losses. -/
theorem media_run (s : Settings) (a : Assembly) (events : List Event) :
    Shows (run s a events) (Media.run s a.media events) := by
  induction events generalizing a with
  | nil => exact ⟨rfl, rfl⟩
  | cons e rest ih =>
      have hstep := media_step s a e
      have hrest := ih (step s a e).1
      rw [hstep.1] at hrest
      exact shows_andThen _ _ _ _ hstep hrest

end Assembly

end Vp8

end VideoTransport

import Mathlib.Data.List.Forall2
import Mathlib.Data.List.Induction
import VideoTransport.Proofs.Vp8.FrameGroups
import VideoTransport.Proofs.Vp8.Media
import VideoTransport.Proofs.Vp8.ReceiverRuns

/-!
# Frames that are Found

A receiver finds the frames that are there, and no others.

The machine does not know groups. It keeps the data of one of them, and only
until it is given up. What ties the two together is `tails_open`: after any
events, the data in progress is that of the one group that has begun and is
still open, and there is none if no group is. The induction is from the end of
the events, since that is where a group grows.

## Main definitions

* `Output.isComplete`: The output stands for a complete frame.
* `IsOutputOf`: What is given out for a frame.
* `Media.collected`: The data of the group that an event belongs to.

## Theorems

* `Media.takePacket_cases`: A packet gives nothing out, or a frame ends with it.
* `Media.partialFrame_step`: What an event does to the data in progress.
* `Media.complete_step`: What is given out when a group ends.
* `tails_open`: The data in progress is that of the group that is open.
* `Receiver.complete_outputs`: The frames that are found are the groups, in order.
-/

namespace VideoTransport

namespace Vp8

/-- The output is a frame, or stands for a complete one that was dropped. -/
def Output.isComplete : Output → Bool
  | .frame _ => true
  | .keyframeRequest => true
  | _ => false

/-- Whether inter frames are of no use when a packet comes after some events. -/
def waitsAt (s : Settings) (before : List Event) (p : Packet) : Bool :=
  (Assembly.run s {} before).1.awaitsKeyframe || (p.discontinuous && s.keyframeAfterBreak)

/-- An output is what a frame is given out as. All that a frame says of itself
    is read from the data of its group or from its last packet. An inter frame
    is dropped if only a keyframe is of use. -/
def IsOutputOf (s : Settings) (o : Output) (group : List Event × List Event) : Prop :=
  ∃ p d header, group.2.getLast? = some (.packet p) ∧ Descriptor.parse p.payload = .ok d
    ∧ FrameHeader.parse (dataOf group.2) = .ok header
    ∧ o = if !header.keyframe && waitsAt s group.1.dropLast p then .keyframeRequest
      else .frame ⟨dataOf group.2, header.keyframe, header.format, p.rtpTime, p.pts, d.pictureId⟩

namespace Media

/-- The data of the group that an event belongs to, if there is one. -/
def collected (m : Media) (e : Event) : Option (List UInt8) :=
  if e.opens then some e.part
  else if e.continues then m.partialFrame.map (· ++ e.part)
  else none

/-- The machine when a packet arrives, before that is looked at. -/
def arrive (s : Settings) (p : Packet) (m : Media) : Media :=
  if p.discontinuous then breakOff s m else m

-- A packet that can be read adds to the data of its group, or finds none.
theorem takePacket_eq (s : Settings) (m : Media) (p : Packet) (d : Descriptor)
    (hparse : Descriptor.parse p.payload = .ok d) :
    takePacket s p m = match m.collected (.packet p) with
      | none => ({ m.arrive s p with partialFrame := none }, [])
      | some data =>
        if p.marker then close p d.pictureId data (m.arrive s p)
        else ({ m.arrive s p with partialFrame := some data }, []) := by
  have hopens : (Event.packet p).opens = d.startsFrame := by
    simp only [Event.opens, hparse]
  have hcontinues : (Event.packet p).continues = (!p.discontinuous && !d.startsFrame) := by
    simp only [Event.continues, hparse]
  have hpart : (Event.packet p).part = p.payload.drop d.length := by
    simp only [Event.part, hparse]
  simp only [takePacket, hparse]
  rw [collected, takePart, hopens, hcontinues, hpart]
  by_cases hstarts : d.startsFrame = true
  · rw [if_pos hstarts, if_pos hstarts]
    rfl
  · rw [if_neg hstarts, if_neg hstarts, Bool.eq_false_iff.2 hstarts, Bool.not_false, Bool.and_true]
    by_cases hbroken : p.discontinuous = true
    · -- A break has taken the data away before the packet is looked at.
      simp only [arrive, hbroken, if_true, breakOff, Bool.not_true, Bool.false_eq_true, if_false]
    · simp only [arrive, hbroken, Bool.not_false, if_true, Bool.false_eq_true, if_false]
      cases hpartial : m.partialFrame with
      | none =>
          simp only [Option.map_none]
          rw [← hpartial]
      | some data => rfl

theorem collected_of_error (m : Media) (p : Packet) (err : DescriptorError)
    (hparse : Descriptor.parse p.payload = .error err) : m.collected (.packet p) = none := by
  simp only [collected, Event.opens, Event.continues, hparse, Bool.false_eq_true, if_false]

theorem takePacket_of_error (s : Settings) (m : Media) (p : Packet) (err : DescriptorError)
    (hparse : Descriptor.parse p.payload = .error err) :
    takePacket s p m = ({ m.arrive s p with partialFrame := none }, []) := by
  simp only [takePacket, hparse, arrive]

/-- A packet gives nothing out, or it is the last one of a frame. -/
theorem takePacket_cases (s : Settings) (m : Media) (p : Packet) :
    (∃ data, takePacket s p m = ({ m.arrive s p with partialFrame := data }, []))
      ∨ ∃ id data, takePacket s p m = close p id data (m.arrive s p) := by
  cases hparse : Descriptor.parse p.payload with
  | error err => exact Or.inl ⟨none, takePacket_of_error s m p err hparse⟩
  | ok d =>
      rw [takePacket_eq s m p d hparse]
      cases m.collected (.packet p) with
      | none => exact Or.inl ⟨none, rfl⟩
      | some data =>
          by_cases hmarker : p.marker = true
          · simp only [hmarker, if_true]
            exact Or.inr ⟨d.pictureId, data, rfl⟩
          · simp only [hmarker, Bool.false_eq_true, if_false]
            exact Or.inl ⟨some data, rfl⟩

theorem partialFrame_close (p : Packet) (id : Option PictureId) (data : List UInt8) (m : Media) :
    (close p id data m).1.partialFrame = none := by
  unfold close
  cases FrameHeader.parse data with
  | error err => rfl
  | ok header =>
      simp only
      cases header.format with
      | none => rfl
      | some f => rfl

/-- What an event does to the data in progress: an end clears it, and so does
    all that can neither begin a group nor go on with it. -/
theorem partialFrame_step (s : Settings) (m : Media) (e : Event) :
    (step s m e).1.partialFrame = if e.ends then none else m.collected e := by
  cases e with
  | packet p =>
      change (takePacket s p m).1.partialFrame = if p.marker then none else m.collected (.packet p)
      cases hparse : Descriptor.parse p.payload with
      | error err =>
          rw [takePacket_of_error s m p err hparse, m.collected_of_error p err hparse, ite_self]
      | ok d =>
          rw [takePacket_eq s m p d hparse]
          cases m.collected (.packet p) with
          | none => rw [ite_self]
          | some data =>
              by_cases hmarker : p.marker = true
              · simp only [hmarker, if_true]
                exact partialFrame_close p d.pictureId data _
              · simp only [hmarker, Bool.false_eq_true, if_false]
  | loss r =>
      change m.partialFrame = m.partialFrame.map (· ++ [])
      cases m.partialFrame with
      | none => rfl
      | some data => rw [Option.map_some, List.append_nil]
  | flush => rfl
  | reset => rfl

-- The last packet of a group that has data enough gives one complete output,
-- and any format that it announces before it.
theorem complete_close (p : Packet) (id : Option PictureId) (data : List UInt8) (m : Media)
    (header : FrameHeader) (hheader : FrameHeader.parse data = .ok header) :
    (close p id data m).2.filter Output.isComplete
      = [if !header.keyframe && m.awaitsKeyframe then .keyframeRequest
        else .frame ⟨data, header.keyframe, header.format, p.rtpTime, p.pts, id⟩] := by
  simp only [close, hheader]
  by_cases hkeyframe : header.keyframe = true
  · rw [FrameHeader.format, if_pos hkeyframe, hkeyframe, Bool.not_true, Bool.false_and]
    simp only [List.filter_append, Bool.false_eq_true, if_false]
    by_cases hformat : m.currentFormat = some ⟨header.width, header.height, header.profile⟩
    · rw [if_pos hformat]
      rfl
    · rw [if_neg hformat]
      rfl
  · rw [FrameHeader.format, if_neg hkeyframe, Bool.eq_false_iff.2 hkeyframe, Bool.not_false,
      Bool.true_and]
    by_cases hawaits : m.awaitsKeyframe = true
    · rw [if_pos hawaits]
      rfl
    · rw [if_neg hawaits]
      rfl

theorem awaitsKeyframe_arrive (s : Settings) (p : Packet) (m : Media) :
    (m.arrive s p).awaitsKeyframe
      = (m.awaitsKeyframe || (p.discontinuous && s.keyframeAfterBreak)) := by
  rw [arrive]
  by_cases hbroken : p.discontinuous = true
  · rw [if_pos hbroken, hbroken, Bool.true_and]
    rfl
  · rw [if_neg hbroken, Bool.eq_false_iff.2 hbroken, Bool.false_and, Bool.or_false]

/-- An event that ends a group with data enough gives one complete output. -/
theorem complete_step (s : Settings) (m : Media) (e : Event) (data : List UInt8)
    (hcollected : m.collected e = some data) (hends : e.ends = true) (hsized : 10 ≤ data.length) :
    ∃ p d header, e = .packet p ∧ Descriptor.parse p.payload = .ok d
      ∧ FrameHeader.parse data = .ok header
      ∧ (step s m e).2.filter Output.isComplete
        = [if !header.keyframe && (m.awaitsKeyframe || (p.discontinuous && s.keyframeAfterBreak))
          then .keyframeRequest
          else .frame ⟨data, header.keyframe, header.format, p.rtpTime, p.pts, d.pictureId⟩] := by
  cases e with
  | packet p =>
      cases hparse : Descriptor.parse p.payload with
      | error err =>
          rw [m.collected_of_error p err hparse] at hcollected
          cases hcollected
      | ok d =>
          rcases (FrameHeader.parse_eq_ok_iff data).2 hsized with ⟨header, hheader⟩
          have hmarker : p.marker = true := hends
          refine ⟨p, d, header, rfl, hparse, hheader, ?_⟩
          change (takePacket s p m).2.filter Output.isComplete = _
          rw [takePacket_eq s m p d hparse, hcollected]
          simp only [hmarker, if_true]
          rw [complete_close p d.pictureId data _ header hheader, awaitsKeyframe_arrive]
  | _ => exact absurd hends Bool.false_ne_true

-- No other event gives a complete output.
theorem complete_step_eq_nil (s : Settings) (m : Media) (e : Event)
    (h : ∀ data, m.collected e = some data → e.ends = true → ¬ 10 ≤ data.length) :
    (step s m e).2.filter Output.isComplete = [] := by
  cases e with
  | packet p =>
      change (takePacket s p m).2.filter Output.isComplete = []
      cases hparse : Descriptor.parse p.payload with
      | error err =>
          rw [takePacket_of_error s m p err hparse]
          rfl
      | ok d =>
          rw [takePacket_eq s m p d hparse]
          cases hcollected : m.collected (.packet p) with
          | none => rfl
          | some data =>
              by_cases hmarker : p.marker = true
              · have hshort := h data hcollected hmarker
                simp only [hmarker, if_true]
                cases hheader : FrameHeader.parse data with
                | error err =>
                    simp only [close, hheader]
                    rfl
                | ok header =>
                    exact absurd ((FrameHeader.parse_eq_ok_iff data).1 ⟨header, hheader⟩) hshort
              · simp only [hmarker]
                rfl
  | _ => rfl

theorem run_concat (s : Settings) (m : Media) (events : List Event) (e : Event) :
    run s m (events ++ [e]) = ((step s (run s m events).1 e).1,
      (run s m events).2 ++ (step s (run s m events).1 e).2) := by
  rw [run_append, run, run, List.append_nil]

end Media

-- The data of the group that reaches an event is what the machine has
-- collected, if that holds of the group that is open before it.
theorem map_dataOf_reaching (m : Media) (events : List Event) (e : Event)
    (hopen : (events.tails.filter isOpen).map dataOf = m.partialFrame.toList) :
    ((events ++ [e]).tails.filter reaches).map dataOf = (m.collected e).toList := by
  rw [tails_reaching, Media.collected]
  by_cases hopens : e.opens = true
  · rw [if_pos hopens, if_pos hopens, List.map_singleton, dataOf, List.flatMap_singleton]
    rfl
  · rw [if_neg hopens, if_neg hopens]
    by_cases hcontinues : e.continues = true
    · rw [if_pos hcontinues, if_pos hcontinues, List.map_map]
      have hgrow : dataOf ∘ (· ++ [e]) = (· ++ e.part) ∘ dataOf := by
        funext g
        simp only [Function.comp_apply, dataOf, List.flatMap_append, List.flatMap_singleton]
      rw [hgrow, ← List.map_map, hopen]
      cases m.partialFrame with
      | none => rfl
      | some data => rfl
    · rw [if_neg hcontinues, if_neg hcontinues]
      rfl

/-- The data in progress is that of the group that is open, and there is none if
    no group is. -/
theorem tails_open (s : Settings) (events : List Event) :
    (events.tails.filter isOpen).map dataOf
      = (Media.run s {} events).1.partialFrame.toList := by
  induction events using List.reverseRecOn with
  | nil => rfl
  | append_singleton events e ih =>
      rw [Media.run_concat, Media.partialFrame_step, tails_isOpen_concat]
      by_cases hends : e.ends = true
      · rw [if_pos hends, if_pos hends]
        rfl
      · rw [if_neg hends, if_neg hends]
        exact map_dataOf_reaching _ events e ih

-- No group reaches an event for which nothing is collected, and just one
-- reaches any other.
theorem reaching_of_collected (s : Settings) (events : List Event) (e : Event) :
    match (Media.run s {} events).1.collected e with
    | none => (events ++ [e]).tails.filter reaches = []
    | some data => ∃ g, (events ++ [e]).tails.filter reaches = [g] ∧ dataOf g = data
      ∧ g.getLast? = some e := by
  have hreaching := map_dataOf_reaching _ events e (tails_open s events)
  cases hcollected : (Media.run s {} events).1.collected e with
  | none =>
      rw [hcollected, Option.toList_none, List.map_eq_nil_iff] at hreaching
      exact hreaching
  | some data =>
      rw [hcollected, Option.toList_some, List.map_eq_singleton_iff] at hreaching
      rcases hreaching with ⟨g, hg, hdata⟩
      refine ⟨g, hg, hdata, getLast?_of_mem_tails events e g ?_⟩
      rw [hg]
      exact List.mem_singleton_self g

-- What an event gives out is what the groups that end with it are given out as.
theorem forall₂_step (s : Settings) (events : List Event) (e : Event) :
    List.Forall₂ (IsOutputOf s)
      ((Media.step s (Media.run s {} events).1 e).2.filter Output.isComplete)
      (((events ++ [e]).tails.filter isFrame).map fun g => (events ++ [e], g)) := by
  have hreaching := reaching_of_collected s events e
  have hmedia : (Assembly.run s {} events).1.media = (Media.run s {} events).1 :=
    (Assembly.media_run s {} events).1
  rw [filter_isFrame_concat]
  cases hcollected : (Media.run s {} events).1.collected e with
  | none =>
      rw [hcollected] at hreaching
      rw [hreaching, Media.complete_step_eq_nil s _ e fun data hdata => by
        rw [hcollected] at hdata
        cases hdata]
      exact List.Forall₂.nil
  | some data =>
      rw [hcollected] at hreaching
      rcases hreaching with ⟨g, hg, hdata, hlast⟩
      rw [hg, List.filter_singleton, hdata]
      by_cases hframe : e.ends = true ∧ 10 ≤ data.length
      · rcases Media.complete_step s _ e data hcollected hframe.1 hframe.2 with
          ⟨p, d, header, hpacket, hparse, hheader, hcomplete⟩
        rw [hcomplete, hframe.1, decide_eq_true hframe.2]
        refine List.Forall₂.cons ⟨p, d, header, ?_, hparse, ?_, ?_⟩ List.Forall₂.nil
        · rw [hlast, hpacket]
        · rw [hdata]
          exact hheader
        · rw [waitsAt, List.dropLast_concat, hdata, ← hmedia]
          rfl
      · have hnone : (e.ends && decide (10 ≤ data.length)) = false := by
          rw [Bool.eq_false_iff, ne_eq, Bool.and_eq_true, decide_eq_true_eq]
          exact hframe
        rw [hnone, Media.complete_step_eq_nil s _ e fun data' hdata' hends hsized => by
          rw [hcollected, Option.some.injEq] at hdata'
          rw [← hdata'] at hsized
          exact hframe ⟨hends, hsized⟩]
        exact List.Forall₂.nil

-- The complete outputs of a run of the machine are its groups, in order.
theorem forall₂_groups (s : Settings) (events : List Event) :
    List.Forall₂ (IsOutputOf s) ((Media.run s {} events).2.filter Output.isComplete)
      (groups events) := by
  induction events using List.reverseRecOn with
  | nil => exact List.Forall₂.nil
  | append_singleton events e ih =>
      rw [Media.run_concat, groups_concat, List.filter_append]
      exact List.rel_append ih (forall₂_step s events e)

namespace Receiver

/-- The complete frames that a receiver finds, given out or dropped for want of a
    keyframe, are the groups among its events, one by one and in order. -/
theorem complete_outputs (s : Settings) (calls : List Call) :
    List.Forall₂ (IsOutputOf s) (((start s).outputs calls).filter Output.isComplete)
      (groups (events calls)) := by
  have hmedia : (Assembly.run s {} (events calls)).2.filter Output.isMedia
      = (Media.run s {} (events calls)).2 := (Assembly.media_run s {} (events calls)).2
  have hkeep : (fun o : Output => o.isComplete && o.isMedia) = Output.isComplete := by
    funext o
    cases o <;> rfl
  have hgroups := forall₂_groups s (events calls)
  rw [← hmedia, List.filter_filter, hkeep] at hgroups
  rw [outputs_eq]
  exact hgroups

end Receiver

end Vp8

end VideoTransport

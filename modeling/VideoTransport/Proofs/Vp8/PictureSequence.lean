import VideoTransport.Proofs.Vp8.FoundFrames
import VideoTransport.Proofs.Vp8.UntoldLosses

/-!
# Sequence of Pictures

No picture comes out of sequence unless those downstream have been told.

What follows on a frame is the first packet of the next one, since identifiers
are compared where a frame begins. The identifier of a frame is that of its last
packet. The two differ if the end of one picture and the beginning of the next
one are missing in between. The packets tell, since their identifiers differ, but
within a frame identifiers are not compared.

The induction is over the events, from the end, with what has been told kept in
view by `Output.watch`. `Continues` puts the state of the assembly beside the
groups of packets that are open: each of them follows on the last frame.

## Main definitions

* `openingId`, `closingId`: The identifiers of the first and the last packet of a group.
* `lastShown`: The last frame, if nothing has been told since.
* `Continues`: What has begun since the last frame follows on it.

## Theorems

* `continues_of_lastShown`: As long as nothing has been told, what comes follows on the last frame.
* `follows_of_lastShown`: The next frame begins with the identifier that follows.
* `Receiver.follows_of_untold`: The same for two frames among the outputs.
* `Receiver.joined_pictures`: A frame may end with another identifier.
-/

namespace VideoTransport

namespace Vp8

/-- The identifier of the first packet of a group. -/
def openingId (g : List Event) : Option PictureId :=
  g.head?.bind Event.pictureId

/-- The identifier of the last packet of a group. -/
def closingId (g : List Event) : Option PictureId :=
  g.getLast?.bind Event.pictureId

namespace Output

/-- The last frame after one more output, if nothing has been told since. A
    format tells nothing. -/
def watch (shown : Option Frame) : Output → Option Frame
  | .frame f => some f
  | .formatChanged _ => shown
  | .keyframeRequest => none
  | .packetLost _ _ => none

end Output

/-- The last frame among some outputs, if nothing has been told since. -/
def lastShown (outputs : List Output) : Option Frame :=
  outputs.foldl Output.watch none

theorem foldl_watch_formats (shown : Option Frame) (outputs : List Output)
    (h : ∀ o ∈ outputs, o.isFormat = true) : outputs.foldl Output.watch shown = shown := by
  induction outputs generalizing shown with
  | nil => rfl
  | cons o rest ih =>
      have ho := h o List.mem_cons_self
      cases o with
      | formatChanged f => exact ih shown fun q hq => h q (List.mem_cons_of_mem _ hq)
      | _ => exact absurd ho Bool.false_ne_true

-- If no frame is among some outputs, the last one was shown before them, and
-- nothing has been told.
theorem foldl_watch_eq_some (shown : Option Frame) (outputs : List Output) (f : Frame)
    (hframes : ∀ o ∈ outputs, o.frame? = none) (h : outputs.foldl Output.watch shown = some f) :
    shown = some f ∧ ∀ o ∈ outputs, o.isFormat = true := by
  induction outputs generalizing shown with
  | nil => exact ⟨h, fun o ho => absurd ho List.not_mem_nil⟩
  | cons o rest ih =>
      rcases ih (Output.watch shown o) (fun q hq => hframes q (List.mem_cons_of_mem _ hq)) h with
        ⟨hshown, hrest⟩
      have ho := hframes o List.mem_cons_self
      cases o with
      | frame g => exact absurd ho (Option.some_ne_none g)
      | formatChanged g =>
          refine ⟨hshown, fun q hq => ?_⟩
          rcases List.mem_cons.1 hq with hq | hq
          · rw [hq]
            rfl
          · exact hrest q hq
      | keyframeRequest => exact absurd hshown.symm (Option.some_ne_none f)
      | packetLost origin r => exact absurd hshown.symm (Option.some_ne_none f)

namespace Assembly

theorem run_concat (s : Settings) (a : Assembly) (events : List Event) (e : Event) :
    run s a (events ++ [e]) = ((step s (run s a events).1 e).1,
      (run s a events).2 ++ (step s (run s a events).1 e).2) := by
  rw [run_append]
  simp only [run, andThen, List.append_nil]

end Assembly

-- A frame that an event gives out is that of a group which ends with the event.
theorem exists_group_of_frame (s : Settings) (events : List Event) (e : Event) (f : Frame)
    (h : .frame f ∈ (Assembly.step s (Assembly.run s {} events).1 e).2) :
    ∃ g ∈ (events ++ [e]).tails.filter isFrame, IsOutputOf s (.frame f) (events ++ [e], g) := by
  have hstep := Assembly.media_step s (Assembly.run s {} events).1 e
  have hmedia : (Assembly.run s {} events).1.media = (Media.run s {} events).1 :=
    (Assembly.media_run s {} events).1
  rw [hmedia] at hstep
  have hcomplete : Output.frame f
      ∈ (Media.step s (Media.run s {} events).1 e).2.filter Output.isComplete := by
    rw [← hstep.2]
    exact List.mem_filter.2 ⟨List.mem_filter.2 ⟨h, rfl⟩, rfl⟩
  have hgroups := forall₂_step s events e
  rcases List.mem_iff_getElem.1 hcomplete with ⟨i, hi, hget⟩
  have hlen := hgroups.length_eq
  have hrel := hgroups.get hi (hlen ▸ hi)
  rw [List.get_eq_getElem, hget, List.get_eq_getElem, List.getElem_map] at hrel
  exact ⟨_, List.getElem_mem _, hrel⟩

/-- A frame is the last one after some events, nothing has been told since, and
    any frame that has begun since follows on it. -/
def Continues (s : Settings) (wide : Bool) (events : List Event) (f : Frame) : Prop :=
  ∃ last, f.pictureId = some last ∧ last.isWide = wide ∧ (Assembly.run s {} events).1.Untold last
    ∧ ∀ g ∈ events.tails.filter isOpen, ∃ first, openingId g = some first
      ∧ last.isJustBefore first = true

-- A group that reaches an event has been open before, or begins with it.
theorem openingId_of_reaches (events : List Event) (e : Event) (P : PictureId → Prop)
    (hopen : ∀ g ∈ events.tails.filter isOpen, ∃ first, openingId g = some first ∧ P first)
    (hopens : e.opens = true → ∃ first, e.pictureId = some first ∧ P first) :
    ∀ g ∈ (events ++ [e]).tails.filter reaches, ∃ first, openingId g = some first ∧ P first := by
  intro g hg
  rw [tails_reaching] at hg
  by_cases hbegins : e.opens = true
  · rw [if_pos hbegins, List.mem_singleton] at hg
    rw [hg]
    exact hopens hbegins
  · rw [if_neg hbegins] at hg
    rcases List.mem_map.1 (List.mem_ite_nil_right.1 hg).2 with ⟨before, hbefore, rfl⟩
    rcases hopen before hbefore with ⟨first, hfirst, hP⟩
    refine ⟨first, ?_, hP⟩
    cases before with
    | nil => exact absurd hfirst.symm (Option.some_ne_none first)
    | cons q rest => exact hfirst

-- The first frame, and any frame that is given out later, is the last one after
-- the event that ends it.
theorem continues_of_endsWithFrame (s : Settings) (wide : Bool) (events : List Event)
    (e : Event) (he : e.Numbered wide) (before : List Output) (f : Frame)
    (heq : (Assembly.step s (Assembly.run s {} events).1 e).2 = before ++ [.frame f])
    (hstate : (Assembly.step s (Assembly.run s {} events).1 e).1.lastId = f.pictureId
      ∧ (Assembly.step s (Assembly.run s {} events).1 e).1.partialFrame = none
      ∧ (Assembly.step s (Assembly.run s {} events).1 e).1.lossReported = false) :
    Continues s wide (events ++ [e]) f := by
  rcases hstate with ⟨hlast, hpartial, hreported⟩
  have hmem : Output.frame f ∈ (Assembly.step s (Assembly.run s {} events).1 e).2 := by
    rw [heq]
    exact List.mem_append_right _ (List.mem_singleton_self _)
  rcases exists_group_of_frame s events e f hmem with ⟨g, hg, p, d, header, hend, hparse, _, hout⟩
  rw [filter_isFrame_concat] at hg
  rw [getLast?_of_mem_tails events e g (List.mem_filter.1 hg).1, Option.some.injEq] at hend
  rw [hend] at he
  rcases he d hparse with ⟨_, id, hid, hwide⟩
  have hfid : f.pictureId = some id := by
    by_cases hdropped : (!header.keyframe && waitsAt s (events ++ [e]).dropLast p) = true
    · rw [if_pos hdropped] at hout
      cases hout
    · rw [if_neg hdropped] at hout
      cases hout
      exact hid
  -- After the frame nothing is in progress, so no group is open.
  have hopen : (events ++ [e]).tails.filter isOpen = [] := by
    have hmedia : (Assembly.run s {} (events ++ [e])).1.media
        = (Media.run s {} (events ++ [e])).1 := (Assembly.media_run s {} _).1
    rw [Assembly.run_concat] at hmedia
    rw [← List.map_eq_nil_iff (f := dataOf), tails_open s, ← hmedia]
    simp only [Assembly.media, hpartial]
    rfl
  refine ⟨id, hfid, hwide, ?_, ?_⟩
  · rw [Assembly.run_concat]
    exact ⟨hreported, fun _ => Or.inr (hlast.trans hfid)⟩
  · rw [hopen]
    intro q hq
    exact absurd hq List.not_mem_nil

section Run

variable (s : Settings) (hshown : s.hideIdGaps = false) (wide : Bool)

include hshown

-- What comes to its end with an event, or is open after it, follows on the last
-- frame if the event tells of no loss.
theorem reaches_of_continues (events : List Event) (e : Event) (he : e.Numbered wide) (f : Frame)
    (h : Continues s wide events f)
    (hmedia : ∀ o ∈ (Assembly.step s (Assembly.run s {} events).1 e).2, o.isMedia = true) :
    ∃ last, f.pictureId = some last ∧ ∀ g ∈ (events ++ [e]).tails.filter reaches,
      ∃ first, openingId g = some first ∧ last.isJustBefore first = true := by
  rcases h with ⟨last, hlast, hwide, huntold, hopen⟩
  rw [← hwide] at he
  exact ⟨last, hlast, openingId_of_reaches events e _ hopen fun hopens =>
    Assembly.opens_step s last e _ hshown he huntold hopens hmedia⟩

/-- As long as nothing has been told since the last frame, what comes follows on
    it. -/
theorem continues_of_lastShown (events : List Event) (he : ∀ e ∈ events, e.Numbered wide)
    (f : Frame) (h : lastShown (Assembly.run s {} events).2 = some f) :
    Continues s wide events f := by
  induction events using List.reverseRecOn generalizing f with
  | nil => exact absurd h.symm (Option.some_ne_none f)
  | append_singleton events e ih =>
      have hbefore (q : Event) (hq : q ∈ events) : q.Numbered wide :=
        he q (List.mem_append_left _ hq)
      have hlast : e.Numbered wide := he e (List.mem_append_right _ (List.mem_singleton_self e))
      rw [Assembly.run_concat, lastShown, List.foldl_append] at h
      rcases Assembly.frame_step s e (Assembly.run s {} events).1 with
        hnone | ⟨before, g, heq, hframes, hstate⟩
      · rcases foldl_watch_eq_some _ _ f hnone h with ⟨hshownBefore, hformats⟩
        have hcontinues := ih hbefore f hshownBefore
        rcases reaches_of_continues s hshown wide events e hlast f hcontinues
          fun o ho => o.isMedia_of_isFormat (hformats o ho) with ⟨last', hlast', hreaches⟩
        rcases hcontinues with ⟨last, hid, hwide, huntold, _⟩
        rw [hid, Option.some.injEq] at hlast'
        subst hlast'
        rw [← hwide] at hlast
        refine ⟨last, hid, hwide, ?_, ?_⟩
        · rw [Assembly.run_concat]
          exact Assembly.untold_step s last e _ hshown hlast huntold hformats
        · intro q hq
          rw [tails_isOpen_concat] at hq
          exact hreaches q (List.mem_ite_nil_left.1 hq).2
      · rw [heq, List.foldl_append] at h
        have hfg : g = f := Option.some.inj h
        subst hfg
        exact continues_of_endsWithFrame s wide events e hlast before g heq hstate

end Run

-- A frame that is among some outputs and others without a frame is among the
-- first ones.
theorem frame_prefix_of_append (upTo outputs more : List Output) (b : Frame)
    (hmore : ∀ o ∈ more, o.frame? = none) (h : upTo ++ [.frame b] <+: outputs ++ more) :
    upTo ++ [.frame b] <+: outputs := by
  induction more using List.reverseRecOn with
  | nil => rwa [List.append_nil] at h
  | append_singleton more o ih =>
      rw [← List.append_assoc, List.prefix_concat_iff] at h
      rcases h with heq | h
      · have hlast := (List.append_inj' heq rfl).2
        rw [List.singleton_inj] at hlast
        have ho := hmore o (List.mem_append_right _ (List.mem_singleton_self o))
        rw [← hlast] at ho
        exact absurd ho (Option.some_ne_none b)
      · exact ih (fun q hq => hmore q (List.mem_append_left _ hq)) h

/-- If nothing has been told between two frames, the second one begins with the
    identifier that follows on the first. -/
theorem follows_of_lastShown (s : Settings) (hshown : s.hideIdGaps = false) (wide : Bool)
    (events : List Event) (he : ∀ e ∈ events, e.Numbered wide) (shown : List Output) (a b : Frame)
    (hbegins : shown ++ [.frame b] <+: (Assembly.run s {} events).2)
    (ha : lastShown shown = some a) :
    ∃ upTo g last first, (upTo, g) ∈ groups events
      ∧ (Assembly.run s {} upTo).2 = shown ++ [.frame b] ∧ IsOutputOf s (.frame b) (upTo, g)
      ∧ a.pictureId = some last ∧ openingId g = some first ∧ last.isJustBefore first = true := by
  induction events using List.reverseRecOn with
  | nil =>
      rw [Assembly.run, List.prefix_nil, List.append_eq_nil_iff] at hbegins
      exact absurd hbegins.2 (List.cons_ne_nil _ _)
  | append_singleton events e ih =>
      have hbefore (q : Event) (hq : q ∈ events) : q.Numbered wide :=
        he q (List.mem_append_left _ hq)
      have hlast : e.Numbered wide := he e (List.mem_append_right _ (List.mem_singleton_self e))
      have hearlier (h : shown ++ [.frame b] <+: (Assembly.run s {} events).2) :
          ∃ upTo g last first, (upTo, g) ∈ groups (events ++ [e])
            ∧ (Assembly.run s {} upTo).2 = shown ++ [.frame b]
            ∧ IsOutputOf s (.frame b) (upTo, g) ∧ a.pictureId = some last
            ∧ openingId g = some first ∧ last.isJustBefore first = true := by
        rcases ih hbefore h with ⟨upTo, g, last, first, hg, hrest⟩
        refine ⟨upTo, g, last, first, ?_, hrest⟩
        rw [groups_concat]
        exact List.mem_append_left _ hg
      rw [Assembly.run_concat] at hbegins
      rcases Assembly.frame_step s e (Assembly.run s {} events).1 with
        hnone | ⟨before, f, heq, hframes, _⟩
      · exact hearlier (frame_prefix_of_append _ _ _ b hnone hbegins)
      · rw [heq, ← List.append_assoc, List.prefix_concat_iff] at hbegins
        rcases hbegins with hsame | hbegins
        · -- The frame is the one that the event gives out.
          rcases List.append_inj' hsame rfl with ⟨hupTo, hfb⟩
          rw [List.singleton_inj, Output.frame.injEq] at hfb
          subst hfb
          rw [hupTo, lastShown, List.foldl_append] at ha
          rcases foldl_watch_eq_some _ _ a hframes ha with ⟨hafter, hformats⟩
          have hmedia : ∀ o ∈ (Assembly.step s (Assembly.run s {} events).1 e).2,
              o.isMedia = true := by
            rw [heq]
            intro o ho
            rcases List.mem_append.1 ho with ho | ho
            · exact o.isMedia_of_isFormat (hformats o ho)
            · rw [List.mem_singleton.1 ho]
              rfl
          rcases reaches_of_continues s hshown wide events e hlast a
            (continues_of_lastShown s hshown wide events hbefore a hafter) hmedia with
            ⟨last, hid, hreaches⟩
          have hmem : Output.frame b ∈ (Assembly.step s (Assembly.run s {} events).1 e).2 := by
            rw [heq]
            exact List.mem_append_right _ (List.mem_singleton_self _)
          rcases exists_group_of_frame s events e b hmem with ⟨g, hg, hout⟩
          have hreach := hg
          rw [filter_isFrame_concat] at hreach
          rcases hreaches g (List.mem_filter.1 hreach).1 with ⟨first, hfirst, hfollows⟩
          refine ⟨events ++ [e], g, last, first, ?_, ?_, hout, hid, hfirst, hfollows⟩
          · rw [groups_concat]
            exact List.mem_append_right _ (List.mem_map_of_mem hg)
          · rw [Assembly.run_concat, heq, hupTo, List.append_assoc]
        · exact hearlier (frame_prefix_of_append _ _ _ b hframes hbegins)

namespace Receiver

/-- Between two frames with nothing told between them no picture is missing: the
    first packet of the second frame carries the identifier that follows on the
    first frame. The identifier of the second frame is that of its last packet. -/
theorem follows_of_untold (s : Settings) (hshown : s.hideIdGaps = false) (wide : Bool)
    (calls : List Call) (hcalls : ∀ e ∈ events calls, e.Numbered wide)
    (before between after : List Output) (a b : Frame)
    (houtputs : (start s).outputs calls = before ++ .frame a :: (between ++ .frame b :: after))
    (hbetween : ∀ o ∈ between, o.isFormat = true) :
    ∃ upTo g last first, (upTo, g) ∈ groups (events calls)
      ∧ (Assembly.run s {} upTo).2 = before ++ .frame a :: (between ++ [.frame b])
      ∧ IsOutputOf s (.frame b) (upTo, g) ∧ a.pictureId = some last
      ∧ openingId g = some first ∧ last.isJustBefore first = true
      ∧ b.pictureId = closingId g := by
  have hshownLast : lastShown (before ++ .frame a :: between) = some a := by
    rw [lastShown, List.foldl_append, List.foldl_cons]
    exact foldl_watch_formats (some a) between hbetween
  have hsplit (rest : List Output) : before ++ .frame a :: (between ++ .frame b :: rest)
      = (before ++ .frame a :: between) ++ [.frame b] ++ rest := by
    simp only [List.append_assoc, List.cons_append, List.nil_append]
  rw [outputs_eq, hsplit] at houtputs
  have hbegins : (before ++ .frame a :: between) ++ [.frame b]
      <+: (Assembly.run s {} (events calls)).2 := by
    rw [houtputs]
    exact List.prefix_append _ _
  rcases follows_of_lastShown s hshown wide (events calls) hcalls _ a b hbegins hshownLast with
    ⟨upTo, g, last, first, hg, hrun, hout, hid, hfirst, hfollows⟩
  have hclosing : b.pictureId = closingId g := by
    rcases hout with ⟨p, d, header, hlast, hparse, _, hout⟩
    have hpacket : closingId g = d.pictureId := by
      simp only [closingId, hlast, Option.bind_some, Event.pictureId, hparse]
    rw [hpacket]
    by_cases hdropped : (!header.keyframe && waitsAt s upTo.dropLast p) = true
    · rw [if_pos hdropped] at hout
      cases hout
    · rw [if_neg hdropped] at hout
      cases hout
      rfl
  refine ⟨upTo, g, last, first, hg, ?_, hout, hid, hfirst, hfollows, hclosing⟩
  rw [hrun, List.append_assoc, List.cons_append]

-- A keyframe, a false alarm, and an inter frame in two packets whose identifier
-- has come round to zero.
theorem follows_of_untold_wrapped :
    ∃ (calls : List Call) (a b : Frame), (∀ e ∈ events calls, e.Numbered false)
      ∧ (start {}).outputs calls = [.formatChanged ⟨320, 240, 0⟩, .frame a, .frame b]
      ∧ ∃ upTo g last first, (upTo, g) ∈ groups (events calls)
        ∧ (Assembly.run {} {} upTo).2 = [.formatChanged ⟨320, 240, 0⟩, .frame a, .frame b]
        ∧ IsOutputOf {} (.frame b) (upTo, g) ∧ a.pictureId = some last
        ∧ openingId g = some first ∧ last.isJustBefore first = true
        ∧ b.pictureId = closingId g := by
  let keyframe : Packet :=
    ⟨[144, 128, 127, 16, 0, 0, 157, 1, 42, 64, 1, 240, 0], true, 1, 90, some ⟨10⟩, false⟩
  let first : Packet := ⟨[144, 128, 0, 17, 0, 0, 0, 0], false, 3, 180, some ⟨20⟩, false⟩
  let second : Packet := ⟨[128, 128, 0, 0, 0, 0, 0, 0], true, 4, 180, some ⟨20⟩, false⟩
  let calls : List Call := [.handle (.packet keyframe), .handle (.loss ⟨⟨15⟩, ⟨5⟩, false⟩), .poll,
    .handle (.packet first), .handle (.packet second)]
  have hcalls : ∀ e ∈ events calls, e.Numbered false := by
    simp only [calls, events, List.forall_mem_cons]
    refine ⟨?_, trivial, ?_, ?_, fun e he => absurd he List.not_mem_nil⟩
    · exact Event.numbered_packet keyframe _ (.narrow 127) rfl rfl rfl
    · exact Event.numbered_packet first _ (.narrow 0) rfl rfl rfl
    · exact Event.numbered_packet second _ (.narrow 0) rfl rfl rfl
  refine ⟨calls, _, _, hcalls, rfl, ?_⟩
  exact follows_of_untold {} rfl false calls hcalls [_] [] [] _ _ rfl
    fun o ho => absurd ho List.not_mem_nil

/-- The identifiers of two frames need not follow on each other, though nothing is
    told between them. If the end of one picture and the beginning of the next
    one are missing, the rest of the two is one frame. -/
theorem joined_pictures :
    ∃ (calls : List Call) (a b : Frame), (∀ e ∈ events calls, e.Numbered false)
      ∧ (start {}).outputs calls = [.formatChanged ⟨320, 240, 0⟩, .frame a, .frame b]
      ∧ a.pictureId = some (.narrow 5) ∧ b.pictureId = some (.narrow 7)
      ∧ (PictureId.narrow 5).isJustBefore (.narrow 7) = false := by
  let keyframe : Packet :=
    ⟨[144, 128, 5, 16, 0, 0, 157, 1, 42, 64, 1, 240, 0], true, 1, 90, some ⟨10⟩, false⟩
  let first : Packet := ⟨[144, 128, 6, 17, 0, 0, 0, 0], false, 2, 180, some ⟨20⟩, false⟩
  let last : Packet := ⟨[128, 128, 7, 0, 0, 0, 0, 0], true, 5, 270, some ⟨30⟩, false⟩
  refine ⟨[.handle (.packet keyframe), .handle (.packet first), .handle (.packet last)], _, _,
    ?_, rfl, rfl, rfl, rfl⟩
  simp only [events, List.forall_mem_cons]
  refine ⟨?_, ?_, ?_, fun e he => absurd he List.not_mem_nil⟩
  · exact Event.numbered_packet keyframe _ (.narrow 5) rfl rfl rfl
  · exact Event.numbered_packet first _ (.narrow 6) rfl rfl rfl
  · exact Event.numbered_packet last _ (.narrow 7) rfl rfl rfl

end Receiver

end Vp8

end VideoTransport

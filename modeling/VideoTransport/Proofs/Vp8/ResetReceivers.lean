import VideoTransport.Proofs.Vp8.ReceiverRuns

/-!
# Receivers After a Flush or a Reset

A receiver that has been reset goes on as a new one with the same settings, wherever it was
broken off: within a frame, with a loss that is held or a frame given up and not reported,
or with outputs that nobody has asked for.

Two receivers whose assemblies are the same, and whose settings are, append the same
outputs to their queues with every call, since what waits in a queue is never looked at.
What the two differ in, the outputs that waited before, comes out first and changes nothing
else. So all that is left to see is that no part of the old assembly outlives a
reset, and but one part a flush: whether a keyframe is awaited. That part shows, so
a flush and a reset can be told apart as soon as there has been a keyframe.

## Main definitions

* `Receiver.appendedIn`: What each call appends to the queue.
* `Receiver.startAwaiting`: A new receiver that does or does not wait for a keyframe.
* `Receiver.Alike`: Receivers that differ in nothing but their queues.

## Theorems

* `Receiver.alike_step`: A call keeps receivers alike.
* `Receiver.appendedIn_eq_of_alike`: Receivers that are alike append the same.
* `Receiver.outputs_eq_of_alike`: They give out the same behind what waited before.
* `Receiver.outputs_flush_eq_reset_iff`: When a flush is as good as a reset.
* `Receiver.fresh_of_reset`: A reset is a fresh start, and so is a flush but for keyframes.
-/

namespace VideoTransport

namespace Vp8

namespace Receiver

/-- What each of some calls appends to the queue, in order. -/
def appendedIn (r : Receiver) : List Call → List (List Output)
  | [] => []
  | c :: rest => (r.step c).waiting.drop r.waiting.length :: (r.step c).appendedIn rest

/-- A receiver that has seen nothing yet, and for which it is set whether it waits for a
    keyframe. -/
def startAwaiting (s : Settings) (awaits : Bool) : Receiver :=
  { settings := s, assembly := { awaitsKeyframe := awaits } }

/-- Two receivers differ in nothing but the outputs that wait. -/
structure Alike (r r' : Receiver) : Prop where
  settings_eq : r.settings = r'.settings
  assembly_eq : r.assembly = r'.assembly

/-- A call keeps receivers alike. -/
theorem alike_step (r r' : Receiver) (h : r.Alike r') (c : Call) : (r.step c).Alike (r'.step c) := by
  cases c with
  | handle e =>
      refine ⟨h.settings_eq, ?_⟩
      simp only [step, handle, h.settings_eq, h.assembly_eq]
  | poll => exact ⟨h.settings_eq, h.assembly_eq⟩

-- An event appends what its step of the assembly gives, and a question for an output
-- appends nothing.
theorem drop_step (r : Receiver) (c : Call) :
    (r.step c).waiting.drop r.waiting.length
      = match c with
        | .handle e => (r.assembly.step r.settings e).2
        | .poll => [] := by
  cases c with
  | handle e => exact List.drop_left
  | poll =>
      refine List.drop_eq_nil_of_le ?_
      change r.waiting.tail.length ≤ _
      rw [List.length_tail]
      exact Nat.sub_le _ _

/-- Receivers that are alike append the same with every call. -/
theorem appendedIn_eq_of_alike (r r' : Receiver) (h : r.Alike r') (calls : List Call) :
    r.appendedIn calls = r'.appendedIn calls := by
  induction calls generalizing r r' with
  | nil => rfl
  | cons c rest ih =>
      rw [appendedIn, appendedIn, drop_step, drop_step, h.settings_eq, h.assembly_eq,
        ih _ _ (alike_step r r' h c)]

/-- What waited comes out first, and then the same as from a receiver that is alike and
    has an empty queue. -/
theorem outputs_eq_of_alike (r r' : Receiver) (h : r.Alike r') (hempty : r'.waiting = [])
    (calls : List Call) : r.outputs calls = r.waiting ++ r'.outputs calls := by
  rw [outputs_eq_append, outputs_eq_append, hempty, List.nil_append, h.settings_eq,
    h.assembly_eq]

theorem settings_run (r : Receiver) (calls : List Call) : (r.run calls).settings = r.settings := by
  induction calls generalizing r with
  | nil => rfl
  | cons c rest ih =>
      refine (ih (r.step c)).trans ?_
      cases c with
      | handle e => rfl
      | poll => rfl

theorem alike_reset (s : Settings) (before : List Call) :
    (((start s).run before).handle .reset).Alike (start s) :=
  ⟨(start s).settings_run before, rfl⟩

theorem alike_flush (s : Settings) (before : List Call) :
    (((start s).run before).handle .flush).Alike
      (startAwaiting s ((start s).run before).assembly.awaitsKeyframe) :=
  ⟨(start s).settings_run before, rfl⟩

-- Neither a reset nor a flush takes back what waits, or adds to it.
theorem outputs_reset (s : Settings) (before calls : List Call) :
    (((start s).run before).handle .reset).outputs calls
      = ((start s).run before).waiting ++ (start s).outputs calls := by
  rw [outputs_eq_of_alike _ _ (alike_reset s before) rfl, waiting_handle]
  exact congrArg (· ++ _) (List.append_nil _)

theorem outputs_flush (s : Settings) (before calls : List Call) :
    (((start s).run before).handle .flush).outputs calls
      = ((start s).run before).waiting
        ++ (startAwaiting s ((start s).run before).assembly.awaitsKeyframe).outputs calls := by
  rw [outputs_eq_of_alike _ _ (alike_flush s before) rfl, waiting_handle]
  exact congrArg (· ++ _) (List.append_nil _)

/-- A flush is as good as a reset if and only if a keyframe is awaited. -/
theorem outputs_flush_eq_reset_iff (s : Settings) (before : List Call) :
    (∀ calls, (((start s).run before).handle .flush).outputs calls
        = (((start s).run before).handle .reset).outputs calls)
      ↔ ((start s).run before).assembly.awaitsKeyframe = true := by
  constructor
  · intro h
    -- An inter frame is passed on unless a keyframe is awaited.
    let inter : Packet := ⟨[16, 17, 0, 0, 0, 0, 0, 0, 0, 0, 0], true, 0, 0, none, false⟩
    have hsame := h [.handle (.packet inter)]
    rw [outputs_flush, outputs_reset] at hsame
    cases hawaits : ((start s).run before).assembly.awaitsKeyframe with
    | true => rfl
    | false =>
        rw [hawaits] at hsame
        cases List.append_cancel_left hsame
  · intro hawaits calls
    rw [outputs_flush, outputs_reset, hawaits]
    rfl

/-- A reset is a fresh start. Whatever has happened before it, each of the calls after it
    appends to the queue what it appends to that of a new receiver with the same
    settings. So the outputs that waited are followed by those of a new receiver.

    After a flush it is the same, except that the new receiver waits for a keyframe only
    if the old one did. -/
theorem fresh_of_reset (s : Settings) (before calls : List Call) :
    let r := (start s).run before
    ((r.handle .reset).appendedIn calls = (start s).appendedIn calls
        ∧ (r.handle .reset).outputs calls = r.waiting ++ (start s).outputs calls)
      ∧ (r.handle .flush).appendedIn calls
          = (startAwaiting s r.assembly.awaitsKeyframe).appendedIn calls
        ∧ (r.handle .flush).outputs calls
          = r.waiting ++ (startAwaiting s r.assembly.awaitsKeyframe).outputs calls := by
  refine ⟨⟨?_, outputs_reset s before calls⟩, ?_, outputs_flush s before calls⟩
  · exact appendedIn_eq_of_alike _ _ (alike_reset s before) calls
  · exact appendedIn_eq_of_alike _ _ (alike_flush s before) calls

-- A keyframe, a loss, and the start of a frame that does not follow on it. What waits
-- is kept. An inter frame is passed on after a flush, and not after a reset.
theorem fresh_of_reset_within_frame :
    ∃ (keyframe part inter : Packet) (held : LossReport),
      let before : List Call := [.handle (.packet keyframe), .handle (.loss held),
        .handle (.packet part)]
      let calls : List Call := [.poll, .handle (.packet inter)]
      let r := (start {}).run before
      r.waiting.length = 3 ∧ r.assembly.partialFrame.isSome = true
        ∧ (r.handle .reset).appendedIn calls = [[], [.keyframeRequest]]
        ∧ (r.handle .reset).outputs calls = r.waiting ++ [.keyframeRequest]
        ∧ ∃ f, (r.handle .flush).outputs calls = r.waiting ++ [.frame f] := by
  let keyframe : Packet :=
    ⟨[144, 128, 5, 16, 0, 0, 157, 1, 42, 64, 1, 240, 0], true, 1, 90, some ⟨10⟩, false⟩
  let part : Packet := ⟨[144, 128, 7, 17, 0], false, 3, 180, some ⟨20⟩, false⟩
  let inter : Packet :=
    ⟨[144, 128, 9, 17, 0, 0, 0, 0, 0, 0, 0, 0, 0], true, 4, 270, some ⟨30⟩, false⟩
  let held : LossReport := ⟨⟨15⟩, ⟨5⟩, false⟩
  let f : Frame := ⟨[17, 0, 0, 0, 0, 0, 0, 0, 0, 0], false, none, 270, some ⟨30⟩, some (.narrow 9)⟩
  have hall := fresh_of_reset {}
    [.handle (.packet keyframe), .handle (.loss held), .handle (.packet part)]
    [.poll, .handle (.packet inter)]
  exact ⟨keyframe, part, inter, held, by decide, by decide, hall.1.1.trans (by decide), hall.1.2,
    f, hall.2.2⟩

end Receiver

end Vp8

end VideoTransport

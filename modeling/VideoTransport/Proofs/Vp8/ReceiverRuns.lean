import VideoTransport.Vp8.Receiver

/-!
# Runs of Receivers

What a receiver gives out does not depend on when it is asked.

A receiver only puts outputs in a queue. So all that is ever given out, followed
by what still waits, is what its assembly has made of the events, whatever the
calls in between. Statements about outputs are therefore statements about runs
of the assembly.

## Main definitions

* `Receiver.Call`: An event, or the question for an output.
* `Receiver.run`: The receiver after some calls.
* `Receiver.events`: The events among some calls.
* `Receiver.outputs`: What is given out during some calls, and what waits after them.

## Theorems

* `Receiver.assembly_run`: The assembly is where a run over the events leads.
* `Receiver.outputs_eq`: The outputs are those of a run of the assembly.
-/

namespace VideoTransport

namespace Vp8

namespace Receiver

/-- What can be asked of a receiver. -/
inductive Call where
  | handle (e : Event)
  | poll

/-- One call. -/
def step (r : Receiver) : Call → Receiver
  | .handle e => r.handle e
  | .poll => r.poll.2

/-- A list of calls. -/
def run (r : Receiver) (calls : List Call) : Receiver :=
  calls.foldl step r

/-- The events among some calls. -/
def events : List Call → List Event
  | [] => []
  | .handle e :: rest => e :: events rest
  | .poll :: rest => events rest

/-- The outputs that are given out during some calls. -/
def polledIn (r : Receiver) : List Call → List Output
  | [] => []
  | .handle e :: rest => (r.handle e).polledIn rest
  | .poll :: rest => r.poll.1.toList ++ r.poll.2.polledIn rest

/-- All outputs up to the end of some calls: those that are given out during
    them, and those that still wait. -/
def outputs (r : Receiver) (calls : List Call) : List Output :=
  r.polledIn calls ++ (r.run calls).waiting

theorem events_append (calls more : List Call) :
    events (calls ++ more) = events calls ++ events more := by
  induction calls with
  | nil => rfl
  | cons c rest ih =>
      cases c with
      | handle e => exact congrArg (e :: ·) ih
      | poll => exact ih

-- Questions for outputs do not touch the assembly.
theorem assembly_run (r : Receiver) (calls : List Call) :
    (r.run calls).assembly = (r.assembly.run r.settings (events calls)).1 := by
  induction calls generalizing r with
  | nil => rfl
  | cons c rest ih =>
      cases c with
      | handle e => exact ih (r.handle e)
      | poll => exact ih r.poll.2

-- What waited before comes first, then what the events have caused.
theorem outputs_eq_append (r : Receiver) (calls : List Call) :
    r.outputs calls = r.waiting ++ (r.assembly.run r.settings (events calls)).2 := by
  induction calls generalizing r with
  | nil => exact (List.append_nil _).symm
  | cons c rest ih =>
      cases c with
      | handle e =>
          have hrest := ih (r.handle e)
          rw [waiting_handle, List.append_assoc] at hrest
          exact hrest
      | poll =>
          have hrest := ih r.poll.2
          have hqueue : r.poll.1.toList ++ r.poll.2.waiting = r.waiting := by
            unfold poll
            cases r.waiting with
            | nil => rfl
            | cons o waiting => rfl
          rw [outputs] at hrest
          rw [outputs, polledIn, List.append_assoc]
          change r.poll.1.toList ++ (r.poll.2.polledIn rest ++ (r.poll.2.run rest).waiting) = _
          rw [hrest, ← List.append_assoc, hqueue]
          rfl

/-- The outputs of a new receiver are those of a run of its assembly, whenever
    they are asked for. -/
theorem outputs_eq (s : Settings) (calls : List Call) :
    (start s).outputs calls = (Assembly.run s {} (events calls)).2 := by
  rw [outputs_eq_append]
  exact List.nil_append _

end Receiver

end Vp8

end VideoTransport

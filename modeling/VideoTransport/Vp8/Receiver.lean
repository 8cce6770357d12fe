import VideoTransport.Vp8.Assembly

/-!
# Receivers of Frames

An assembly of frames whose outputs wait in a queue until they are asked for. Waiting
outputs are never looked at again by the assembly, and neither a flush nor a
reset takes them back.

## Main definitions

* `Receiver`: Settings, assembly and waiting outputs.
* `Receiver.handle`: One event.
* `Receiver.poll`: Takes the output that has waited longest.

## Theorems

* `Receiver.waiting_handle`: An event adds to the end of the queue.
-/

namespace VideoTransport

namespace Vp8

/-- An assembly with a queue of outputs. -/
structure Receiver where
  settings : Settings
  assembly : Assembly := {}
  /-- Outputs that have not been asked for yet, the oldest first. -/
  waiting : List Output := []

namespace Receiver

/-- A receiver that has seen nothing yet. -/
def start (s : Settings) : Receiver :=
  { settings := s }

/-- One event. Its outputs join the end of the queue. -/
def handle (r : Receiver) (e : Event) : Receiver :=
  let (assembly, outputs) := r.assembly.step r.settings e
  { r with assembly, waiting := r.waiting ++ outputs }

/-- Takes the output that has waited longest. -/
def poll (r : Receiver) : Option Output × Receiver :=
  (r.waiting.head?, { r with waiting := r.waiting.tail })

theorem waiting_handle (r : Receiver) (e : Event) :
    (r.handle e).waiting = r.waiting ++ (r.assembly.step r.settings e).2 := rfl

end Receiver

end Vp8

end VideoTransport

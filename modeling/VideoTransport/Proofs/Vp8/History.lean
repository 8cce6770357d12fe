import Mathlib.Data.List.Induction
import VideoTransport.Proofs.Vp8.ReceiverRuns

/-!
# Histories

Events and outputs in one row, in the order in which they come about.

The outputs of a run do not tell which event has caused them. Where it matters
what came before what, a run is therefore taken down as a history: each event,
followed by what it causes.

Much of what an assembly keeps in mind is one bit about its past: something has
happened, and nothing has called it off since. A `Switch` is such a bit, worked
out from the history alone. If each event takes it to where some field of the
assembly is, that field is the switch of the whole history, and
`Switch.after_eq_true_iff` says what that means.

## Main definitions

* `Moment`: An event or an output.
* `Assembly.history`, `Receiver.history`: What happens in a run.
* `Switch`, `Switch.after`: A bit about the past, and where it is after a history.
* `Switch.Finds`: Where a switch is when moments of some kind come.
* `Switch.Takes`: Where some moments take a switch, and where some of them find it.

## Theorems

* `Assembly.history_of_steps`: What each event does, a history does.
* `Receiver.outputs_history`: The outputs are those of the history.
* `Switch.after_eq_true_iff`: A switch is on if something has turned it on and nothing off since.
* `Switch.after_of_finds`: A moment that finds the switch somewhere comes when it is there.
* `Switch.takes_history`: What each event does to a switch, a run does.
-/

namespace VideoTransport

namespace Vp8

/-- Something that happens at a receiver. -/
inductive Moment where
  | event (e : Event)
  | output (o : Output)
deriving DecidableEq

/-- The output, if the moment is one. -/
def Moment.output? : Moment → Option Output
  | .event _ => none
  | .output o => some o

namespace Assembly

/-- What happens in a run: each event, and then what it causes. -/
def history (s : Settings) (a : Assembly) : List Event → List Moment
  | [] => []
  | e :: rest => .event e :: ((step s a e).2.map .output ++ history s (step s a e).1 rest)

/-- What is true of each event with what it causes is true of a history, if it is
    passed on from one row of moments to another behind it. -/
theorem history_of_steps {α : Type} (field : Assembly → α) (R : α → α → List Moment → Prop)
    (hnil : ∀ k, R k k [])
    (happend : ∀ k mid next h h', R k mid h → R mid next h' → R k next (h ++ h')) (s : Settings)
    (hstep : ∀ a e, R (field a) (field (step s a e).1)
      (.event e :: (step s a e).2.map .output))
    (events : List Event) (a : Assembly) :
    R (field a) (field (run s a events).1) (history s a events) := by
  induction events generalizing a with
  | nil => exact hnil (field a)
  | cons e rest ih =>
      rw [history, ← List.cons_append]
      exact happend _ _ _ _ _ (hstep a e) (ih _)

theorem filterMap_map_output (outputs : List Output) :
    (outputs.map Moment.output).filterMap Moment.output? = outputs := by
  rw [List.filterMap_map]
  exact List.filterMap_some

theorem filterMap_history (s : Settings) (a : Assembly) (events : List Event) :
    (history s a events).filterMap Moment.output? = (run s a events).2 := by
  induction events generalizing a with
  | nil => rfl
  | cons e rest ih =>
      rw [history, List.filterMap_cons_none rfl, List.filterMap_append, filterMap_map_output, ih]
      rfl

end Assembly

namespace Receiver

/-- What happens at a new receiver during some calls, whenever it is asked for
    the outputs. -/
def history (s : Settings) (calls : List Call) : List Moment :=
  Assembly.history s {} (events calls)

/-- All outputs are in the history, in order. -/
theorem outputs_history (s : Settings) (calls : List Call) :
    (history s calls).filterMap Moment.output? = (start s).outputs calls := by
  rw [outputs_eq]
  exact Assembly.filterMap_history s {} (events calls)

end Receiver

/-- A bit about the past. Some moments turn it on, and others turn it off. -/
structure Switch where
  turnsOn : Moment → Bool
  turnsOff : Moment → Bool

namespace Switch

variable (w : Switch)

/-- The switch after one more moment. -/
def move (on : Bool) (m : Moment) : Bool :=
  w.turnsOn m || (on && !w.turnsOff m)

/-- Where the switch is after some moments. -/
def after (on : Bool) (h : List Moment) : Bool :=
  h.foldl w.move on

theorem after_append (on : Bool) (h h' : List Moment) :
    w.after on (h ++ h') = w.after (w.after on h) h' :=
  List.foldl_append

-- A switch that is on stays on as long as nothing turns it off.
theorem after_of_not_turnsOff (h : List Moment) (hoff : ∀ m ∈ h, w.turnsOff m = false) :
    w.after true h = true := by
  induction h with
  | nil => rfl
  | cons m rest ih =>
      have hm := hoff m List.mem_cons_self
      have hmove : w.move true m = true := by
        rw [move, hm, Bool.not_false, Bool.and_true, Bool.or_true]
      rw [after, List.foldl_cons, hmove]
      exact ih fun q hq => hoff q (List.mem_cons_of_mem _ hq)

-- A switch that is off stays off as long as nothing turns it on.
theorem after_of_not_turnsOn (h : List Moment) (hon : ∀ m ∈ h, w.turnsOn m = false) :
    w.after false h = false := by
  induction h with
  | nil => rfl
  | cons m rest ih =>
      have hmove : w.move false m = false := by
        rw [move, hon m List.mem_cons_self, Bool.false_and, Bool.or_false]
      rw [after, List.foldl_cons, hmove]
      exact ih fun q hq => hon q (List.mem_cons_of_mem _ hq)

/-- A switch is on if some moment has turned it on, and none has turned it off
    since. -/
theorem after_eq_true_iff (h : List Moment) :
    w.after false h = true ↔ ∃ before m since, h = before ++ m :: since ∧ w.turnsOn m = true
      ∧ ∀ q ∈ since, w.turnsOff q = false := by
  constructor
  · intro hafter
    induction h using List.reverseRecOn with
    | nil => exact absurd hafter Bool.false_ne_true
    | append_singleton h m ih =>
        rw [after_append] at hafter
        change (w.turnsOn m || (w.after false h && !w.turnsOff m)) = true at hafter
        rw [Bool.or_eq_true, Bool.and_eq_true, Bool.not_eq_true'] at hafter
        rcases hafter with hon | ⟨hbefore, hoff⟩
        · exact ⟨h, m, [], rfl, hon, fun q hq => absurd hq List.not_mem_nil⟩
        · rcases ih hbefore with ⟨before, first, since, rfl, hon, hsince⟩
          refine ⟨before, first, since ++ [m], ?_, hon, ?_⟩
          · rw [List.append_assoc, List.cons_append]
          · intro q hq
            rcases List.mem_append.1 hq with hq | hq
            · exact hsince q hq
            · rw [List.mem_singleton.1 hq]
              exact hoff
  · rintro ⟨before, m, since, rfl, hon, hsince⟩
    have hmove (on : Bool) : w.move on m = true := by
      rw [move, hon, Bool.true_or]
    rw [after_append, after, List.foldl_cons, hmove]
    exact w.after_of_not_turnsOff since hsince

/-- Moments of some kind find the switch at `b`. -/
def Finds (kind : Moment → Bool) (b on : Bool) : List Moment → Prop
  | [] => True
  | m :: rest => (kind m = true → on = b) ∧ Finds kind b (w.move on m) rest

theorem finds_append (kind : Moment → Bool) (b on : Bool) (h h' : List Moment) :
    w.Finds kind b on (h ++ h')
      ↔ w.Finds kind b on h ∧ w.Finds kind b (w.after on h) h' := by
  induction h generalizing on with
  | nil => exact ⟨fun h => ⟨trivial, h⟩, fun h => h.2⟩
  | cons m rest ih =>
      rw [List.cons_append, Finds, Finds, ih, and_assoc]
      rfl

/-- A moment that finds the switch at `b` comes when it is there. -/
theorem after_of_finds (kind : Moment → Bool) (b : Bool) (before since : List Moment) (m : Moment)
    (h : w.Finds kind b false (before ++ m :: since)) (hm : kind m = true) :
    w.after false before = b :=
  ((w.finds_append kind b false before (m :: since)).1 h).2.1 hm

/-- Some moments take the switch from one place to another, and those of a kind
    among them find it at `b`. -/
structure Takes (kind : Moment → Bool) (b on next : Bool) (h : List Moment) : Prop where
  next_eq : next = w.after on h
  finds : w.Finds kind b on h

variable (kind : Moment → Bool) (b : Bool)

theorem takes_nil (on : Bool) : w.Takes kind b on on [] :=
  ⟨rfl, trivial⟩

theorem takes_append (on mid next : Bool) (h h' : List Moment) (hfirst : w.Takes kind b on mid h)
    (hrest : w.Takes kind b mid next h') : w.Takes kind b on next (h ++ h') := by
  refine ⟨?_, (w.finds_append kind b on h h').2 ⟨hfirst.finds, ?_⟩⟩
  · rw [after_append, ← hfirst.next_eq]
    exact hrest.next_eq
  · rw [← hfirst.next_eq]
    exact hrest.finds

-- What neither moves the switch nor is of the kind can be left out.
theorem takes_of_filter (keep : Moment → Bool)
    (hkeep : ∀ m, keep m = false → kind m = false ∧ w.turnsOn m = false ∧ w.turnsOff m = false)
    (on next : Bool) (h : List Moment) (hfilter : w.Takes kind b on next (h.filter keep)) :
    w.Takes kind b on next h := by
  induction h generalizing on with
  | nil => exact hfilter
  | cons m rest ih =>
      by_cases hm : keep m = true
      · rw [List.filter_cons_of_pos hm] at hfilter
        have hrest := ih (w.move on m) ⟨hfilter.next_eq, hfilter.finds.2⟩
        exact ⟨hrest.next_eq, hfilter.finds.1, hrest.finds⟩
      · rw [List.filter_cons_of_neg hm] at hfilter
        rcases hkeep m (eq_false_of_ne_true hm) with ⟨hkind, hon, hoff⟩
        have hmove : w.move on m = on := by
          rw [move, hon, hoff, Bool.not_false, Bool.and_true, Bool.false_or]
        have hrest := ih on hfilter
        rw [← hmove] at hrest
        refine ⟨hrest.next_eq, fun hkinds => ?_, hrest.finds⟩
        rw [hkind] at hkinds
        exact absurd hkinds Bool.false_ne_true

/-- If each event takes the switch to where a field of the assembly is, the whole
    history does. -/
theorem takes_history (field : Assembly → Bool) (s : Settings)
    (hstep : ∀ a e, w.Takes kind b (field a) (field (Assembly.step s a e).1)
      (.event e :: (Assembly.step s a e).2.map .output))
    (events : List Event) (a : Assembly) :
    w.Takes kind b (field a) (field (Assembly.run s a events).1)
      (Assembly.history s a events) :=
  Assembly.history_of_steps field (w.Takes kind b) (w.takes_nil kind b) (w.takes_append kind b) s
    hstep events a

end Switch

end Vp8

end VideoTransport

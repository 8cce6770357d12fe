import Mathlib.Data.List.Infix
import VideoTransport.Vp8.Descriptor
import VideoTransport.Vp8.Stream

/-!
# Groups of Packets

Which packets make a frame, told from the packets alone.

A group is a row of events that begins with the first packet of a frame, goes on
with packets that can be read and neither begin another frame nor come after a
break, and ends with the first packet that carries the marker. Losses that the
transport reports may lie in between. If its data is large enough for a header,
the group is a frame.

Nothing here is a machine: a group is found by trying every part of the events.
How a group grows when one more event comes is a theorem about that search. At
most one group reaches an event, because the first packet of a frame ends all
groups that were open before it.

## Main definitions

* `Event.opens`, `Event.continues`, `Event.ends`, `Event.part`: What an event does to a group.
* `isFrame`: A row of events is a frame, from its first packet to its last one.
* `groups`: The frames among some events, each with all events up to its end.

## Theorems

* `tails_reaching`: How a group grows by one event.
* `tails_isOpen_concat`: Which group is open after an event.
* `groups_concat`, `filter_isFrame_concat`: Which frames end with an event.
-/

namespace VideoTransport

namespace Vp8

namespace Event

/-- The event is a packet that can be read, and the first one of a frame. -/
def opens : Event → Bool
  | .packet p =>
    match Descriptor.parse p.payload with
    | .ok d => d.startsFrame
    | .error _ => false
  | _ => false

/-- A group can go on with the event: a packet that can be read, does not come
    after a break and is not the first one of a frame, or a reported loss. -/
def continues : Event → Bool
  | .packet p =>
    match Descriptor.parse p.payload with
    | .ok d => !p.discontinuous && !d.startsFrame
    | .error _ => false
  | .loss _ => true
  | _ => false

/-- The event is a packet that carries the marker. -/
def ends : Event → Bool
  | .packet p => p.marker
  | _ => false

/-- The data of the event: what follows the descriptor of a packet. -/
def part : Event → List UInt8
  | .packet p =>
    match Descriptor.parse p.payload with
    | .ok d => p.payload.drop d.length
    | .error _ => []
  | _ => []

theorem continues_of_opens (e : Event) (h : e.opens = true) : e.continues = false := by
  cases e with
  | packet p =>
      cases hparse : Descriptor.parse p.payload with
      | error err => simp only [continues, hparse]
      | ok d =>
          simp only [opens, hparse] at h
          simp only [continues, hparse, h, Bool.not_true, Bool.and_false]
  | _ => exact absurd h Bool.false_ne_true

end Event

/-- The data of some events. -/
def dataOf (g : List Event) : List UInt8 :=
  g.flatMap Event.part

/-- The events begin with the first packet of a frame and go on with it. -/
def begins : List Event → Bool
  | [] => false
  | first :: rest => first.opens && rest.all Event.continues

/-- The events are a group, up to their last one. None before it carries the
    marker. -/
def reaches (g : List Event) : Bool :=
  begins g && g.dropLast.all fun e => !e.ends

/-- The events are a group that has not ended. -/
def isOpen (g : List Event) : Bool :=
  begins g && g.all fun e => !e.ends

/-- The events are a frame: a group that ends with the marker and has data
    enough for a header. -/
def isFrame (g : List Event) : Bool :=
  reaches g && g.getLast?.any Event.ends && decide (10 ≤ (dataOf g).length)

/-- The frames among some events, in the order in which they end. Each comes
    with all events up to its end, of which it is the last part. -/
def groups (events : List Event) : List (List Event × List Event) :=
  events.inits.flatMap fun upTo => (upTo.tails.filter isFrame).map fun g => (upTo, g)

-- A group grows at its end. With nothing before it, an event can only begin one.
theorem begins_concat (g : List Event) (e : Event) (h : g ≠ []) :
    begins (g ++ [e]) = (begins g && e.continues) := by
  cases g with
  | nil => exact absurd rfl h
  | cons first rest =>
      rw [List.cons_append, begins, begins, List.all_append, Bool.and_assoc]
      simp only [List.all_cons, List.all_nil, Bool.and_true]

theorem reaches_concat (g : List Event) (e : Event) :
    reaches (g ++ [e]) = if g = [] then e.opens else isOpen g && e.continues := by
  by_cases h : g = []
  · subst h
    simp only [List.nil_append, reaches, begins, List.dropLast_singleton, List.all_nil,
      Bool.and_true, if_true]
  · rw [if_neg h, reaches, isOpen, begins_concat g e h, List.dropLast_concat, Bool.and_right_comm]

theorem filter_tails_concat (P : List Event → Bool) (events : List Event) (e : Event)
    (hnil : P [] = false) :
    (events ++ [e]).tails.filter P
      = (events.tails.filter fun g => P (g ++ [e])).map (· ++ [e]) := by
  have htails : (events ++ [e]).tails = events.tails.map (· ++ [e]) ++ [[]] := by
    rw [List.tails_append]
    rfl
  rw [htails, List.filter_append, List.filter_map, List.filter_cons_of_neg (by rw [hnil]; decide),
    List.filter_nil, List.append_nil]
  rfl

theorem filter_isEmpty_tails (events : List Event) :
    events.tails.filter List.isEmpty = [[]] := by
  induction events with
  | nil => rfl
  | cons e rest ih =>
      rw [List.tails, List.filter_cons_of_neg Bool.false_ne_true, ih]

/-- How a group grows by one event: it can be begun by it, or go on with it if
    it is open. -/
theorem tails_reaching (events : List Event) (e : Event) :
    (events ++ [e]).tails.filter reaches
      = if e.opens then [[e]]
        else if e.continues then (events.tails.filter isOpen).map (· ++ [e]) else [] := by
  rw [filter_tails_concat reaches events e rfl]
  by_cases hopens : e.opens = true
  · -- No open group goes on with the event, so only the empty rest is left.
    have hempty (g : List Event) : reaches (g ++ [e]) = g.isEmpty := by
      rw [reaches_concat, e.continues_of_opens hopens, Bool.and_false, hopens]
      cases g with
      | nil => rfl
      | cons first rest => rfl
    rw [if_pos hopens, List.filter_congr fun g _ => hempty g, filter_isEmpty_tails]
    rfl
  · -- The empty rest is not open, so it needs no case of its own.
    have hopen (g : List Event) : reaches (g ++ [e]) = (isOpen g && e.continues) := by
      rw [reaches_concat]
      cases g with
      | nil =>
          rw [if_pos rfl, isOpen, begins, Bool.false_and, Bool.false_and]
          exact Bool.eq_false_iff.2 hopens
      | cons first rest => rw [if_neg (List.cons_ne_nil _ _)]
    rw [if_neg hopens, List.filter_congr fun g _ => hopen g]
    by_cases hcontinues : e.continues = true
    · simp only [hcontinues, Bool.and_true, if_true]
    · simp only [hcontinues, Bool.and_false, Bool.false_eq_true, if_false, List.filter_false,
        List.map_nil]

-- Whatever reaches the last event ends with it.
theorem getLast?_of_mem_tails (events : List Event) (e : Event) (g : List Event)
    (h : g ∈ (events ++ [e]).tails.filter reaches) : g.getLast? = some e := by
  rw [filter_tails_concat reaches events e rfl] at h
  rcases List.mem_map.1 h with ⟨before, _, rfl⟩
  exact List.getLast?_concat

theorem tails_isOpen_concat (events : List Event) (e : Event) :
    (events ++ [e]).tails.filter isOpen
      = if e.ends then [] else (events ++ [e]).tails.filter reaches := by
  have hopen (g : List Event) : isOpen g = (reaches g && !g.getLast?.any Event.ends) := by
    rcases List.eq_nil_or_concat' g with rfl | ⟨before, last, rfl⟩
    · rfl
    · rw [isOpen, reaches, List.dropLast_concat, List.getLast?_concat, List.all_append,
        Bool.and_assoc]
      simp only [List.all_cons, List.all_nil, Bool.and_true, Option.any_some]
  rw [List.filter_congr fun g _ => hopen g]
  have hsplit := List.filter_filter (p := fun g : List Event => !g.getLast?.any Event.ends)
    (q := reaches) (l := (events ++ [e]).tails)
  simp only [Bool.and_comm (reaches _)]
  rw [← hsplit, List.filter_congr (q := fun _ => !e.ends) fun g hg => by
    rw [getLast?_of_mem_tails events e g hg, Option.any_some]]
  by_cases hends : e.ends = true
  · simp only [hends, Bool.not_true, List.filter_false, if_true]
  · simp only [hends, Bool.not_false, List.filter_true, Bool.false_eq_true, if_false]

theorem groups_concat (events : List Event) (e : Event) :
    groups (events ++ [e]) = groups events
      ++ ((events ++ [e]).tails.filter isFrame).map fun g => (events ++ [e], g) := by
  have hinits : (events ++ [e]).inits = events.inits ++ [events ++ [e]] := by
    rw [List.inits_append]
    rfl
  rw [groups, hinits, List.flatMap_append, List.flatMap_singleton]
  rfl

/-- The frames that end with an event are groups that reach it. -/
theorem filter_isFrame_concat (events : List Event) (e : Event) :
    (events ++ [e]).tails.filter isFrame
      = ((events ++ [e]).tails.filter reaches).filter
        fun g => e.ends && decide (10 ≤ (dataOf g).length) := by
  have hframe : isFrame = fun g => (g.getLast?.any Event.ends
      && decide (10 ≤ (dataOf g).length)) && reaches g := by
    funext g
    rw [isFrame, Bool.and_assoc, Bool.and_comm]
  rw [hframe, ← List.filter_filter]
  refine List.filter_congr fun g hg => ?_
  rw [getLast?_of_mem_tails events e g hg, Option.any_some]

end Vp8

end VideoTransport

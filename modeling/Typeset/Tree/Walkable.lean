import Typeset.Failure
import Typeset.Tree.Place

/-!
# Walks over loose values

A value that stands where a sequence of nodes is declared stops a walk unless it is empty, and a
text that stands among nodes stops every walk that gets to it. Walks differ in what they ask first:
an edit passes over branches that count as false, a visit only over such titles, tags and captions.
Where all branches are sequences of nodes, no walk is stopped.
-/

namespace Typeset

namespace Datum

/-- The type of what a walk finds below a text instead of nodes. -/
def belowText : String := "builtin_function_or_method"

/-- What stops a walk over the items of a value. The items of a text, and the keys of a mapping,
are texts. -/
def walkFault? : Datum → Option Failure
  | .seq _ => none
  | .str s => if s.isEmpty then none else some (.mismatch (.notIterable belowText))
  | .mapping ms => if ms.isEmpty then none else some (.mismatch (.notIterable belowText))
  | d => some (.mismatch (.notIterable d.typeName))

/-- What stops a walk over a value that is passed over if it counts as false. -/
def trueWalkFault? (d : Datum) : Option Failure := if d.isTrue then d.walkFault? else none

end Datum

namespace Node

/-- What stops a walk that has come to the node itself: a text has no branches to go over. -/
def textFault? (n : Node) : Option Failure :=
  match n.element with
  | .foreign (.str _) => some (.mismatch (.notIterable Datum.belowText))
  | _ => none

/-- What stops an edit before a branch of the node. -/
def editFault? (b : Branch) (n : Node) : Option Failure :=
  n.textFault?.or ((n.loose? b.name).bind Datum.trueWalkFault?)

/-- Before a branch of the node an edit goes on, or is stopped. -/
def editGate (b : Branch) (n : Node) : Except Failure Unit :=
  match n.editFault? b with
  | some e => .error e
  | none => .ok ()

/-- What stops a visit at the children of the node. -/
def childrenFault? (n : Node) : Option Failure := (n.loose? "children").bind Datum.walkFault?

/-- What stops a visit at another branch of the node. -/
def secondaryFault? (b : Branch) (n : Node) : Option Failure :=
  (n.loose? b.name).bind Datum.trueWalkFault?

/-- What a visit comes to. -/
inductive Event where
  | enter (o : Occurrence)
  | stop (e : Failure)

namespace Event

/-- The occurrence that a visit comes to. -/
def entered? : Event → Option Occurrence
  | .enter o => some o
  | .stop _ => none

/-- What stops a visit. -/
def stop? : Event → Option Failure
  | .enter _ => none
  | .stop e => some e

/-- The event of a visit that is stopped by something. -/
def stops (fault : Option Failure) : List Event := (fault.map .stop).toList

@[simp] theorem filterMap_entered?_stops (fault : Option Failure) :
    (stops fault).filterMap entered? = [] := by cases fault <;> rfl

end Event

mutual

/-- What a visit of a tree at a place comes to, in order. The first stop ends it. -/
def events (p : Place) : Node → List Event
  | ⟨info, children, title, tag, caption⟩ =>
    let n : Node := ⟨info, children, title, tag, caption⟩
    .enter ⟨p, n⟩ ::
      (Event.stops (n.textFault?.or n.childrenFault?) ++ eventsIn p .children 0 children ++
        (Event.stops (n.secondaryFault? .title) ++ eventsIn p .title 0 title) ++
        (Event.stops (n.secondaryFault? .tag) ++ eventsIn? p .tag tag) ++
        (Event.stops (n.secondaryFault? .caption) ++ eventsIn? p .caption caption))
termination_by structural n => n

/-- What a visit of the trees of a branch comes to, from an index on. -/
def eventsIn (p : Place) (branch : Branch) (index : Nat) : List Node → List Event
  | [] => []
  | n :: ns => n.events (p.down branch index) ++ eventsIn p branch (index + 1) ns
termination_by structural ns => ns

/-- What a visit of the trees of a branch that may be missing comes to. -/
def eventsIn? (p : Place) (branch : Branch) : Option (List Node) → List Event
  | none => []
  | some ns => eventsIn p branch 0 ns
termination_by structural ns => ns

end

mutual

/-- A visit that is not stopped comes to the occurrences of the tree. -/
theorem filterMap_entered?_events (p : Place) :
    ∀ n : Node, (n.events p).filterMap Event.entered? = n.occurrences p
  | ⟨info, children, title, tag, caption⟩ => by
    simp [events, occurrences, Event.entered?, filterMap_entered?_eventsIn p .children 0 children,
      filterMap_entered?_eventsIn p .title 0 title, filterMap_entered?_eventsIn? p .tag tag,
      filterMap_entered?_eventsIn? p .caption caption]

theorem filterMap_entered?_eventsIn (p : Place) (branch : Branch) (index : Nat) :
    ∀ ns : List Node,
      (eventsIn p branch index ns).filterMap Event.entered? = occurrencesIn p branch index ns
  | [] => rfl
  | n :: ns => by
    simp [eventsIn, occurrencesIn, filterMap_entered?_events (p.down branch index) n,
      filterMap_entered?_eventsIn p branch (index + 1) ns]

theorem filterMap_entered?_eventsIn? (p : Place) (branch : Branch) :
    ∀ ns : Option (List Node),
      (eventsIn? p branch ns).filterMap Event.entered? = occurrencesIn? p branch ns
  | none => rfl
  | some ns => filterMap_entered?_eventsIn p branch 0 ns

end

/-- What stops a visit of the tree. -/
def visitFault? (n : Node) : Option Failure := (n.events (.ofRoot 0)).findSome? Event.stop?

/-- All nodes of a tree in the order of a visit, unless the visit is stopped. -/
def visit? (n : Node) : Except Failure (List Node) :=
  match n.visitFault? with
  | some e => .error e
  | none => .ok n.visit

end Node

end Typeset

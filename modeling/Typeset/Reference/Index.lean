import Typeset.Assoc
import Typeset.Code.Lines
import Typeset.Text.Case
import Typeset.Tree.PlainText
import Typeset.Tree.Walkable

/-!
# The index of link targets

An index collects what links can point at from trees in the order of a visit. Under each key the
first node counts, so what a link finds is the first match of the visit. Keys are texts, but the
identifiers of headings and the labels of footnotes can be any values. A visit that is stopped
leaves in the index what it had come to.
-/

namespace Typeset

/-- Occurrences by key, where the first one counts. -/
abbrev Targets := List (String × Occurrence)

/-- Occurrences by keys of any type. -/
abbrev DatumTargets := List (Datum × Occurrence)

/-- What links can point at. -/
structure LinkIndex where
  /-- Blocks by their names. -/
  names : Targets
  /-- Headings by their custom ids. -/
  customIds : Targets
  /-- Headings by their identifiers. -/
  identifiers : DatumTargets
  /-- Headings by their titles. -/
  titles : Targets
  /-- Targets by their texts. -/
  targets : Targets
  /-- Radio targets by their texts. -/
  radioTargets : Targets
  /-- Definitions of footnotes by their labels. -/
  footnotes : DatumTargets
  /-- Blocks of code in the order of the visit. -/
  codeBlocks : List CodeEntry
  /-- How many blocks of code have been numbered: those of visits that came to their ends. -/
  numberedCount : Nat

namespace LinkIndex

/-- The index of no trees. -/
def empty : LinkIndex := ⟨[], [], [], [], [], [], [], [], 0⟩

/-- A text as titles and radio targets are compared: white space and case do not matter. -/
def normalize (t : String) : String := Text.lower (Text.collapseBlanks t)

/-- An occurrence entered under a key, unless the key is missing or empty. -/
def enter (key : Option String) (o : Occurrence) (t : Targets) : Targets :=
  match key with
  | none | some "" => t
  | some k => Assoc.register k o t

/-- The identifier of a heading as a key, unless it is missing or counts as false. -/
def identifierKey? (n : Node) (identifier : Option String) : Option Datum :=
  match n.loose? "identifier" with
  | some d => if d.isTrue then some d.key else none
  | none =>
    match identifier with
    | none | some "" => none
    | some t => some (.str t)

/-- The label of a footnote as a key. -/
def labelKey (n : Node) (label : String) : Datum :=
  match n.loose? "label" with
  | some d => d.key
  | none => .str label

/-- The index with a block entered under its name. -/
def recordName (ix : LinkIndex) (o : Occurrence) : LinkIndex :=
  if o.node.isBlock then { ix with names := enter o.node.info.name o ix.names } else ix

/-- The index with a heading entered under its custom id. -/
def recordCustomId (ix : LinkIndex) (o : Occurrence) (h : Heading) : LinkIndex :=
  { ix with customIds := enter h.customId o ix.customIds }

/-- The index with a heading entered under its identifier. -/
def recordIdentifier (ix : LinkIndex) (o : Occurrence) (h : Heading) : LinkIndex :=
  match identifierKey? o.node h.identifier with
  | some key => { ix with identifiers := Assoc.register key o ix.identifiers }
  | none => ix

/-- The index with a heading entered under its title. -/
def recordTitle (ix : LinkIndex) (o : Occurrence) : LinkIndex :=
  { ix with titles := Assoc.register (normalize (Node.plainTexts o.node.title)) o ix.titles }

/-- The index with an occurrence entered under the keys that its kind has. -/
def recordElement (ix : LinkIndex) (o : Occurrence) : LinkIndex :=
  match o.node.element with
  | .heading h => ((ix.recordCustomId o h).recordIdentifier o h).recordTitle o
  | .target value =>
    if (o.node.loose? "value").isSome then ix
    else { ix with targets := Assoc.register value o ix.targets }
  | .radioTarget value =>
    { ix with radioTargets := Assoc.register (normalize value) o ix.radioTargets }
  | .footnoteDefinition label =>
    { ix with footnotes := Assoc.register (labelKey o.node label) o ix.footnotes }
  | .codeBlock b => { ix with codeBlocks := ix.codeBlocks ++ [.ofOccurrence o b] }
  | _ => ix

/-- The index with one more occurrence. -/
def record (ix : LinkIndex) (o : Occurrence) : LinkIndex := (ix.recordName o).recordElement o

/-- The index with all its blocks of code numbered. -/
def number (ix : LinkIndex) : LinkIndex := { ix with numberedCount := ix.codeBlocks.length }

/-- The index with a tree at a place. -/
def add (ix : LinkIndex) (p : Place) (n : Node) : LinkIndex :=
  ((n.occurrences p).foldl record ix).number

/-! ## Trees that stop the visit -/

/-- The value of a loose field can be no key, which matters if it counts as true. -/
def trueKeyFault? (n : Node) (field : String) : Option Failure :=
  ((n.loose? field).filter Datum.isTrue).bind Datum.keyFault?

/-- What is wrong with the name of a block. -/
def nameFault? (n : Node) : Option Failure :=
  if n.isBlock then trueKeyFault? n "name" else none

/-- What is wrong with the plain text of a heading's title. -/
def titleFault? (n : Node) : Option Failure :=
  ((n.loose? "title").bind Datum.iterateFault?).or (Node.plainTextsFault? n.title)

/-- What is wrong with the keys that a node has by its kind. -/
def elementFault? (n : Node) : Option Failure :=
  match n.element with
  | .heading _ =>
    (trueKeyFault? n "custom_id").or ((trueKeyFault? n "identifier").or (titleFault? n))
  | .target _ => (n.loose? "value").bind Datum.keyFault?
  | .radioTarget _ => (n.loose? "value").map fun d ↦ .mismatch (.notText d.typeName)
  | .footnoteDefinition _ => (n.loose? "label").bind Datum.keyFault?
  | _ => none

/-- What is wrong when a node is entered. -/
def recordFault? (n : Node) : Option Failure := (nameFault? n).or (elementFault? n)

/-- The index with a node entered under the keys that come before what is wrong with it. -/
def recordPart (ix : LinkIndex) (o : Occurrence) : LinkIndex :=
  if (nameFault? o.node).isSome then ix
  else
    let ix := ix.recordName o
    match o.node.element with
    | .heading h =>
      if (trueKeyFault? o.node "custom_id").isSome then ix
      else
        let ix := ix.recordCustomId o h
        if (trueKeyFault? o.node "identifier").isSome then ix else ix.recordIdentifier o h
    | _ => ix

/-- The index after what a visit comes to, and what stopped it. -/
def follow (ix : LinkIndex) : List Node.Event → LinkIndex × Option Failure
  | [] => (ix, none)
  | .stop e :: _ => (ix, some e)
  | .enter o :: events =>
    match recordFault? o.node with
    | none => (ix.record o).follow events
    | some e => (ix.recordPart o, some e)

/-- What is wrong with the blocks of code when they are numbered. -/
def numberFault? (ix : LinkIndex) : Option Failure := ix.codeBlocks.findSome? CodeEntry.offsetFault?

/-- The index with a tree at a place as far as nothing is wrong, and what is wrong. -/
def addSound (ix : LinkIndex) (p : Place) (n : Node) : LinkIndex × Option Failure :=
  match ix.follow (n.events p) with
  | (ix, some e) => (ix, some e)
  | (ix, none) => (ix.number, ix.numberFault?)

/-- What stops a visit at one of its events. -/
def eventFault? : Node.Event → Option Failure
  | .enter o => recordFault? o.node
  | .stop e => some e

theorem follow_of_sound (ix : LinkIndex) (events : List Node.Event)
    (h : ∀ e ∈ events, eventFault? e = none) :
    ix.follow events = ((events.filterMap Node.Event.entered?).foldl record ix, none) := by
  induction events generalizing ix with
  | nil => rfl
  | cons e events ih =>
    have he := h e List.mem_cons_self
    cases e with
    | stop e => simp [eventFault?] at he
    | enter o =>
      simp only [eventFault?] at he
      simp [follow, he, Node.Event.entered?, ih (ix.record o) fun e he ↦ h e (.tail _ he)]

/-- Where nothing stops the visit and all offsets are numbers, the whole tree is entered. -/
theorem addSound_of_sound (ix : LinkIndex) (p : Place) (n : Node)
    (h : ∀ e ∈ n.events p, eventFault? e = none) (h' : (ix.add p n).numberFault? = none) :
    ix.addSound p n = (ix.add p n, none) := by
  have h'' : ((n.occurrences p).foldl record ix).numberFault? = none := h'
  simp [addSound, follow_of_sound ix _ h, Node.filterMap_entered?_events, add, h'']

end LinkIndex

end Typeset

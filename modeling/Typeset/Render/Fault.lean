import Typeset.Latex.Directive
import Typeset.Reference.Index
import Typeset.Tree.Walkable

/-!
# What can be wrong with a node that is printed

A node with values of other types than its kind declares may still print, as long as nothing is
done with a value that its type has no use for. Some nodes give a value as it is, which only
matters when it is put together with other outputs. A node all of whose values are of their
declared types has none of these faults.
-/

namespace Typeset.Node

/-- The value that a node gives as it is in the place of a text; formulas take more of them. -/
def rawOutput? (inMath : Bool) (n : Node) : Option Datum :=
  match n.element with
  | .text _ => if inMath then n.loose? "content" else none
  | .latexFragment _ => n.loose? "value"
  | .entity _ _ needsMath _ => if needsMath && !inMath then none else n.loose? "latex"
  | .exportSnippet backend _ => if Latex.isLatexBackend backend then n.loose? "value" else none
  | _ => none

/-- What is wrong with a value that a node is to give as it is: that of a formula inside of another
one is measured first. -/
def rawFault? (inMath : Bool) (n : Node) : Option Failure :=
  match n.element with
  | .latexFragment _ => if inMath then (n.loose? "value").bind Datum.lengthFault? else none
  | _ => none

/-- What is wrong with the blank space after a node that has printed something. -/
def spaceFault? (n : Node) : Option Failure :=
  if n.isLooselyTrue "post_blank" then blankFault? n.info else none

/-- What is wrong with some nodes and their outputs when they are put together, where so many
pieces stand before them: a value that is no text. -/
def outputsFault? (inMath : Bool) (pieces : Nat) : List Node → List (Option String) → Option Failure
  | n :: ns, some _ :: outputs =>
    match n.rawOutput? inMath with
    | some d => some (.mismatch (.notJoinable pieces d.typeName))
    | none => outputsFault? inMath (pieces + (if n.postBlank = 0 then 1 else 2)) ns outputs
  | _ :: ns, none :: outputs => outputsFault? inMath pieces ns outputs
  | _, _ => none

/-- What is wrong with the kind of a list, whose environment is looked up by it. -/
def listKindFault? (n : Node) : Option Failure :=
  (n.loose? "kind").map fun d ↦ d.keyFault?.getD (.missingEntry d)

/-- What is wrong with an item's own number, from which one is subtracted. -/
def counterFault? (n : Node) : Option Failure :=
  ((n.loose? "counter").filter fun d ↦ d.number?.isNone).map fun d ↦
    .mismatch (.notOperand "-" d.typeName "int")

/-- What is wrong with a field whose value is looked up unless it counts as false. -/
def keyFieldFault? (n : Node) (field : String) : Option Failure :=
  ((n.loose? field).filter Datum.isTrue).bind Datum.keyFault?

/-- What is wrong with the labels that a block of code declares, which are gone over. -/
def referencesFault? (n : Node) : Option Failure :=
  (n.loose? "references").bind Datum.iterateFault?

/-- The labels that a block of code declares, given those that are texts. -/
def declaredLabels (n : Node) (texts : List String) : List Datum :=
  match n.loose? "references" with
  | some d => d.items?.getD []
  | none => texts.map .str

end Typeset.Node

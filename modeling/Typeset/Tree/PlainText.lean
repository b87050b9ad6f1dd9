import Typeset.Operation
import Typeset.Text.Lines
import Typeset.Tree.Node

/-!
# The plain text of inline objects

Titles and names are compared by their plain text: what is left without markup and images.
`Node.plainTexts?` is the same with an eye on loose values: it fails where the text of a node is no
text or the space after it no number.
-/

namespace Typeset.Node

mutual

/-- The plain text of a node, with the spaces after it. -/
def plainText : Node → String
  | ⟨info, children, _, _, _⟩ =>
    (match info.element with
      | .text content => content
      | .entity name _ _ utf8 => if utf8.isEmpty then name else utf8
      | .image .. => ""
      | .latexFragment value | .radioTarget value | .target value | .code value | .verbatim value
      | .timestamp value _ | .exportSnippet _ value | .exampleBlock value
      | .latexEnvironment value | .rawBlock _ value | .keyword _ value => value
      | .codeBlock block => block.value
      | _ => plainTexts children) ++ Text.spaces info.postBlank
termination_by structural n => n

/-- The plain text of nodes in a row. -/
def plainTexts : List Node → String
  | [] => ""
  | n :: ns => n.plainText ++ plainTexts ns
termination_by structural ns => ns

end

/-- What is wrong with a field that is to be a text unless it counts as false. -/
def textFieldFault? (n : Node) (field : String) : Option Failure :=
  ((n.loose? field).filter Datum.isTrue).bind Datum.textFault?

/-- What stands in the place of a node's own plain text and is no text. -/
def looseText? (n : Node) : Option Datum :=
  match n.element with
  | .text _ => n.loose? "content"
  | .latexFragment _ | .radioTarget _ => n.loose? "value"
  | .entity _ _ _ utf8 =>
    if utf8.isEmpty && !n.isLooselyTrue "utf8" then n.loose? "name" else n.loose? "utf8"
  | _ => none

/-- The number of pieces that a node adds to a plain text: its text, if it can have one, and the
space after it. -/
def pieceCount (n : Node) : Nat := if n.kind == .image then 1 else 2

/-- The first of some nodes whose text is no text, given the number of pieces before them. -/
def joinFault? (pieces : Nat) : List Node → Option Failure
  | [] => none
  | n :: ns =>
    match n.looseText? with
    | some d => some (.mismatch (.notJoinable pieces d.typeName))
    | none => joinFault? (pieces + n.pieceCount) ns

/-- The plain text of a node is that of its children. -/
def readsChildren : Element → Bool
  | .text _ | .entity .. | .image .. | .latexFragment _ | .radioTarget _ | .target _ | .code _
  | .verbatim _ | .timestamp .. | .exportSnippet .. | .exampleBlock _ | .latexEnvironment _
  | .rawBlock .. | .keyword .. | .codeBlock _ => false
  | _ => true

/-- What is wrong with the space after a node. -/
def blankFault? (i : NodeInfo) : Option Failure :=
  match i.loose? "post_blank" with
  | none => none
  | some d => if d.number?.isSome then none else some (.mismatch (.notFactor d.typeName))

mutual

/-- What is wrong below a node, or with the space after it, when its plain text is asked for. -/
def plainFault? : Node → Option Failure
  | ⟨info, children, _, _, _⟩ =>
    (if readsChildren info.element then
      ((info.loose? "children").bind Datum.iterateFault?).or
        ((innerFault? children).or (joinFault? 0 children))
    else none).or (blankFault? info)
termination_by structural n => n

/-- What is wrong below one of some nodes, or with the space after it. -/
def innerFault? : List Node → Option Failure
  | [] => none
  | n :: ns => n.plainFault?.or (innerFault? ns)
termination_by structural ns => ns

end

/-- What is wrong with nodes in a row when their plain text is asked for: something below one of
them, or else a text that is none. -/
def plainTextsFault? (ns : List Node) : Option Failure := (innerFault? ns).or (joinFault? 0 ns)

/-- The plain text of nodes in a row. -/
def plainTexts? (ns : List Node) : Except Failure String :=
  match plainTextsFault? ns with
  | some e => .error e
  | none => .ok (plainTexts ns)

end Typeset.Node

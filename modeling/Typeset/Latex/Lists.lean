import Typeset.Failure
import Typeset.Latex.Command
import Typeset.Text.Trim
import Typeset.Tree.Element

/-! # Lists and their items -/

namespace Typeset.Latex

/-- The environment of a kind of list. -/
def listEnvironment : ListKind → Except Failure String
  | .ordered => .ok "enumerate"
  | .unordered => .ok "itemize"
  | .descriptive => .ok "description"
  | .undeclared name => .error (.missingKey name)

/-- A list with its items. -/
def listText (kind : ListKind) (attributes : Attributes) (contents : String) :
    Except Failure String := do
  let default ← listEnvironment kind
  let environment := (attributes.shown? "environment").getD default
  let options := (attributes.shown? "options").getD ""
  return opening environment ++ options ++ "\n" ++ contents ++ closing environment ++ "\n"

/-- The box of a state. -/
def checkboxText : Checkbox → Option String
  | .on => some "$\\boxtimes$"
  | .off => some "$\\square$"
  | .trans => some "$\\boxminus$"
  | .undeclared _ => none

/-- The counter of an ordered list inside as many others as the depth says, itself included. -/
def enumCounter (depth : Nat) : String :=
  match depth with
  | 0 | 1 => "enumi"
  | 2 => "enumii"
  | 3 => "enumiii"
  | _ => "enumiv"

/-- What stands between the item command and the body: the box and the tag in square brackets. A
tag is braced as well, so that a bracket inside it closes nothing. -/
def itemMarker (checkbox : Option Checkbox) (tag : String) : String :=
  let box := (checkbox.bind checkboxText).getD ""
  if !tag.isEmpty then "[" ++ braced (if box.isEmpty then tag else box ++ " " ++ tag) ++ "]"
  else if !box.isEmpty then "[" ++ box ++ "]"
  else ""

/-- The line that sets the counter of an ordered list before an item with a number of its own. -/
def counterLine (depth : Nat) (counter : Int) : String :=
  command "setcounter" (enumCounter depth) ++ braced (toString (counter - 1)) ++ "\n"

/-- An item. The depth is given where a counter of its own counts. -/
def itemText (checkbox : Option Checkbox) (counter : Option Int) (depth : Option Nat)
    (tag contents : String) : String :=
  let counterLine :=
    match counter, depth with
    | some n, some d => Latex.counterLine d n
    | _, _ => ""
  let body := Text.strip contents
  counterLine ++ "\\item" ++ itemMarker checkbox tag ++
    (if body.isEmpty then "" else " " ++ body) ++ "\n"

end Typeset.Latex

import Typeset.Text.Case
import Typeset.Text.Cut

/-!
# Mathematics in LaTeX sources

The delimiters around a formula and the environments that set displays.
-/

namespace Typeset.Latex

/-- The pairs of delimiters of a formula, in the order they are tried. -/
def mathDelimiters : List (List Char × List Char) :=
  [(['$', '$'], ['$', '$']), (['\\', '('], ['\\', ')']), (['\\', '['], ['\\', ']']), (['$'], ['$'])]

/-- The text stands between the two delimiters. -/
def delimitedBy (opener closer cs : List Char) : Bool :=
  opener.length + closer.length ≤ cs.length && opener.isPrefixOf cs && closer.isSuffixOf cs

/-- What stands between the first pair of delimiters that surround the text. -/
def withoutDelimiters (cs : List Char) : List Char :=
  match mathDelimiters.find? fun (opener, closer) ↦ delimitedBy opener closer cs with
  | some (opener, closer) =>
    (cs.drop opener.length).take (cs.length - closer.length - opener.length)
  | none => cs

/-- A formula without the delimiters around it. -/
def stripMathDelimiters (t : String) : String := .ofList (withoutDelimiters t.toList)

/-- The text opens a formula within a line: `\(`, or one dollar sign and something else. -/
def opensInlineMath : List Char → Bool
  | '\\' :: '(' :: _ => true
  | '$' :: c :: _ => c != '$'
  | _ => false

/-- An ASCII letter. -/
def isLetter (c : Char) : Bool := c.isAlpha

/-- The name in an opening of an environment that stands at the front of the text. -/
def openedAt? (cs : List Char) : Option (List Char) :=
  if "\\begin\x7b".toList.isPrefixOf cs then
    let rest := cs.drop 7
    let name := rest.takeWhile isLetter
    match name, rest.dropWhile isLetter with
    | [], _ => none
    | _, '}' :: _ => some name
    | _, '*' :: '}' :: _ => some (name ++ ['*'])
    | _, _ => none
  else none

/-- The name of the first environment that the text opens. -/
def firstOpened? : List Char → Option (List Char)
  | [] => none
  | c :: cs =>
    match openedAt? (c :: cs) with
    | some name => some name
    | none => firstOpened? cs

/-- The name of the first environment that the text opens. -/
def environmentName? (t : String) : Option String := (firstOpened? t.toList).map .ofList

/-- The environments that set displays, without stars. -/
def displayEnvironments : List String :=
  ["align", "alignat", "darray", "dgroup", "displaymath", "dmath", "eqnarray", "equation",
    "flalign", "gather", "math", "multline", "subequations", "xalignat", "xxalignat"]

/-- Environments that set displays and give them no number. -/
def numberlessEnvironments : List String := ["math", "displaymath"]

/-- The environment sets displays, starred or not and in any case. -/
def isMathEnvironment : Option String → Bool
  | none | some "" => false
  | some name => displayEnvironments.contains (Text.dropEnding (Text.lower name) "*")

/-- The environment sets displays with numbers. -/
def isNumberedMath : Option String → Bool
  | none => false
  | some name =>
    isMathEnvironment (some name) && !Text.endsWith name "*" &&
      !numberlessEnvironments.contains (Text.lower name)

end Typeset.Latex

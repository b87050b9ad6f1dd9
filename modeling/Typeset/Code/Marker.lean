import Typeset.Text.Cut
import Typeset.Text.Lines
import Typeset.Text.Trim
import Typeset.Tree.Element
import Typeset.Unicode.Alphanumeric

/-!
# Markers in code

A line of code can end with a marker: blanks, the beginning of the label format, a label, the rest
of the format and further blanks. Markers are taken off the printed code.
-/

namespace Typeset.Marker

open Unicode

/-- A space or a tab. -/
def isGap (c : Char) : Bool := c == ' ' || c == '\t'

/-- A character of a label. -/
def isLabelChar (c : Char) : Bool := c == '-' || c == ' ' || isWordChar c

/-- The rest of the format stands at the front and nothing but blanks after it. -/
def closes (after cs : List Char) : Bool :=
  after.isPrefixOf cs && (cs.drop after.length).all isGap

/-- The shortest label at the front behind which a marker closes. -/
def label? (after : List Char) : List Char → Option (List Char)
  | [] => none
  | c :: cs =>
    if isLabelChar c then
      if closes after cs then some [c] else (label? after cs).map (c :: ·)
    else none

/-- The label of a marker that begins at the front, with as many blanks before it as can be. -/
def markerAt? (before after : List Char) : List Char → Option (List Char)
  | [] => none
  | c :: cs =>
    let here :=
      if before.isPrefixOf (c :: cs) then label? after ((c :: cs).drop before.length) else none
    if isGap c then (markerAt? before after cs).or here else here

/-- What stands before the marker of a line, and its label. -/
def find? (before after : List Char) : List Char → Option (List Char × List Char)
  | [] => none
  | c :: cs =>
    match markerAt? before after (c :: cs) with
    | some label => some ([], label)
    | none => (find? before after cs).map fun (code, label) ↦ (c :: code, label)

/-- What stands around the place of the label in a format. -/
def around (format : String) : List Char × List Char :=
  (Text.cut? ['%', 's'] format.toList).getD (format.toList, [])

/-- A line without its marker; a label that is retained stays between parentheses. -/
def stripLine (format : String) (retain : Bool) (line : String) : String :=
  match find? (around format).1 (around format).2 line.toList with
  | none => line
  | some (code, label) =>
    .ofList (if retain then code ++ [' ', '('] ++ label ++ [')'] else code)

/-- The lines of a block of code that are printed, with their markers. -/
def printedLines (b : CodeBlock) : List String := Text.lines (Text.dropFinalNewlines b.value)

/-- The code of a block without markers. -/
def strip (b : CodeBlock) : String :=
  Text.unlines ((printedLines b).map (stripLine b.labelFormat b.retainLabels))

end Typeset.Marker

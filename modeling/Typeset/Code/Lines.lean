import Typeset.Code.LabelFormat
import Typeset.Code.Marker
import Typeset.Operation
import Typeset.Tree.Place

/-!
# Lines of code

The line that a label names, and lines with their numbers in front. Blocks of code are numbered in
the order in which they were entered; a continued block goes on from the last numbered one before
it. Numbering stops at a block whose offset is no number.
-/

namespace Typeset

namespace CodeBlock

/-- The number of the first line, from one on, that holds the marker of a label. No marker needs to
be longer than the code that might hold it. -/
def lineOf? (b : CodeBlock) (label : Datum) : Except Failure (Option Nat) := do
  let marker ← LabelFormat.fill (b.value.length + 1) b.labelFormat label
  let lines := Text.lines b.value
  return (lines.findIdx? fun line ↦ Text.holds line marker).map (· + 1)

/-- How many lines of the block are printed. -/
def lineCount (b : CodeBlock) : Nat := (Marker.printedLines b).length

/-- The number of the first line of a numbered block, when numbering has got as far as `running`. -/
def firstLine? (b : CodeBlock) (running : Int) : Option Int :=
  b.numbering.map fun numbering ↦
    b.offset + (if numbering = .continued then running else 0) + 1

/-- A number with spaces in front to fill a width. -/
def padded (width : Nat) (n : Int) : String :=
  .ofList (List.replicate (width - (toString n).length) ' ') ++ toString n

/-- Lines with their numbers in front, from a first number on, all as wide as `width`. -/
def numberedFrom (width : Nat) (first : Int) : List String → List String
  | [] => []
  | line :: lines => (padded width first ++ "  " ++ line) :: numberedFrom width (first + 1) lines

/-- A text with numbered lines. The numbers are as wide as the last one. -/
def numbered (code : String) (first : Int) : String :=
  let lines := Text.lines code
  Text.unlines (numberedFrom (toString (first + lines.length - 1)).length first lines)

end CodeBlock

/-! ## Blocks of code at their places -/

/-- A block of code at its place, with the values that stand in it for a label format and an offset
and are of another type. -/
structure CodeEntry where
  place : Place
  block : CodeBlock
  looseFormat : Option Datum
  looseOffset : Option Datum
deriving Repr

namespace CodeEntry

/-- The entry of an occurrence that is a block of code. -/
def ofOccurrence (o : Occurrence) (b : CodeBlock) : CodeEntry :=
  ⟨o.place, b, o.node.loose? "label_format", o.node.loose? "number_offset"⟩

/-- What is wrong with the offset of a numbered block: a number is added to it. -/
def offsetFault? (e : CodeEntry) : Option Failure :=
  e.block.numbering.bind fun numbering ↦
    e.looseOffset.bind (Datum.sumFault? (if numbering = .continued then "+=" else "+"))

/-- The first lines of the numbered ones among some blocks, when numbering has got as far as
`running`. -/
def firstLinesFrom (running : Int) : List CodeEntry → List (Place × Int)
  | [] => []
  | e :: es =>
    if e.offsetFault?.isSome then []
    else
      match e.block.firstLine? running with
      | none => firstLinesFrom running es
      | some first => (e.place, first) :: firstLinesFrom (first - 1 + e.block.lineCount) es

/-- The line of the block that holds a label's marker; a format that is no text gives no marker. -/
def lineOf? (e : CodeEntry) (label : Datum) : Except Failure (Option Nat) :=
  match e.looseFormat with
  | some d => .error (.mismatch (.notOperand "%" d.typeName label.typeName))
  | none => e.block.lineOf? label

end CodeEntry

end Typeset

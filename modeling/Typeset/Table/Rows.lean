import Typeset.Text.Case
import Typeset.Text.Cut
import Typeset.Text.Number
import Typeset.Text.Trim
import Typeset.Tree.PlainText

/-!
# The rows of a table

Rule rows and column-group rows shape a table but are no rows of its layout. The others are its
data rows, numbered from zero in the order of the source. Any node that has a kind can stand for a
row.
-/

namespace Typeset.Table

/-- What a source row is to the layout. -/
inductive RowClass where
  | data
  | rule
  | colgroup
  | other
deriving DecidableEq, Repr

/-- The kind that a child of a table has as a row. -/
def rowKind? (n : Node) : Option RowKind :=
  match n.element with
  | .tableRow kind => some kind
  | .plainList kind => some (.ofName kind.name)
  | .link kind _ => some (.ofName kind)
  | .timestamp _ kind => some (.ofName kind)
  | _ => none

/-- The class of a child of a table. -/
def rowClass (n : Node) : RowClass :=
  match rowKind? n with
  | some .rule => .rule
  | some .colgroup => .colgroup
  | some _ => .data
  | none => .other

/-- The node is a data row. -/
def isData (n : Node) : Bool := rowClass n == .data

/-- The data rows of a table. -/
def dataRows (table : Node) : List Node := table.children.filter isData

/-- For each source row its number among the data rows, counted from `next`, if it is one. -/
def rowIndices (next : Nat) : List Node → List (Option Nat)
  | [] => []
  | row :: rows =>
    if isData row then some next :: rowIndices (next + 1) rows else none :: rowIndices next rows

/-- A group of rows that began at `start`, if one did, and ends before `next`. -/
def closeGroup (start : Option Nat) (next : Nat) : List (Nat × Nat) :=
  match start with
  | some first => [(first, next - 1)]
  | none => []

/-- The first and last data rows of each group, given where the open one began. Rule rows end a
group. -/
def groupsFrom (start : Option Nat) (next : Nat) : List Node → List (Nat × Nat)
  | [] => closeGroup start next
  | row :: rows =>
    match rowClass row with
    | .rule => closeGroup start next ++ groupsFrom none next rows
    | .data => groupsFrom (some (start.getD next)) (next + 1) rows
    | _ => groupsFrom start next rows

/-- The text of a cell without blanks at its ends. -/
def cellText (cell : Node) : String := Text.strip (Node.plainTexts cell.children)

/-- The text of a row's cell in a column, empty if the row is shorter. -/
def textAt (row : Node) (column : Nat) : String := ((row.children[column]?).map cellText).getD ""

/-- The rows that mark the groups of columns. -/
def colgroups (table : Node) : List Node := table.children.filter fun n ↦ rowClass n == .colgroup

/-- The number of cells of the widest row. -/
def widest (rows : List Node) : Nat := (rows.map fun row ↦ row.children.length).foldl max 0

/-- The columns with a mark in a column-group row, in order. -/
def markedColumns (mark : String) (table : Node) : List Nat :=
  (List.range (widest (colgroups table))).filter fun column ↦
    (colgroups table).any fun row ↦ Text.holds (textAt row column) mark

/-- The width that a cell asks for, null for none. -/
def cellWidth (cell : Node) : Datum :=
  match cell.element with
  | .tableCell width => (cell.loose? "width").getD (.ofNumber? width)
  | _ => .null

/-- What is wrong with a cell when its text is asked for. -/
def cellFault? (cell : Node) : Option Failure :=
  ((cell.loose? "children").bind Datum.iterateFault?).or (Node.plainTextsFault? cell.children)

/-- What is wrong with the cells of a row when their texts are asked for. -/
def cellsFault? (row : Node) : Option Failure :=
  ((row.loose? "children").bind Datum.iterateFault?).or (row.children.findSome? cellFault?)

/-- A truth value that an attribute spells out. -/
def flag? : Option String → Option Bool
  | none => none
  | some value =>
    let value := Text.lower (Text.strip value)
    if ["t", "true", "yes", "y", "1"].contains value then some true
    else if ["nil", "false", "no", "n", "0"].contains value then some false
    else none

end Typeset.Table

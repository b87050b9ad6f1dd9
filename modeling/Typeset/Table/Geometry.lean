import Typeset.Config.Basic
import Typeset.Latex.Command
import Typeset.Table.Rows

/-!
# The layout of a table

A layout is derived from the rows of a table and the configuration. It says which rows are the
header and the footer, what role each row and cell plays, and where rules are printed.
-/

namespace Typeset

/-- A part of a table. -/
inductive TablePart where
  | head
  | body
  | foot
deriving DecidableEq, Repr

def TablePart.name : TablePart → String
  | .head => "head"
  | .body => "body"
  | .foot => "foot"

/-- The role of a row. -/
inductive RowRole where
  /-- The one row of a header or a footer. -/
  | single
  /-- The first row of a header or a footer. -/
  | top
  /-- The last row of a header or a footer. -/
  | bottom
  /-- Any other row of a header or a footer. -/
  | mid
  | first
  | last
  | groupStart
  | groupEnd
  | none
deriving DecidableEq, Repr

def RowRole.name : RowRole → String
  | .single => "single"
  | .top => "top"
  | .bottom => "bottom"
  | .mid => "mid"
  | .first => "first"
  | .last => "last"
  | .groupStart => "group-start"
  | .groupEnd => "group-end"
  | .none => "none"

/-- The role of a cell. -/
inductive CellRole where
  | corner
  | edge
  | groupStart
  | groupEnd
  | none
deriving DecidableEq, Repr

def CellRole.name : CellRole → String
  | .corner => "corner"
  | .edge => "edge"
  | .groupStart => "group-start"
  | .groupEnd => "group-end"
  | .none => "none"

/-- The layout of a table. Rows are data rows, and spans hold a first and a last row. -/
structure Geometry where
  rowCount : Nat
  columnCount : Nat
  groups : List (Nat × Nat)
  header : Option (Nat × Nat)
  footer : Option (Nat × Nat)
  /-- The columns that open a group of columns. -/
  groupStarts : List Nat
  /-- The columns that close a group of columns. -/
  groupEnds : List Nat
  /-- The widths that the cells of the first row ask for, null for none. -/
  widths : List Datum
  /-- For each source row its number, if it is a data row. -/
  indices : List (Option Nat)
deriving DecidableEq, Repr

namespace Geometry

/-- The row lies in the span. -/
def within (span : Option (Nat × Nat)) (index : Nat) : Bool :=
  span.any fun (first, last) ↦ first ≤ index && index ≤ last

/-- The number of the data row that a source row is. -/
def indexOf? (g : Geometry) (source : Nat) : Option Nat := g.indices[source]?.join

/-- The part of the table that a row belongs to. -/
def part (g : Geometry) (index : Nat) : TablePart :=
  if within g.header index then .head
  else if within g.footer index then .foot
  else .body

/-- The first row after the header. -/
def bodyStart (g : Geometry) : Nat :=
  match g.header with
  | some (_, last) => last + 1
  | none => 0

/-- The role of a row in a header or a footer. -/
def spanRole (span : Nat × Nat) (index : Nat) : RowRole :=
  if span.1 = span.2 then .single
  else if index = span.1 then .top
  else if index = span.2 then .bottom
  else .mid

/-- The role of a row by the group it opens or closes. -/
def groupRole (index : Nat) : List (Nat × Nat) → RowRole
  | [] => .none
  | (first, last) :: groups =>
    if index = first then .groupStart
    else if index = last then .groupEnd
    else groupRole index groups

/-- The role of a row. -/
def rowRole (g : Geometry) (index : Nat) : RowRole :=
  match g.header.filter fun span ↦ within (some span) index with
  | some span => spanRole span index
  | none =>
    match g.footer.filter fun span ↦ within (some span) index with
    | some span => spanRole span index
    | none =>
      if index = 0 then .first
      else if index + 1 = g.rowCount then .last
      else groupRole index g.groups

/-- The role of the cell of a row in a column. -/
def cellRole (g : Geometry) (index column : Nat) : CellRole :=
  let edgeRow := index == 0 || index + 1 == g.rowCount
  let edgeColumn := column == 0 || column + 1 == g.columnCount
  if edgeRow && edgeColumn then .corner
  else if edgeColumn then .edge
  else if g.groupStarts.contains column then .groupStart
  else if g.groupEnds.contains column then .groupEnd
  else .none

/-- The rules above the table, within it and below it. -/
def ruleNames (booktabs : Bool) : String × String × String :=
  if booktabs then ("\\toprule", "\\midrule", "\\bottomrule") else ("\\hline", "\\hline", "\\hline")

/-- The row opens a group or is the first one after the header. -/
def opensSection (g : Geometry) (index : Nat) : Bool :=
  (g.groups.any fun (first, _) ↦ first == index) ||
    g.header.any fun (_, last) ↦ index == last + 1

/-- The rules printed before and after a row, empty where there is none. -/
def rules (g : Geometry) (booktabs : Bool) (index : Nat) : String × String :=
  let (top, mid, bottom) := ruleNames booktabs
  (if index = 0 then top else if g.opensSection index then mid else "",
    if index + 1 = g.rowCount then bottom else "")

/-- A cell that forces the width of its column. -/
def sizingCell (width : Datum) : String :=
  if width.isTrue then Latex.command "rule" (width.plain ++ "em") ++ Latex.braced "0pt" else ""

/-- A row without height that forces the widths of columns, if any are asked for. -/
def sizingRow (g : Geometry) : Option String :=
  if g.widths.any Datum.isTrue then
    let cells := g.widths.map sizingCell ++ List.replicate (g.columnCount - g.widths.length) ""
    some (String.intercalate " & " cells ++ " \\\\[-\\normalbaselineskip]")
  else none

end Geometry

namespace Table

/-- Whether the table has a header: as its attribute says, or else as the configuration does. -/
def headerEnabled (table : Node) (config : Config) : Bool :=
  (flag? (table.attributes.text? "header")).getD config.tableHeader

/-- What decides whether the table has a header, as the table or the configuration gives it. -/
def headerSetting (table : Node) (config : Config) : Json :=
  match flag? (table.attributes.text? "header") with
  | some b => .bool b
  | none => ((config.loose? "table_header").map Datum.toJson).getD (.bool config.tableHeader)

/-- Whether the table has a footer: there must be more than two groups of rows and a reason, an
attribute of the table or a text for the foot of each page. -/
def footerEnabled (table : Node) (groupCount : Nat) (config : Config) : Bool :=
  2 < groupCount &&
    ((table.attributes.lookup "footer").isSome || !Text.isBlankText config.tableFooterContent)

/-- The layout of a table. -/
def geometry (config : Config) (table : Node) : Geometry :=
  let rows := dataRows table
  let groups := groupsFrom none 0 table.children
  { rowCount := rows.length
    columnCount := widest rows
    groups := groups
    header :=
      if 0 < rows.length && headerEnabled table config then
        match groups with
        | first :: _ :: _ => some first
        | _ => some (0, 0)
      else none
    footer := if footerEnabled table groups.length config then groups.getLast? else none
    groupStarts := markedColumns "<" table
    groupEnds := markedColumns ">" table
    widths := (rows.head?.map fun row ↦ row.children.map cellWidth).getD []
    indices := rowIndices 0 table.children }

/-- What is wrong with a table when its layout is asked for: the texts of column-group rows are
read and the cells of data rows counted. -/
def geometryFault? (table : Node) : Option Failure :=
  ((table.loose? "children").bind Datum.iterateFault?).or
    (((colgroups table).findSome? cellsFault?).or
      ((dataRows table).findSome? fun row ↦ (row.loose? "children").bind Datum.lengthFault?))

/-- The layout of a table, unless something is wrong with the table. -/
def geometry? (config : Config) (table : Node) : Except Failure Geometry :=
  match geometryFault? table with
  | some e => .error e
  | none => .ok (geometry config table)

end Table

end Typeset

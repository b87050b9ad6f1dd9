import Typeset.Table.Geometry

/-!
# Columns and cell styles

A column is set to the right when more than half of its cells are numbers. Bars stand where groups
of columns begin and end.
-/

namespace Typeset.Table

/-- The data rows outside of the header. -/
def rowsBelowHeader (g : Geometry) (table : Node) : List Node :=
  ((table.children.zip g.indices).filter fun (_, index) ↦
    index.any fun i ↦ g.part i != .head).map (·.1)

/-- The texts of a column's cells that are not empty. -/
def columnTexts (rows : List Node) (column : Nat) : List String :=
  (rows.map fun row ↦ textAt row column).filter fun t ↦ !t.isEmpty

/-- More than half of the texts are numbers. -/
def isNumeric (texts : List String) : Bool := texts.length < 2 * texts.countP Text.isNumber

/-- The letter of each column: `r` for numbers and `l` for anything else. -/
def alignments (g : Geometry) (table : Node) : List Char :=
  (List.range g.columnCount).map fun column ↦
    if isNumeric (columnTexts (rowsBelowHeader g table) column) then 'r' else 'l'

/-- Letters with bars between them, from a column on. The flag tells that a bar was printed last. -/
def barred (g : Geometry) (column : Nat) (afterBar : Bool) : List Char → List Char
  | [] => []
  | letter :: letters =>
    let before := g.groupStarts.contains column && 0 < column && !afterBar
    let after := g.groupEnds.contains column && column + 1 < g.columnCount
    (if before then ['|'] else []) ++ [letter] ++ (if after then ['|'] else []) ++
      barred g (column + 1) after letters

/-- The letters of the columns with bars where groups of columns begin and end. -/
def columnWord (g : Geometry) (table : Node) : String :=
  .ofList (barred g 0 false (alignments g table))

/-- The specification of the columns: an attribute of the table, or letters and bars. -/
def columnSpec (g : Geometry) (table : Node) : Json :=
  (table.attributes.true? "align").getD (.str (columnWord g table))

/-- What is wrong with the cells that decide on the letters of the columns. -/
def alignmentsFault? (g : Geometry) (table : Node) : Option Failure :=
  (rowsBelowHeader g table).findSome? cellsFault?

/-- What is wrong when the specification of the columns is asked for. -/
def columnSpecFault? (g : Geometry) (table : Node) : Option Failure :=
  if (table.attributes.true? "align").isSome then none else alignmentsFault? g table

/-- The format that the role of a cell gives it. -/
def roleStyle (config : Config) (g : Geometry) (index column : Nat) : Json :=
  (config.tableCellStyles.lookup (g.cellRole index column).name).getD (.str "%s")

/-- The format around the cells of a footer: the given one if it counts as true, or else the
configured one. One that is no text has no place for a cell and is as good as empty. -/
def footerWrapper (config : Config) (footerStyle : Json) : String :=
  if footerStyle.isTrue then footerStyle.text?.getD "" else config.tableFooterStyle

/-- The format of a cell. That of a cell in the footer is wrapped, if the wrapper has a place for
it. -/
def cellStyle (config : Config) (g : Geometry) (footerStyle : Json) (index column : Nat) : Json :=
  let style := roleStyle config g index column
  let wrapper := footerWrapper config footerStyle
  if g.part index = .foot && Text.holds wrapper "%s" then .str (Text.fill wrapper style.plain)
  else style

/-- What is wrong with the format around the cells of a footer, in which a place is searched for. -/
def footerWrapperFault? (config : Config) (footerStyle : Json) : Option Failure :=
  if footerStyle.isTrue then footerStyle.containerFault?
  else ((config.loose? "table_footer_style").filter Datum.isTrue).bind Datum.containerFault?

/-- What is wrong when the format of a cell is asked for: a format that is no text cannot be
wrapped. -/
def cellStyleFault? (config : Config) (g : Geometry) (footerStyle : Json) (index column : Nat) :
    Option Failure :=
  if g.part index = .foot then
    (footerWrapperFault? config footerStyle).or
      (if Text.holds (footerWrapper config footerStyle) "%s" then
        ((some (roleStyle config g index column)).filter fun j ↦ j.text?.isNone).map fun j ↦
          .mismatch (.notReplacement j.typeName)
      else none)
  else none

end Typeset.Table

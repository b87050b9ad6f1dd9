import Typeset.Latex.Command
import Typeset.Table.Columns

/-! # Tables, their rows and their cells -/

namespace Typeset.Latex

/-- The environment of a table. -/
def tableEnvironment (config : Config) (table : Node) : String :=
  (table.attributes.shown? "environment").getD config.tableEnvironment

/-- The table may run over several pages. -/
def isLong (config : Config) (table : Node) : Bool := tableEnvironment config table == "longtable"

/-- Whether the rules of a table are those of booktabs. -/
def usesBooktabs (config : Config) (table : Node) : Bool :=
  (Table.flag? (table.attributes.text? "booktabs")).getD config.tableBooktabs

/-- Environments that take a width. -/
def widthEnvironments : List String := ["tabularx", "tabulary", "tabular*"]

/-- The opening of a table with its columns. -/
def tableOpening (config : Config) (g : Geometry) (table : Node) : String :=
  let environment := tableEnvironment config table
  let width :=
    if widthEnvironments.contains environment then
      braced ((table.attributes.shown? "width").getD "\\linewidth")
    else ""
  opening environment ++ width ++ braced (Table.columnSpec g table).plain

/-- The environment of a kind of float. -/
def tableFloat : String → String
  | "multicolumn" => "table*"
  | "sideways" => "sidewaystable"
  | name => name

/-- Two texts one above the other. -/
def arranged (above : Bool) (caption tabular : List String) : List String :=
  if above then caption ++ tabular else tabular ++ caption

/-- A table that does not float. -/
def fixedTable (config : Config) (tabular caption : String) (label : Option String) : String :=
  Text.unlines (arranged config.tableCaptionAbove
    (lineOf (captionText (some "table") caption label)) [tabular]) ++ "\n"

/-- A table in a float. -/
def floatingTable (config : Config) (attributes : Attributes) (float tabular caption : String)
    (label : Option String) : String :=
  let environment := tableFloat float
  let placement := (attributes.shown? "placement").getD config.tablePlacement
  Text.unlines ([opening environment ++ placement] ++
    (if config.tableCentered then ["\\centering"] else []) ++
    arranged config.tableCaptionAbove (lineOf (captionText none caption label)) [tabular] ++
    [closing environment]) ++ "\n"

/-- The kind of float that a table asks for, or else the configured one; empty for none. -/
def floatOf (config : Config) (table : Node) : String :=
  match table.attributes.lookup "float" with
  | some j => j.printed?.getD ""
  | none => config.tableFloat

/-- A table on one page. -/
def tableText (config : Config) (g : Geometry) (table : Node) (contents caption : String)
    (label : Option String) : String :=
  let tabular := tableOpening config g table ++ "\n" ++ contents ++
    closing (tableEnvironment config table)
  let float := floatOf config table
  if float.isEmpty || float == "nil" then fixedTable config tabular caption label
  else floatingTable config table.attributes float tabular caption label

/-- The foot of a long table: a text for each page and the rows held back for the last one. -/
def longFoot (config : Config) (g : Geometry) (rows : List String) : String :=
  (if g.footer.isSome && !config.tableFooterContent.isEmpty then
    command "multicolumn" (toString g.columnCount) ++ braced "r" ++
      braced config.tableFooterContent ++ " \\\\\n\\endfoot\n"
  else "") ++
  (if rows.isEmpty then "" else String.join rows ++ "\\endlastfoot\n")

/-- A table over several pages. Its foot comes right behind its head, or first of all if it has
none. -/
def longTableText (config : Config) (g : Geometry) (table : Node)
    (contents caption : String) (label : Option String) (rows : List String) : String :=
  let caption := captionText none caption label
  let head := if caption.isEmpty then "" else caption ++ " \\\\\n"
  let foot := longFoot config g rows
  let body := match Text.cut? "\\endhead\n".toList contents.toList with
    | some (before, after) => .ofList before ++ "\\endhead\n" ++ foot ++ .ofList after
    | none => foot ++ contents
  tableOpening config g table ++ "\n" ++ head ++ body ++ closing "longtable" ++ "\n"

/-- The cells that a row is short of. -/
def padding (g : Geometry) (cells : Nat) : String :=
  String.join (List.replicate (g.columnCount - cells) " &")

/-- A row with the lines that belong to it: rules, the row that forces widths, and the end of the
head of a long table. -/
def rowText (config : Config) (g : Geometry) (table : Node) (index cells : Nat)
    (contents : String) : String :=
  let (before, after) := g.rules (usesBooktabs config table) index
  let style := (config.tableRowStyles.lookup (g.rowRole index).name).getD ""
  let sizing := if index = g.bodyStart then g.sizingRow.getD "" else ""
  let endsHead := isLong config table && g.header.any fun (_, last) ↦ last == index
  Text.unlines (lineOf before ++ lineOf sizing ++
    [style ++ contents ++ padding g cells ++ " \\\\"] ++ lineOf after ++
    (if endsHead then ["\\endhead"] else [])) ++ "\n"

/-- The style that a table asks for its footer, null unless it has a place for the cell. -/
def footerStyle (table : Node) : Json :=
  (((table.attributes.text? "footer").filter fun style ↦ Text.holds style "%s").map .str).getD .null

/-- A cell, with what separates it from the one before. -/
def cellText (config : Config) (g : Geometry) (table : Node) (index column : Nat)
    (contents : String) : String :=
  let text := Text.fill (Table.cellStyle config g (footerStyle table) index column).plain
    (Text.strip contents)
  if column = 0 then text else " & " ++ text

/-- What is wrong with a name that an attribute or else an option gives, and that is looked up. -/
def nameFault? (config : Config) (table : Node) (name option : String) : Option Failure :=
  match table.attributes.lookup name with
  | some j => j.keyFault?
  | none => (config.loose? option).bind Datum.keyFault?

/-- What is wrong when the opening of a table is asked for. -/
def tableOpeningFault? (config : Config) (g : Geometry) (table : Node) : Option Failure :=
  (Table.columnSpecFault? g table).or (nameFault? config table "environment" "table_environment")

/-- What is wrong with the float of a table. A long table has none. -/
def tableFloatFault? (config : Config) (table : Node) : Option Failure :=
  if isLong config table || (floatOf config table).isEmpty then none
  else nameFault? config table "float" "table_float"

/-- What is wrong when a cell is printed: the style of its table's footer is searched for a place
even if the cell is in no footer. -/
def cellFault? (config : Config) (g : Geometry) (table : Node) (index column : Nat) :
    Option Failure :=
  ((table.attributes.true? "footer").bind Json.containerFault?).or
    (Table.cellStyleFault? config g (footerStyle table) index column)

end Typeset.Latex

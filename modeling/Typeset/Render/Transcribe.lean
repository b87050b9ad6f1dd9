import Typeset.Latex.Display
import Typeset.Latex.Figure
import Typeset.Latex.Link
import Typeset.Latex.Lists
import Typeset.Latex.Listing
import Typeset.Latex.Section
import Typeset.Latex.Tabular
import Typeset.Render.Action
import Typeset.Render.Fault

/-!
# Printing one node

What a node prints once everything below it has been printed. A node can print nothing at all,
which is not the same as an empty text.
-/

namespace Typeset.Render

open Action Context

/-- The printed parts of a node. -/
structure Parts where
  title : String
  tag : String
  caption : String
  contents : String
deriving Repr

/-- A heading. In a zone other than the body its text goes to the zone's buffer. -/
def heading (config : Config) (o : Occurrence) (h : Heading) (parts : Parts) :
    Action (Option String) := do
  let label ← Context.label o
  check (Latex.sectionFault? config h ((o.node.loose? "level").getD (.int h.level)))
  let text ← ofExcept (Latex.sectionText config h parts.title label parts.contents)
  if o.node.zone = .body then return some text
  else
    route o.node.zone text (some o.place)
    return none

/-- A paragraph: a figure, a text with a line feed, or nothing for blank contents. -/
def paragraph (config : Config) (o : Occurrence) (parts : Parts) : Action (Option String) := do
  check o.node.figureFault?
  if o.node.isFigure then
    let label ← label? o
    check (Latex.figureFloatFault? o.node.attributes)
    return some (Latex.figureText config o.node.attributes parts.contents parts.caption label)
  else
    let text := Text.stripEnd parts.contents
    return if text.isEmpty then none else some (text ++ "\n")

/-- A list with its items. -/
def plainList (o : Occurrence) (kind : ListKind) (contents : String) : Action String := do
  check o.node.listKindFault?
  ofExcept (Latex.listText kind o.node.attributes contents)

/-- The number of ordered lists around an item, if it stands right inside of one. -/
def itemDepth? (c : Context) : Option Nat :=
  if c.parent?.any fun o ↦ o.node.isOrderedList then some c.orderedDepth else none

/-- An item of a list. -/
def item (o : Occurrence) (checkbox : Option Checkbox) (counter : Option Int) (parts : Parts) :
    Action String := do
  let depth ← ask itemDepth?
  check (if depth.isSome then o.node.counterFault? else none)
  check (o.node.keyFieldFault? "checkbox")
  return Latex.itemText checkbox counter depth parts.tag parts.contents

/-- Labels stand in the code of a block. -/
def checkLabels (origin : Origin) (e : CodeEntry) : List Datum → Except Failure Unit
  | [] => .ok ()
  | label :: labels => do
    match ← e.lineOf? label with
    | none => throw (.unresolvedCode label origin)
    | some _ => checkLabels origin e labels

/-- The configured name of a block's language, if it names one. -/
def languageOf (config : Config) (b : CodeBlock) : Action (Option String) :=
  match b.language with
  | none | some "" => pure none
  | some language => do return (← nameOfLanguage config language).plain

/-- A block of code. -/
def codeBlock (config : Config) (o : Occurrence) (b : CodeBlock) (caption : String) :
    Action String := do
  check o.node.referencesFault?
  ofExcept (checkLabels o.node.origin (.ofOccurrence o b) (o.node.declaredLabels b.references))
  let firstLine ← ask fun c ↦ c.references.index.firstLine? o.place
  check (o.node.keyFieldFault? "language")
  let language ← languageOf config b
  let label ← label? o
  check (Latex.Listing.fault? config)
  return Latex.Listing.print config ⟨Marker.strip b, firstLine, language, label, caption⟩

/-- A table. -/
def table (config : Config) (o : Occurrence) (parts : Parts) : Action String := do
  let g ← ofExcept (Table.geometry? config o.node)
  check (Latex.tableOpeningFault? config g o.node)
  check (Latex.tableFloatFault? config o.node)
  let label ← label? o
  if Latex.isLong config o.node then
    let rows ← release o.place
    return Latex.longTableText config g o.node parts.contents parts.caption label rows
  else return Latex.tableText config g o.node parts.contents parts.caption label

/-- A row of a table. The foot rows of a long table are held back. -/
def tableRow (config : Config) (o : Occurrence) (contents : String) : Action (Option String) := do
  match ← ask Context.table? with
  | none => fail (.strayRow o.node.origin)
  | some table =>
    let g ← ofExcept (Table.geometry? config table.node)
    match (o.place.childIndex? table.place).bind g.indexOf? with
    | none => return none
    | some index =>
      let text := Latex.rowText config g table.node index o.node.children.length contents
      if Latex.isLong config table.node && g.part index == .foot then
        hold table.place text
        return none
      else return some text

/-- A cell of a table. -/
def tableCell (config : Config) (o : Occurrence) (contents : String) : Action (Option String) := do
  match ← ask Context.parent?, ← ask Context.table? with
  | some row, some table =>
    if row.node.kind ≠ .tableRow then fail (.strayCell o.node.origin)
    else
      let g ← ofExcept (Table.geometry? config table.node)
      match (row.place.childIndex? table.place).bind g.indexOf? with
      | none => return none
      | some index =>
        match o.place.childIndex? row.place with
        | none => fail .unlistedCell
        | some column =>
          check (Latex.cellFault? config g table.node index column)
          return some (Latex.cellText config g table.node index column contents)
  | _, _ => fail (.strayCell o.node.origin)

/-- A text in the format of a kind of markup. -/
def markup (config : Config) (kind text : String) : Action String := do
  check ((config.loose? "text_markup").bind Datum.entriesFault?)
  match config.textMarkup.lookup kind with
  | some format => return Text.fill format text
  | none => fail (.missingKey kind)

/-- The value of a node in a format for code. -/
def code (config : Config) (o : Occurrence) (kind value : String) : Action String := do
  check (o.node.textFieldFault? "value")
  markup config kind (Latex.escapeCode value)

/-- A text with typographic quotes; one whose quotes do not balance stays as it is, with a
warning. -/
def quotes (config : Config) (origin : Origin) (text : String) : Action String :=
  match Quotes.typographic? (Quotes.tableFor config.language config.quotes) text with
  | .ok written => pure written
  | .error (.unbalancedQuotes t p) => do
    warn (origin.shown ++ ": " ++ (Failure.unbalancedQuotes t p).message ++
      "; quotes left unprocessed")
    return text
  | .error e => fail e

/-- Running text, which formulas take as it is. -/
def text (config : Config) (o : Occurrence) (content : String) : Action String := do
  if ← ask Context.inMath then return content
  else
    check (o.node.textFieldFault? "content")
    if config.smartQuotes then quotes config o.node.origin (Latex.escapeText content)
    else return Latex.escapeText content

/-- One text inside of formulas and another one outside. -/
def byMode (inside outside : String) : Action String :=
  ask fun c ↦ if c.inMath then inside else outside

/-- A label command for an occurrence. -/
def labelOf (o : Occurrence) : Action String := do return Latex.labelCommand (← Context.label o)

/-- An image with the attributes of its own or of the paragraph around it. -/
def image (config : Config) (path : String) (attributes : Attributes) : Action String := do
  check (Latex.imageFault? config attributes)
  return Latex.imageText config path attributes

/-- The attributes of the paragraph around an image link. -/
def imageAttributes (c : Context) : Attributes :=
  match c.parent? with
  | some o => if o.node.kind = .paragraph then o.node.attributes else []
  | none => []

/-- The kinds of links that point into the document. -/
def internalKinds : List String := ["fuzzy", "custom-id", "id", "radio"]

/-- A link. -/
def link (config : Config) (o : Occurrence) (kind path contents : String) : Action String := do
  let description := Text.strip contents
  let origin := some o.node.origin
  let pathValue := (o.node.loose? "path").getD (.str path)
  if kind = "coderef" then
    let line ← fun c ↦ (c.references.index.codeLine pathValue origin, c)
    return if description.isEmpty then toString line else description
  else if internalKinds.contains kind then
    let target ← fun c ↦ (c.references.index.resolveDatum kind pathValue origin, c)
    let label ← Context.label target
    return Latex.internalLink target.node label description
  else
    check o.node.imageLinkFault?
    if o.node.isImageLink then image config path (← ask imageAttributes)
    else
      check (pathValue.textFault?)
      return Latex.externalLink kind path description

/-- A footnote with its text. -/
def footnoteText (contents : String) : String := Latex.command "footnote" (Text.strip contents)

/-- A reference to a footnote: the footnote itself where its label is used first, and its mark
from then on. The text is that of the reference, or that of the footnote's definition. -/
def footnoteReference (expand : Occurrence → Action String) (o : Occurrence)
    (label : Option String) (contents : String) : Action String := do
  match (o.node.loose? "label").or (label.map .str) with
  | none =>
    let token ← reference o.place
    let _ ← nextFootnote (.str ("anonymous:" ++ token))
    return footnoteText contents
  | some label =>
    check label.keyFault?
    let (number, first) ← nextFootnote label
    if !first then return "\\footnotemark[" ++ toString number ++ "]"
    else if o.node.children.isEmpty then
      let definition ← fun c ↦ (c.references.index.footnote label (some o.node.origin), c)
      return footnoteText (← expand definition)
    else return footnoteText contents

/-- What a timestamp prints: ranges have the format of their ends. -/
def timestampText (config : Config) (value kind : String) : String :=
  let format := (config.timestampFormats.lookup (Text.dropEnding kind "-range")).getD "%s"
  Text.fill format (Latex.escapeText value)

/-- A timestamp. -/
def timestamp (config : Config) (o : Occurrence) (value kind : String) : Action String := do
  check (o.node.textFieldFault? "value")
  return timestampText config value kind

/-- What a node prints, given its parts and how the text of a footnote's definition is printed. -/
def transcribeElement (config : Config) (expand : Occurrence → Action String) (o : Occurrence)
    (parts : Parts) : Action (Option String) :=
  let contents := parts.contents
  let attributes := o.node.attributes
  match o.node.element with
  | .document _ => pure (some contents)
  | .heading h => heading config o h parts
  | .paragraph => paragraph config o parts
  | .plainList kind => some <$> plainList o kind contents
  | .item checkbox counter => some <$> item o checkbox counter parts
  | .table => some <$> table config o parts
  | .tableRow _ => tableRow config o contents
  | .tableCell _ => tableCell config o contents
  | .quoteBlock => pure (some (Latex.quoteText contents))
  | .specialBlock type => do
    return some (Latex.specialText config type attributes (← label? o) contents)
  | .codeBlock b => some <$> codeBlock config o b parts.caption
  | .exampleBlock value => pure (some (Latex.verbatimText (Text.dropFinalNewlines value)))
  | .latexEnvironment value => do return some (Latex.displayText value (← label? o))
  | .rawBlock backend value =>
    pure (if Latex.isLatexBackend backend then some (Latex.rawText value) else none)
  | .keyword key value => pure (Latex.keywordText config key value)
  | .horizontalRule => pure (some (Latex.ruleText attributes))
  | .footnoteDefinition _ => pure none
  | .text content => some <$> text config o content
  | .bold => some <$> markup config "bold" contents
  | .italic => some <$> markup config "italic" contents
  | .underline => some <$> markup config "underline" contents
  | .strikeThrough => some <$> markup config "strike-through" contents
  | .code value => some <$> code config o "code" value
  | .verbatim value => some <$> code config o "verbatim" value
  | .link kind path => some <$> link config o kind path contents
  | .image path attributes => some <$> image config path attributes
  | .footnoteReference label => some <$> footnoteReference expand o label contents
  | .timestamp value kind => some <$> timestamp config o value kind
  | .latexFragment value => some <$> byMode (Latex.stripMathDelimiters value) value
  | .entity _ latex needsMath _ =>
    let latex := ((o.node.loose? "latex").map Datum.plain).getD latex
    some <$> byMode latex (if needsMath then "\\(" ++ latex ++ "\\)" else latex)
  | .subscript =>
    some <$> byMode ("_" ++ Latex.braced contents) (Latex.command "textsubscript" contents)
  | .superscript =>
    some <$> byMode ("^" ++ Latex.braced contents) (Latex.command "textsuperscript" contents)
  | .mathRun => some <$> byMode contents ("\\(" ++ contents ++ "\\)")
  | .lineBreak => pure (some "\\\\\n")
  | .target _ => some <$> labelOf o
  | .radioTarget _ => do return some ((← labelOf o) ++ contents)
  | .exportSnippet backend value =>
    pure (if Latex.isLatexBackend backend then some value else none)
  | .bareNode | .bareBlock | .bareInline | .foreign _ =>
    fail (.unprintableKind o.node.kind.name o.node.origin)

/-- What a node prints. A value that it gives as it is counts as an empty text here, and null as
nothing. -/
def transcribe (config : Config) (expand : Occurrence → Action String) (o : Occurrence)
    (parts : Parts) : Action (Option String) := do
  let inMath ← ask Context.inMath
  check (o.node.rawFault? inMath)
  match o.node.rawOutput? inMath with
  | some .null => return none
  | some _ => return some ""
  | none => transcribeElement config expand o parts

end Typeset.Render

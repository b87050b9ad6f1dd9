/-!
# Kinds of nodes

A kind has a name and is a block or an inline object. Bare kinds belong to no constructor of a
document and are never printed, and neither are values of foreign types, which can stand among
nodes.
-/

namespace Typeset

/-- The kind of a node. -/
inductive Kind where
  | document
  | heading
  | paragraph
  | plainList
  | item
  | table
  | tableRow
  | tableCell
  | quoteBlock
  | specialBlock
  | codeBlock
  | exampleBlock
  | latexEnvironment
  | rawBlock
  | keyword
  | horizontalRule
  | footnoteDefinition
  | text
  | bold
  | italic
  | underline
  | strikeThrough
  | code
  | verbatim
  | link
  | image
  | footnoteReference
  | timestamp
  | latexFragment
  | entity
  | subscript
  | superscript
  | mathRun
  | lineBreak
  | target
  | radioTarget
  | exportSnippet
  | bareNode
  | bareBlock
  | bareInline
  /-- A value that is no node, by the name of its type. -/
  | foreign (type : String)
deriving DecidableEq, Repr

namespace Kind

/-- The name of a kind in a serialized tree. -/
def name : Kind → String
  | .document => "Document"
  | .heading => "Heading"
  | .paragraph => "Paragraph"
  | .plainList => "PlainList"
  | .item => "Item"
  | .table => "Table"
  | .tableRow => "TableRow"
  | .tableCell => "TableCell"
  | .quoteBlock => "QuoteBlock"
  | .specialBlock => "SpecialBlock"
  | .codeBlock => "CodeBlock"
  | .exampleBlock => "ExampleBlock"
  | .latexEnvironment => "LatexEnvironment"
  | .rawBlock => "RawBlock"
  | .keyword => "Keyword"
  | .horizontalRule => "HorizontalRule"
  | .footnoteDefinition => "FootnoteDefinition"
  | .text => "Text"
  | .bold => "Bold"
  | .italic => "Italic"
  | .underline => "Underline"
  | .strikeThrough => "StrikeThrough"
  | .code => "Code"
  | .verbatim => "Verbatim"
  | .link => "Link"
  | .image => "Image"
  | .footnoteReference => "FootnoteReference"
  | .timestamp => "Timestamp"
  | .latexFragment => "LatexFragment"
  | .entity => "Entity"
  | .subscript => "Subscript"
  | .superscript => "Superscript"
  | .mathRun => "MathRun"
  | .lineBreak => "LineBreak"
  | .target => "Target"
  | .radioTarget => "RadioTarget"
  | .exportSnippet => "ExportSnippet"
  | .bareNode => "Node"
  | .bareBlock => "BlockNode"
  | .bareInline => "InlineNode"
  | .foreign type => type

/-- The kinds that a serialized tree may name: all but the bare and the foreign ones. -/
def registered : List Kind :=
  [.document, .heading, .paragraph, .plainList, .item, .table, .tableRow, .tableCell, .quoteBlock,
    .specialBlock, .codeBlock, .exampleBlock, .latexEnvironment, .rawBlock, .keyword,
    .horizontalRule, .footnoteDefinition, .text, .bold, .italic, .underline, .strikeThrough,
    .code, .verbatim, .link, .image, .footnoteReference, .timestamp, .latexFragment, .entity,
    .subscript, .superscript, .mathRun, .lineBreak, .target, .radioTarget, .exportSnippet]

/-- The kind that a serialized tree names. -/
def ofName? (name : String) : Option Kind := registered.find? fun k ↦ k.name == name

/-- The kinds that are blocks: they may have a name, a caption and attributes, and blank lines
follow them. The others are inline objects. -/
def isBlock : Kind → Bool
  | .document | .heading | .paragraph | .plainList | .item | .table | .tableRow | .tableCell
  | .quoteBlock | .specialBlock | .codeBlock | .exampleBlock | .latexEnvironment | .rawBlock
  | .keyword | .horizontalRule | .footnoteDefinition | .bareBlock => true
  | _ => false

/-- What a walk calls a node of this kind. -/
def role : Kind → String
  | .document => "document"
  | .heading => "heading"
  | .paragraph => "paragraph"
  | .plainList => "plain_list"
  | .item => "item"
  | .table => "table"
  | .tableRow => "table_row"
  | .tableCell => "table_cell"
  | .quoteBlock => "quote_block"
  | .specialBlock => "special_block"
  | .codeBlock => "code_block"
  | .exampleBlock => "example_block"
  | .latexEnvironment => "latex_environment"
  | .rawBlock => "raw_block"
  | .keyword => "keyword"
  | .horizontalRule => "horizontal_rule"
  | .footnoteDefinition => "footnote_definition"
  | .text => "text"
  | .bold | .italic | .underline | .strikeThrough => "markup"
  | .code | .verbatim => "code"
  | .link => "link"
  | .image => "image"
  | .footnoteReference => "footnote_reference"
  | .timestamp => "timestamp"
  | .latexFragment => "latex_fragment"
  | .entity => "entity"
  | .subscript | .superscript => "script"
  | .mathRun => "math_run"
  | .lineBreak => "line_break"
  | .target => "target"
  | .radioTarget => "radio_target"
  | .exportSnippet => "export_snippet"
  | .bareNode | .bareBlock | .bareInline | .foreign _ => "default"

theorem ofName?_name : ∀ k ∈ registered, ofName? k.name = some k := by decide

end Kind

end Typeset

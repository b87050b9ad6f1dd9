import Typeset.Datum
import Typeset.Json.Entries

/-!
# Elements: what a node is

An element holds everything that is peculiar to a kind of node, except the nodes below it.
Literals that a kind declares are constructors; any other text stays as it was written. Attributes
and properties are meant to be texts, but their values are not restricted.
-/

namespace Typeset

/-- Attributes of a block or an image, or properties of a document. -/
abbrev Attributes := Entries

/-- The kind of a list. -/
inductive ListKind where
  | ordered
  | unordered
  | descriptive
  | undeclared (name : String)
deriving DecidableEq, Repr

namespace ListKind

def name : ListKind → String
  | .ordered => "ordered"
  | .unordered => "unordered"
  | .descriptive => "descriptive"
  | .undeclared name => name

def ofName : String → ListKind
  | "ordered" => .ordered
  | "unordered" => .unordered
  | "descriptive" => .descriptive
  | name => .undeclared name

@[simp] theorem name_ofName (s : String) : (ofName s).name = s := by
  unfold ofName; split <;> rfl

end ListKind

/-- The kind of a table row. -/
inductive RowKind where
  | standard
  | rule
  | colgroup
  | undeclared (name : String)
deriving DecidableEq, Repr

namespace RowKind

def name : RowKind → String
  | .standard => "standard"
  | .rule => "rule"
  | .colgroup => "colgroup"
  | .undeclared name => name

def ofName : String → RowKind
  | "standard" => .standard
  | "rule" => .rule
  | "colgroup" => .colgroup
  | name => .undeclared name

@[simp] theorem name_ofName (s : String) : (ofName s).name = s := by
  unfold ofName; split <;> rfl

end RowKind

/-- The state of a check box. -/
inductive Checkbox where
  | on
  | off
  | trans
  | undeclared (name : String)
deriving DecidableEq, Repr

namespace Checkbox

def name : Checkbox → String
  | .on => "on"
  | .off => "off"
  | .trans => "trans"
  | .undeclared name => name

def ofName : String → Checkbox
  | "on" => .on
  | "off" => .off
  | "trans" => .trans
  | name => .undeclared name

@[simp] theorem name_ofName (s : String) : (ofName s).name = s := by
  unfold ofName; split <;> rfl

end Checkbox

/-- How the lines of a code block are numbered. -/
inductive Numbering where
  | new
  | continued
  | undeclared (name : String)
deriving DecidableEq, Repr

namespace Numbering

def name : Numbering → String
  | .new => "new"
  | .continued => "continued"
  | .undeclared name => name

def ofName : String → Numbering
  | "new" => .new
  | "continued" => .continued
  | name => .undeclared name

@[simp] theorem name_ofName (s : String) : (ofName s).name = s := by
  unfold ofName; split <;> rfl

end Numbering

/-- A heading without its title. -/
structure Heading where
  /-- The depth in the outline, starting at one. -/
  level : Int
  /-- The zone the heading belongs to; without one it stands in the body. -/
  zone : Option Zone
  customId : Option String
  identifier : Option String
  unnumbered : Bool
  tags : List String
deriving DecidableEq, Repr

/-- A block of code. -/
structure CodeBlock where
  value : String
  language : Option String
  /-- Whether and how lines are numbered. -/
  numbering : Option Numbering
  /-- Added to the number of the first line. -/
  offset : Int
  /-- The shape of the markers of code labels, with `%s` for the label. -/
  labelFormat : String
  /-- Whether labels stay in the printed code. -/
  retainLabels : Bool
  /-- The labels that the block declares. -/
  references : List String
deriving DecidableEq, Repr

/-- What a node is. -/
inductive Element where
  | document (properties : Attributes)
  | heading (h : Heading)
  | paragraph
  | plainList (kind : ListKind)
  | item (checkbox : Option Checkbox) (counter : Option Int)
  | table
  | tableRow (kind : RowKind)
  | tableCell (width : Option Int)
  | quoteBlock
  | specialBlock (type : String)
  | codeBlock (block : CodeBlock)
  | exampleBlock (value : String)
  | latexEnvironment (value : String)
  | rawBlock (backend value : String)
  | keyword (key value : String)
  | horizontalRule
  | footnoteDefinition (label : String)
  | text (content : String)
  | bold
  | italic
  | underline
  | strikeThrough
  | code (value : String)
  | verbatim (value : String)
  | link (kind path : String)
  | image (path : String) (attributes : Attributes)
  | footnoteReference (label : Option String)
  | timestamp (value kind : String)
  | latexFragment (value : String)
  | entity (name latex : String) (needsMath : Bool) (utf8 : String)
  | subscript
  | superscript
  | mathRun
  | lineBreak
  | target (value : String)
  | radioTarget (value : String)
  | exportSnippet (backend value : String)
  | bareNode
  | bareBlock
  | bareInline
  /-- A value that is no node. -/
  | foreign (value : Datum)
deriving DecidableEq, Repr

namespace Element

/-- The kind of an element. -/
def kind : Element → Kind
  | .document _ => .document
  | .heading _ => .heading
  | .paragraph => .paragraph
  | .plainList _ => .plainList
  | .item .. => .item
  | .table => .table
  | .tableRow _ => .tableRow
  | .tableCell _ => .tableCell
  | .quoteBlock => .quoteBlock
  | .specialBlock _ => .specialBlock
  | .codeBlock _ => .codeBlock
  | .exampleBlock _ => .exampleBlock
  | .latexEnvironment _ => .latexEnvironment
  | .rawBlock .. => .rawBlock
  | .keyword .. => .keyword
  | .horizontalRule => .horizontalRule
  | .footnoteDefinition _ => .footnoteDefinition
  | .text _ => .text
  | .bold => .bold
  | .italic => .italic
  | .underline => .underline
  | .strikeThrough => .strikeThrough
  | .code _ => .code
  | .verbatim _ => .verbatim
  | .link .. => .link
  | .image .. => .image
  | .footnoteReference _ => .footnoteReference
  | .timestamp .. => .timestamp
  | .latexFragment _ => .latexFragment
  | .entity .. => .entity
  | .subscript => .subscript
  | .superscript => .superscript
  | .mathRun => .mathRun
  | .lineBreak => .lineBreak
  | .target _ => .target
  | .radioTarget _ => .radioTarget
  | .exportSnippet .. => .exportSnippet
  | .bareNode => .bareNode
  | .bareBlock => .bareBlock
  | .bareInline => .bareInline
  | .foreign value => .foreign value.typeName

end Element

end Typeset

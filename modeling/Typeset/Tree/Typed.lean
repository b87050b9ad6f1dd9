import Typeset.Tree.Node
import Typeset.Tree.Record

/-!
# Trees and records

`Node.toDatum` gives the record of a tree and `Node.ofDatum` reads a tree from a record. Values of
other types than their kind declares are kept as they are, beside the element that comes nearest.
-/

namespace Typeset

/-- A value of a record with the nodes it holds, if it is a sequence. -/
structure Reading where
  value : Datum
  nodes : Option (List Node)

/-- The values of a record by the names of their fields. -/
structure RecordView where
  kind : Kind
  entries : List (String × Reading)

namespace RecordView

/-- The value of a field. -/
def value (v : RecordView) (name : String) : Datum :=
  ((v.entries.lookup name).map Reading.value).getD .null

/-- A text, empty for any other value. -/
def text (v : RecordView) (name : String) : String :=
  match v.value name with
  | .str s => s
  | _ => ""

/-- A text that may be missing, empty for any other value. -/
def text? (v : RecordView) (name : String) : Option String :=
  match v.value name with
  | .null => none
  | .str s => some s
  | _ => some ""

/-- A truth value: whether any value counts as true. -/
def flag (v : RecordView) (name : String) : Bool := (v.value name).isTrue

/-- A whole number, zero for what counts as none. -/
def number (v : RecordView) (name : String) : Int := (v.value name).number?.getD 0

/-- A zone that may be missing. -/
def zone? (v : RecordView) (name : String) : Option Zone :=
  match v.value name with
  | .zone z => some z
  | _ => none

/-- A sequence of texts; what is no text is left out. -/
def texts (v : RecordView) (name : String) : List String :=
  match v.value name with
  | .seq items => items.filterMap fun
    | .str s => some s
    | _ => none
  | _ => []

/-- The values of a mapping. -/
def attributes (v : RecordView) (name : String) : Attributes :=
  match v.value name with
  | .mapping ms => ms
  | _ => []

/-- A sequence of nodes that may be missing. -/
def nodes? (v : RecordView) (name : String) : Option (List Node) :=
  (v.entries.lookup name).bind Reading.nodes

/-- A sequence of nodes, empty for any other value. -/
def nodes (v : RecordView) (name : String) : List Node := (v.nodes? name).getD []

/-- The values that are not of the type their field declares. -/
def loose (v : RecordView) : List (String × Datum) :=
  (v.kind.fields.filter fun f ↦ !f.type.fits (v.value f.name)).map fun f ↦
    (f.name, v.value f.name)

/-- What the node is. -/
def element (v : RecordView) : Element :=
  match v.kind with
  | .document => .document (v.attributes "properties")
  | .heading =>
    .heading {
      level := v.number "level"
      zone := v.zone? "zone"
      customId := v.text? "custom_id"
      identifier := v.text? "identifier"
      unnumbered := v.flag "unnumbered"
      tags := v.texts "tags" }
  | .paragraph => .paragraph
  | .plainList => .plainList (.ofName (v.text "kind"))
  | .item => .item ((v.text? "checkbox").map .ofName) (v.value "counter").number?
  | .table => .table
  | .tableRow => .tableRow (.ofName (v.text "kind"))
  | .tableCell => .tableCell (v.value "width").number?
  | .quoteBlock => .quoteBlock
  | .specialBlock => .specialBlock (v.text "block_type")
  | .codeBlock =>
    .codeBlock {
      value := v.text "value"
      language := v.text? "language"
      numbering := (v.text? "number_lines").map .ofName
      offset := v.number "number_offset"
      labelFormat := v.text "label_format"
      retainLabels := v.flag "retain_labels"
      references := v.texts "references" }
  | .exampleBlock => .exampleBlock (v.text "value")
  | .latexEnvironment => .latexEnvironment (v.text "value")
  | .rawBlock => .rawBlock (v.text "backend") (v.text "value")
  | .keyword => .keyword (v.text "key") (v.text "value")
  | .horizontalRule => .horizontalRule
  | .footnoteDefinition => .footnoteDefinition (v.text "label")
  | .text => .text (v.text "content")
  | .bold => .bold
  | .italic => .italic
  | .underline => .underline
  | .strikeThrough => .strikeThrough
  | .code => .code (v.text "value")
  | .verbatim => .verbatim (v.text "value")
  | .link => .link (v.value "kind").plain (v.text "path")
  | .image => .image (v.text "path") (v.attributes "attributes")
  | .footnoteReference => .footnoteReference (v.text? "label")
  | .timestamp => .timestamp (v.text "value") (v.text "kind")
  | .latexFragment => .latexFragment (v.text "value")
  | .entity => .entity (v.text "name") (v.text "latex") (v.flag "latex_math") (v.text "utf8")
  | .subscript => .subscript
  | .superscript => .superscript
  | .mathRun => .mathRun
  | .lineBreak => .lineBreak
  | .target => .target (v.text "value")
  | .radioTarget => .radioTarget (v.text "value")
  | .exportSnippet => .exportSnippet (v.text "backend") (v.text "value")
  | .bareNode => .bareNode
  | .bareBlock => .bareBlock
  | .bareInline => .bareInline
  | .foreign type => .foreign (.str type)

/-- What the node holds besides other nodes. -/
def info (v : RecordView) : NodeInfo where
  origin := .ofDatum (v.value "location")
  postBlank := v.number "post_blank"
  name := if v.kind.isBlock then v.text? "name" else none
  attributes := if v.kind.isBlock then v.attributes "attributes" else []
  element := v.element
  loose := v.loose

/-- The node. -/
def node (v : RecordView) : Node :=
  ⟨v.info, v.nodes "children", v.nodes "title", v.nodes? "tag", v.nodes? "caption"⟩

end RecordView

namespace Node

mutual

/-- The tree that a value describes; one that is no record is no node. -/
def ofDatum : Datum → Node
  | .node kind values => RecordView.node ⟨kind, kind.fieldNames.zip (readings values)⟩
  | d => .foreign d
termination_by structural d => d

/-- The trees that values describe. -/
def ofData : List Datum → List Node
  | [] => []
  | d :: ds => ofDatum d :: ofData ds
termination_by structural ds => ds

/-- The nodes that a value holds, if it is a sequence. -/
def nodesIn? : Datum → Option (List Node)
  | .seq items => some (ofData items)
  | _ => none
termination_by structural d => d

/-- Values with the nodes they hold. -/
def readings : List Datum → List Reading
  | [] => []
  | d :: ds => ⟨d, nodesIn? d⟩ :: readings ds
termination_by structural ds => ds

end

end Node

namespace Datum

/-- Values with the loose ones put in their places. -/
def restore (loose : List (String × Datum)) : List String → List Datum → List Datum
  | name :: names, d :: ds => (loose.lookup name).getD d :: restore loose names ds
  | _, _ => []

theorem restore_nil (names : List String) (ds : List Datum) (h : names.length = ds.length) :
    restore [] names ds = ds := by
  induction names generalizing ds with
  | nil => cases ds <;> simp_all [restore]
  | cons name names ih => cases ds <;> simp_all [restore]

end Datum

namespace Element

/-- The values of an element's own fields, given those of its children, title and tag. -/
def values (children title tag : Datum) : Element → List Datum
  | .document properties => [children, .mapping properties]
  | .heading h =>
    [.int h.level, title, children, (h.zone.map Datum.zone).getD .null, .ofText? h.customId,
      .ofText? h.identifier, .bool h.unnumbered, .ofTexts h.tags]
  | .paragraph | .table | .quoteBlock | .bold | .italic | .underline | .strikeThrough
  | .subscript | .superscript | .mathRun => [children]
  | .plainList kind => [children, .str kind.name]
  | .item checkbox counter =>
    [children, tag, .ofText? (checkbox.map Checkbox.name), .ofNumber? counter]
  | .tableRow kind => [children, .str kind.name]
  | .tableCell width => [children, .ofNumber? width]
  | .specialBlock type => [.str type, children]
  | .codeBlock b =>
    [.str b.value, .ofText? b.language, .ofText? (b.numbering.map Numbering.name), .int b.offset,
      .str b.labelFormat, .bool b.retainLabels, .ofTexts b.references]
  | .exampleBlock value | .latexEnvironment value | .code value | .verbatim value
  | .latexFragment value | .target value => [.str value]
  | .rawBlock backend value | .exportSnippet backend value => [.str backend, .str value]
  | .keyword key value => [.str key, .str value]
  | .footnoteDefinition label => [.str label, children]
  | .text content => [.str content]
  | .link kind path => [.str kind, .str path, children]
  | .image path attributes => [.str path, .mapping attributes]
  | .footnoteReference label => [.ofText? label, children]
  | .timestamp value kind => [.str value, .str kind]
  | .entity name latex needsMath utf8 => [.str name, .str latex, .bool needsMath, .str utf8]
  | .radioTarget value => [.str value, children]
  | .horizontalRule | .lineBreak | .bareNode | .bareBlock | .bareInline | .foreign _ => []

end Element

namespace Node

mutual

/-- The record of a tree. -/
def toDatum : Node → Datum
  | ⟨info, children, title, tag, caption⟩ =>
    let shared := [info.origin.toDatum, .int info.postBlank]
    let affiliated := [.ofText? info.name, toDatum? caption, .mapping info.attributes]
    let own := info.element.values (.seq (toData children)) (.seq (toData title)) (toDatum? tag)
    let kind := info.element.kind
    match info.element with
    | .foreign d => d
    | _ =>
      .node kind (Datum.restore info.loose kind.fieldNames
        ((if kind.isBlock then shared ++ affiliated else shared) ++ own))
termination_by structural n => n

/-- The records of trees. -/
def toData : List Node → List Datum
  | [] => []
  | n :: ns => n.toDatum :: toData ns
termination_by structural ns => ns

/-- The value of a branch that may be missing. -/
def toDatum? : Option (List Node) → Datum
  | none => .null
  | some ns => .seq (toData ns)
termination_by structural ns => ns

end

/-- The tree that a serialized one describes. -/
def ofJson (j : Json) : Except Failure Node := ofDatum <$> Record.ofJson j

/-- The serialized form of a tree. -/
def toJson (n : Node) : Json := n.toDatum.toJson

/-- The document that a serialized tree describes. -/
def documentOfJson (j : Json) : Except Failure Node := do
  let d ← Record.ofJson j
  match d with
  | .node .document _ => return ofDatum d
  | _ => throw (.notDocument (Record.kindName d))

end Node

end Typeset

import Typeset.Datum

/-!
# Fields: what kinds of nodes declare

A kind declares fields in order, each with a type and perhaps a default. Nothing makes a field hold
a value of its type: `FieldType.fits` tells whether it does. The names of the fields are also part
of how a node is shown in messages.
-/

namespace Typeset

/-- The type that a kind declares for a field. -/
inductive FieldType where
  /-- Where a node comes from, which any value can tell. -/
  | origin
  | text
  | optionalText
  | flag
  | number
  | optionalNumber
  /-- A zone, or null. -/
  | zone
  | texts
  /-- Values by name. -/
  | mapping
  | nodes
  | optionalNodes
deriving DecidableEq, Repr

namespace FieldType

/-- The value is a text. -/
def isText : Datum → Bool
  | .str _ => true
  | _ => false

/-- The value is of the type. -/
def fits : FieldType → Datum → Bool
  | .origin, _ => true
  | .text, .str _ => true
  | .optionalText, .str _ => true
  | .optionalText, .null => true
  | .flag, .bool _ => true
  | .number, .int _ => true
  | .optionalNumber, .int _ => true
  | .optionalNumber, .null => true
  | .zone, .zone _ => true
  | .zone, .null => true
  | .texts, .seq items => items.all isText
  | .mapping, .mapping _ => true
  | .nodes, .seq _ => true
  | .optionalNodes, .seq _ => true
  | .optionalNodes, .null => true
  | _, _ => false

end FieldType

/-- A field that a kind of node declares, with its default if it needs no value. -/
structure Field where
  name : String
  type : FieldType
  default? : Option Datum
deriving Repr

namespace Field

/-- A field that must have a value. -/
def required (name : String) (type : FieldType) : Field := ⟨name, type, none⟩

/-- A field with a default. -/
def optional (name : String) (type : FieldType) (default : Datum) : Field :=
  ⟨name, type, some default⟩

/-- A mapping, empty by default. -/
def mapping (name : String) : Field := .optional name .mapping (.mapping [])

end Field

namespace Kind

/-- The position of a node that no source text holds. -/
def noPosition : Datum := .position (.int 0) (.int 0) .null

/-- Where a node comes from. -/
def locationField : Field := .optional "location" .origin noPosition

/-- The blank space after a node. -/
def blankField : Field := .optional "post_blank" .number (.int 0)

/-- The fields that all kinds of blocks have, or all kinds of inline objects. -/
def sharedFields (k : Kind) : List Field :=
  if k.isBlock then
    [locationField, blankField, .optional "name" .optionalText .null,
      .optional "caption" .optionalNodes .null, .mapping "attributes"]
  else [locationField, blankField]

/-- The children of a kind that has to have some. -/
def children : Field := .required "children" .nodes

/-- The children of a kind that needs not have any. -/
def optionalChildren : Field := .optional "children" .nodes (.seq [])

/-- The fields of a kind besides the shared ones. -/
def ownFields : Kind → List Field
  | .document => [children, .mapping "properties"]
  | .heading =>
    [.required "level" .number, .required "title" .nodes, optionalChildren,
      .optional "zone" .zone .null, .optional "custom_id" .optionalText .null,
      .optional "identifier" .optionalText .null, .optional "unnumbered" .flag (.bool false),
      .optional "tags" .texts (.seq [])]
  | .paragraph | .table | .quoteBlock => [children]
  | .item =>
    [children, .optional "tag" .optionalNodes .null, .optional "checkbox" .optionalText .null,
      .optional "counter" .optionalNumber .null]
  | .plainList => [children, .optional "kind" .text (.str "unordered")]
  | .tableCell => [children, .optional "width" .optionalNumber .null]
  | .tableRow => [children, .optional "kind" .text (.str "standard")]
  | .specialBlock => [.required "block_type" .text, children]
  | .codeBlock =>
    [.required "value" .text, .optional "language" .optionalText .null,
      .optional "number_lines" .optionalText .null, .optional "number_offset" .number (.int 0),
      .optional "label_format" .text (.str "(ref:%s)"),
      .optional "retain_labels" .flag (.bool false), .optional "references" .texts (.seq [])]
  | .exampleBlock | .latexEnvironment | .latexFragment | .code | .verbatim | .target =>
    [.required "value" .text]
  | .rawBlock | .exportSnippet => [.required "backend" .text, .required "value" .text]
  | .keyword => [.required "key" .text, .required "value" .text]
  | .footnoteDefinition => [.required "label" .text, children]
  | .text => [.required "content" .text]
  | .bold | .italic | .underline | .strikeThrough | .subscript | .superscript | .mathRun =>
    [children]
  | .link => [.required "kind" .text, .required "path" .text, optionalChildren]
  | .image => [.required "path" .text, .mapping "attributes"]
  | .footnoteReference => [.required "label" .optionalText, optionalChildren]
  | .timestamp => [.required "value" .text, .optional "kind" .text (.str "active")]
  | .entity =>
    [.required "name" .text, .required "latex" .text, .optional "latex_math" .flag (.bool false),
      .optional "utf8" .text (.str "")]
  | .radioTarget => [.required "value" .text, optionalChildren]
  | .horizontalRule | .lineBreak | .bareNode | .bareBlock | .bareInline | .foreign _ => []

/-- The fields of a kind in the order of their declaration. -/
def fields (k : Kind) : List Field := k.sharedFields ++ k.ownFields

/-- The names of the fields of a kind. -/
def fieldNames (k : Kind) : List String := k.fields.map Field.name

end Kind

namespace Datum

/-- A value between parentheses after a name, its parts with their names. -/
def shownParts (name : String) (parts : List (String × String)) : String :=
  name ++ "(" ++ String.intercalate ", " (parts.map fun (part, t) ↦ part ++ "=" ++ t) ++ ")"

/-- Items between parentheses; a single one has a comma behind it. -/
def shownTuple : List String → String
  | [item] => "(" ++ item ++ ",)"
  | items => "(" ++ String.intercalate ", " items ++ ")"

mutual

/-- How a value is shown in messages. -/
def shown : Datum → String
  | .null => Json.null.shown
  | .bool b => (Json.bool b).shown
  | .int n => (Json.int n).shown
  | .str s => Text.quoted s
  | .seq items => shownTuple (shownItems items)
  | .mapping members => (Json.obj members).shown
  | .position line column file =>
    shownParts "SourceLocation"
      [("lineno", line.shown), ("col_offset", column.shown), ("source_file", file.shown)]
  | .zone z => "<Zone." ++ z.token ++ ": " ++ Text.quoted z.name ++ ">"
  | .node kind values => shownParts kind.name (kind.fieldNames.zip (shownItems values))
termination_by structural d => d

/-- How values are shown. -/
def shownItems : List Datum → List String
  | [] => []
  | item :: items => item.shown :: shownItems items
termination_by structural ds => ds

end

/-- A position as messages name it, with the file if there is one. -/
def place (line column file : Json) : String :=
  (if file.isTrue then file.plain ++ ":" else "") ++ line.plain ++ ":" ++ column.plain

/-- A value put into a text: a text as it is, a position by its parts, and anything else as
messages show it. -/
def plain : Datum → String
  | .str s => s
  | .position line column file => place line column file
  | d => d.shown

@[simp] theorem plain_str (s : String) : plain (.str s) = s := rfl

mutual

/-- A value as JSON. -/
def toJson : Datum → Json
  | .null => .null
  | .bool b => .bool b
  | .int n => .int n
  | .str s => .str s
  | .seq items => .arr (itemsToJson items)
  | .mapping ms => .obj ms
  | .position line column file =>
    .obj [("_type", .str "SourceLocation"), ("lineno", line), ("col_offset", column),
      ("source_file", file)]
  | .zone z => .str z.name
  | .node kind values =>
    .obj (("_type", .str kind.name) :: kind.fieldNames.zip (itemsToJson values))
termination_by structural d => d

/-- Values as JSON. -/
def itemsToJson : List Datum → List Json
  | [] => []
  | item :: items => item.toJson :: itemsToJson items
termination_by structural ds => ds

end

end Datum

end Typeset

import Typeset.Failure
import Typeset.Tree.MathRun
import Typeset.Tree.Node
import Typeset.Wrapper

/-!
# Preparing a document

Before a document is printed its math runs are wrapped and the annotations in its metadata removed.
-/

namespace Typeset.Metadata

/-- The properties whose values lose their annotations. -/
def annotated : List String := ["title", "subtitle", "author", "description", "keywords"]

/-- A property without annotations, if it may have had some. -/
def cleaned : String × Json → String × Json
  | (key, .str value) =>
    (key, .str (if annotated.contains key then Wrapper.strip value else value))
  | property => property

/-- The document without annotations in its metadata. -/
def clean (doc : Node) : Node :=
  match doc.element with
  | .document properties => doc.withElement (.document (properties.map cleaned))
  | _ => doc

/-- What is wrong with the value of an annotated property: it counts as true and is no text. -/
def fault? (properties : Attributes) (key : String) : Option Failure :=
  (properties.trueLoose? key).map fun value ↦ .mismatch (.notText value.typeName)

/-- The document without annotations, unless an annotated property is no text. -/
def clean? (doc : Node) : Except Failure Node :=
  match doc.element with
  | .document properties =>
    match annotated.findSome? (fault? properties) with
    | some e => .error e
    | none => .ok (clean doc)
  | _ => .ok doc

end Typeset.Metadata

namespace Typeset

/-- The document with math runs wrapped and its metadata cleaned. -/
def prepare (doc : Node) : Node := Metadata.clean (MathRun.mergeTree doc)

/-- The document prepared, unless one of the edits is stopped. -/
def prepare? (doc : Node) : Except Failure Node := do
  Metadata.clean? (← MathRun.mergeTree? doc)

end Typeset

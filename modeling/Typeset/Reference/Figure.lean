import Typeset.Latex.Math
import Typeset.Text.Path
import Typeset.Text.Trim
import Typeset.Tree.PlainText

/-!
# Figures and label prefixes

A paragraph that holds one image, and a caption or a name, is a figure. The kind of a node decides
the prefix of its label.
-/

namespace Typeset.Node

/-- The suffixes of image files. -/
def imageSuffixes : List String :=
  [".eps", ".jpeg", ".jpg", ".pdf", ".png", ".svg", ".tif", ".tiff"]

/-- A link to an image file without a description, which is shown in its place. -/
def isImageLink (n : Node) : Bool :=
  match n.element with
  | .link kind path =>
    kind == "file" && n.children.isEmpty && !n.isLooselyTrue "children" &&
      imageSuffixes.contains (Text.lower (Text.pathSuffix path))
  | _ => false

/-- A text of nothing but white space. -/
def isBlankText (n : Node) : Bool :=
  match n.element with
  | .text content => Text.isBlankText content
  | _ => false

/-- An image, or a link that is shown as one. -/
def isImage (n : Node) : Bool := n.kind == .image || n.isImageLink

/-- The place among the children of a paragraph of the one image it holds besides blank text. -/
def standaloneImage? (n : Node) : Option Nat :=
  match n.children.zipIdx.filter fun (child, _) ↦ !child.isBlankText with
  | [(child, i)] => if child.isImage then some i else none
  | _ => none

/-- The node has a caption that is not empty. -/
def hasCaption (n : Node) : Bool := n.caption.any (!·.isEmpty) || n.isLooselyTrue "caption"

/-- The node has a name that is not empty. -/
def hasName (n : Node) : Bool := n.info.name.any (!·.isEmpty) || n.isLooselyTrue "name"

/-- A paragraph with a caption or a name that holds one image. -/
def isFigure (n : Node) : Bool :=
  n.kind == .paragraph && (n.hasCaption || n.hasName) && n.standaloneImage?.isSome

/-- What labels of the node begin with. -/
def labelPrefix (n : Node) : String :=
  match n.element with
  | .heading _ => "sec:"
  | .table => "tab:"
  | .latexEnvironment value =>
    if Latex.isMathEnvironment (Latex.environmentName? value) then "eq:" else ""
  | .paragraph => if n.isFigure then "fig:" else ""
  | _ => ""

/-- What is wrong with the path of a link to a file when its suffix is asked for. -/
def imageLinkFault? (n : Node) : Option Failure :=
  match n.element, n.loose? "path" with
  | .link "file" _, some d =>
    if n.children.isEmpty && !n.isLooselyTrue "children" then
      some (.mismatch (.notPath d.typeName))
    else none
  | _, _ => none

/-- What is wrong when the one image of a paragraph is asked for. -/
def standaloneFault? (n : Node) : Option Failure :=
  ((n.loose? "children").bind Datum.iterateFault?).or
    (match n.children.filter fun child ↦ !child.isBlankText with
    | [child] => child.imageLinkFault?
    | _ => none)

/-- What is wrong when it is asked whether the node is a figure. -/
def figureFault? (n : Node) : Option Failure :=
  if n.kind == .paragraph && (n.hasCaption || n.hasName) then n.standaloneFault? else none

/-- What is wrong when the prefix of the node's label is asked for. -/
def prefixFault? (n : Node) : Option Failure :=
  match n.element with
  | .latexEnvironment _ => (n.loose? "value").map fun d ↦ .mismatch (.notText d.typeName)
  | .paragraph => n.figureFault?
  | _ => none

/-- What is wrong with the key of the node's label. -/
def keyFault? (n : Node) : Option Failure :=
  match n.element with
  | .heading h =>
    (n.textFieldFault? "custom_id").or
      (if h.customId.any (!·.isEmpty) then none else n.textFieldFault? "name")
  | _ => n.textFieldFault? "name"

/-- What is wrong when the label of the node is asked for. -/
def labelFault? (n : Node) : Option Failure := n.prefixFault?.or n.keyFault?

end Typeset.Node

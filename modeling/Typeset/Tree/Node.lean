import Typeset.Origin
import Typeset.Tree.Element

/-!
# Document trees

A node is an element with four sequences of nodes below it: its children, the title of a heading,
the tag of an item and the caption of a block. A tag or a caption may be missing, which is not the
same as an empty one.

Fields may hold values of other types than their kind declares. Such loose values stand beside the
element, which then holds what comes nearest: a number for a truth value, an empty text for what is
no text, no nodes for what is no sequence.
-/

namespace Typeset

/-- All that a node holds besides other nodes. -/
structure NodeInfo where
  origin : Origin
  /-- Blank lines after a block, spaces after an inline object. -/
  postBlank : Int
  /-- The explicit name of a block. -/
  name : Option String
  /-- The attributes of a block. -/
  attributes : Attributes
  element : Element
  /-- The values of fields that are not of the type their kind declares. -/
  loose : List (String × Datum)
deriving DecidableEq, Repr

/-- A document tree. -/
structure Node where
  info : NodeInfo
  children : List Node
  title : List Node
  tag : Option (List Node)
  caption : Option (List Node)
deriving Repr

/-- The sequences of nodes below a node. -/
inductive Branch where
  | children
  | title
  | tag
  | caption
deriving DecidableEq, Repr

namespace Branch

/-- The name of the field that holds a branch. -/
def name : Branch → String
  | .children => "children"
  | .title => "title"
  | .tag => "tag"
  | .caption => "caption"

/-- All branches in the order of a visit. -/
def all : List Branch := [.children, .title, .tag, .caption]

end Branch

namespace NodeInfo

/-- The value of a field that is not of the type its kind declares. -/
def loose? (i : NodeInfo) (field : String) : Option Datum := i.loose.lookup field

end NodeInfo

namespace Node

mutual

/-- Two trees are equal. -/
def same : Node → Node → Bool
  | ⟨info, children, title, tag, caption⟩, n =>
    info == n.info && sameAll children n.children && sameAll title n.title &&
      sameAll? tag n.tag && sameAll? caption n.caption
termination_by structural n => n

/-- The trees of two branches are equal. -/
def sameAll : List Node → List Node → Bool
  | [], [] => true
  | m :: ms, n :: ns => m.same n && sameAll ms ns
  | _, _ => false
termination_by structural ns => ns

/-- Two branches are both missing or equal. -/
def sameAll? : Option (List Node) → Option (List Node) → Bool
  | none, none => true
  | some ms, some ns => sameAll ms ns
  | _, _ => false
termination_by structural ns => ns

end

mutual

theorem same_iff : ∀ m n : Node, m.same n = true ↔ m = n
  | ⟨info, children, title, tag, caption⟩, ⟨info', children', title', tag', caption'⟩ => by
    simp [same, sameAll_iff children, sameAll_iff title, sameAll?_iff tag, sameAll?_iff caption,
      and_assoc]

theorem sameAll_iff : ∀ ms ns : List Node, sameAll ms ns = true ↔ ms = ns
  | [], ns => by cases ns <;> simp [sameAll]
  | m :: ms, ns => by cases ns <;> simp [sameAll, same_iff m, sameAll_iff ms]

theorem sameAll?_iff : ∀ ms ns : Option (List Node), sameAll? ms ns = true ↔ ms = ns
  | none, ns => by cases ns <;> simp [sameAll?]
  | some ms, ns => by cases ns <;> simp [sameAll?, sameAll_iff ms]

end

instance : DecidableEq Node := fun m n ↦ decidable_of_iff _ (same_iff m n)

/-- What the node is. -/
abbrev element (n : Node) : Element := n.info.element

/-- The kind of the node. -/
abbrev kind (n : Node) : Kind := n.element.kind

/-- Blank lines after a block, spaces after an inline object. -/
abbrev postBlank (n : Node) : Int := n.info.postBlank

/-- Where the node comes from. -/
abbrev origin (n : Node) : Origin := n.info.origin

/-- The attributes of a block. -/
abbrev attributes (n : Node) : Attributes := n.info.attributes

/-- The value of a field that is not of the type its kind declares. -/
abbrev loose? (n : Node) (field : String) : Option Datum := n.info.loose? field

/-- The field holds a value of another type than declared, and one that counts as true. -/
def isLooselyTrue (n : Node) (field : String) : Bool := (n.loose? field).any Datum.isTrue

/-- The node is a block. -/
def isBlock (n : Node) : Bool := n.kind.isBlock

/-- The node is an ordered list. -/
def isOrderedList (n : Node) : Bool := n.element == .plainList .ordered

/-- The nodes of a branch, none if it is missing. -/
def branch (n : Node) : Branch → List Node
  | .children => n.children
  | .title => n.title
  | .tag => n.tag.getD []
  | .caption => n.caption.getD []

/-- The node with another element. -/
def withElement (n : Node) (e : Element) : Node :=
  ⟨⟨n.info.origin, n.info.postBlank, n.info.name, n.info.attributes, e, n.info.loose⟩,
    n.children, n.title, n.tag, n.caption⟩

/-- The node with the nearest value of a field in the place of a loose one. -/
def withoutLoose (n : Node) (field : String) : Node :=
  ⟨⟨n.info.origin, n.info.postBlank, n.info.name, n.info.attributes, n.info.element,
      n.info.loose.filter fun (name, _) ↦ name != field⟩,
    n.children, n.title, n.tag, n.caption⟩

/-- The node with no blank space after it. -/
def withoutBlank (n : Node) : Node :=
  ⟨⟨n.info.origin, 0, n.info.name, n.info.attributes, n.info.element,
      n.info.loose.filter fun (field, _) ↦ field != "post_blank"⟩,
    n.children, n.title, n.tag, n.caption⟩

/-- An inline object with nothing but children below it. -/
def inline (origin : Origin) (postBlank : Int) (e : Element) (children : List Node) : Node :=
  ⟨⟨origin, postBlank, none, [], e, []⟩, children, [], none, none⟩

/-- A value that is no node. -/
def foreign (d : Datum) : Node := .inline (.other .null) 0 (.foreign d) []

/-- The node is a null among nodes. -/
def isNull (n : Node) : Bool := n.element == .foreign .null

/-- The name a node is referred to by: the custom id of a heading or else the explicit name, where
an empty custom id counts as none. An entity is referred to by the name that every entity has,
unless that is null. -/
def explicitKey (n : Node) : Option String :=
  match n.element with
  | .heading h =>
    match h.customId with
    | none | some "" => n.info.name
    | some id => some id
  | .entity name .. => if n.loose? "name" = some .null then none else some name
  | _ => n.info.name

/-- The effective zone of a heading; any other node stands in the body. -/
def zone (n : Node) : Zone :=
  match n.element with
  | .heading h => h.zone.getD .body
  | _ => .body

end Node

end Typeset

import Typeset.Assoc
import Typeset.Config.Basic
import Typeset.Reference.Label

/-!
# The context of a document being printed

Everything that later parts of a document depend on: references, the buffers of the zones, the
numbers of footnotes, the nodes around the current one, and the warnings so far.
-/

namespace Typeset

/-- The chunks collected for the zones other than the body. -/
structure Buffers where
  frontmatter : List String
  backmatter : List String
  appendix : List String
  copying : List String
  index : List String
deriving DecidableEq, Repr

namespace Buffers

/-- Buffers without chunks. -/
def empty : Buffers := ⟨[], [], [], [], []⟩

/-- The chunks of a zone; the body has no buffer. -/
def get? (b : Buffers) : Zone → Option (List String)
  | .body => none
  | .frontmatter => some b.frontmatter
  | .backmatter => some b.backmatter
  | .appendix => some b.appendix
  | .copying => some b.copying
  | .index => some b.index

/-- The buffers with other chunks for a zone. -/
def set (b : Buffers) (chunks : List String) : Zone → Buffers
  | .body => b
  | .frontmatter => { b with frontmatter := chunks }
  | .backmatter => { b with backmatter := chunks }
  | .appendix => { b with appendix := chunks }
  | .copying => { b with copying := chunks }
  | .index => { b with index := chunks }

/-- The chunks of a zone, none for the body. -/
def chunks (b : Buffers) (z : Zone) : List String := (b.get? z).getD []

@[simp] theorem get?_empty {z : Zone} (h : z ≠ .body) : empty.get? z = some [] := by
  cases z <;> simp_all [empty, get?]

@[simp] theorem get?_set_self (b : Buffers) (chunks : List String) {z : Zone} (h : z ≠ .body) :
    (b.set chunks z).get? z = some chunks := by
  cases z <;> simp_all [set, get?]

theorem get?_set_of_ne (b : Buffers) (chunks : List String) {z z' : Zone} (h : z' ≠ z) :
    (b.set chunks z).get? z' = b.get? z' := by
  cases z <;> cases z' <;> simp_all [set, get?]

end Buffers

/-- The context of a document being printed. -/
structure Context where
  references : References
  buffers : Buffers
  /-- The slots reserved in buffers by the places they are reserved for. -/
  reservations : List (Place × Nat)
  /-- Names of languages that have been looked up. -/
  languages : Entries
  /-- The numbers of footnotes by their labels. -/
  footnotes : List (Datum × Nat)
  footnoteCount : Nat
  /-- The nodes whose children are being printed, the innermost first. -/
  ancestors : List Occurrence
  /-- Rows held back for the foot of long tables, by the places of the tables. -/
  heldRows : List (Place × List String)
  /-- Problems that did not stop the printing, in the order they came up. -/
  warnings : List String

namespace Context

/-- The context at the beginning of a document. -/
def empty : Context := ⟨.empty, .empty, [], [], [], 0, [], [], []⟩

/-- A formula is being printed. -/
def inMath (c : Context) : Bool := c.ancestors.any fun o ↦ o.node.kind == .mathRun

/-- The node whose children are being printed. -/
def parent? (c : Context) : Option Occurrence := c.ancestors.head?

/-- The innermost table around the current node. -/
def table? (c : Context) : Option Occurrence :=
  c.ancestors.find? fun o ↦ o.node.kind == .table

/-- The number of ordered lists around the current node. -/
def orderedDepth (c : Context) : Nat :=
  c.ancestors.countP fun o ↦ o.node.isOrderedList

end Context

end Typeset

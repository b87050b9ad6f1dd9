import Typeset.Document
import Typeset.Proofs.Render.Runs
import Typeset.Proofs.Resolution

/-!
# Where labels come out

What a node prints gets into the document if each node around it passes it on, or if a heading of a
zone takes it out of its place before one of them drops it. Rules among the rows of a table, formats
without a place for a text, definitions of footnotes where they stand and all uses of a footnote but
its first one drop what is below them.
-/

namespace Typeset

open Context Latex Render Text

namespace Node

/-- The node is of a kind that prints the labels of its nodes. -/
def printsLabel (n : Node) : Bool :=
  match n.element with
  | .heading _ | .table | .specialBlock _ | .codeBlock _ | .latexEnvironment _ | .target _
  | .radioTarget _ => true
  | .paragraph => n.isFigure
  | _ => false

/-- The node has a label even if it has no key. -/
def forcesLabel (n : Node) : Bool :=
  match n.element with
  | .heading _ | .target _ | .radioTarget _ => true
  | _ => false

/-- The place is that of a footnote's definition or stands below one. -/
def isInNote (doc : Node) (p : Place) : Bool :=
  (doc.occurrences (.ofRoot 0)).any fun d ↦
    d.node.kind == .footnoteDefinition && d.place.steps.isSuffixOf p.steps

/-- The index of a document. -/
abbrev index (doc : Node) : LinkIndex := LinkIndex.empty.add (.ofRoot 0) doc

/-- The context in which the printing of a document begins. -/
abbrev start (doc : Node) : Context := .ofReferences (References.empty.add (.ofRoot 0) doc)

/-- The index of a document finds the first occurrence that passes a test. -/
theorem find?_index {doc : Node} (hdoc : doc.isProper = true) {test : Node → Bool}
    {find? : LinkIndex → Option Occurrence} (h : LinkIndex.Finds test find?) :
    find? doc.index = (doc.occurrences (.ofRoot 0)).find? fun o ↦ test o.node := by
  rw [h.add .empty hdoc (.ofRoot 0), h.empty]
  rfl

theorem target?_index {doc : Node} (hdoc : doc.isProper = true) (kind path : String) :
    doc.index.target? kind path =
      firstMatch? (linkTests kind path) (doc.occurrences (.ofRoot 0)) :=
  LinkIndex.target?_eq_firstMatch? (fun _ _ hfinds ↦ find?_index hdoc hfinds) kind path

end Node

namespace Occurrence

/-- The text that defines the label of an occurrence: a command, or an option of a listing. -/
def definition (config : Config) (r : References) (o : Occurrence) : String :=
  match o.node.element with
  | .codeBlock _ => Listing.definition config (r.labelText o)
  | _ => labelCommand (r.labelText o)

theorem isWhole_definition (config : Config) (r : References) (o : Occurrence) :
    IsWhole (o.definition config r) := by
  have hlabel := References.notMem_labelText r o
  unfold definition
  split
  · unfold Listing.definition
    split
    · exact isWhole_labelOption hlabel
    · exact isWhole_labelCommand hlabel
  · exact isWhole_labelCommand hlabel

/-- The number of a row in the layout of its table, unless it is a rule. -/
def rowIn? (config : Config) (table row : Occurrence) : Option Nat :=
  (row.place.childIndex? table.place).bind (Table.geometry config table.node).indexOf?

/-- The row passes its cells on, to the table or to the rows that are held back for it. -/
def passesCells (config : Config) (above : List Occurrence) (o : Occurrence) : Bool :=
  match above with
  | table :: _ => table.node.kind == .table && (rowIn? config table o).isSome
  | [] => false

/-- The cell passes its contents on. -/
def passesContents (config : Config) (above : List Occurrence) (o : Occurrence) : Bool :=
  match above with
  | row :: table :: _ =>
    row.node.kind == .tableRow && table.node.kind == .table &&
      (rowIn? config table row).any fun index ↦ (o.place.childIndex? row.place).any fun column ↦
        holds (Table.cellStyle config (Table.geometry config table.node) (footerStyle table.node)
          index column).plain "%s"
  | _ => false

/-- The occurrence passes on what is printed on one of its branches, given the context in which it
is printed itself: what stands around it, and the footnotes that have been used. -/
def passes (config : Config) (c : Context) (o : Occurrence) : Branch → Bool
  | .title =>
    match o.node.element with
    | .heading h => printsTitle config h
    | _ => false
  | .tag => o.node.kind == .item
  | .caption => printsCaption o.node
  | .children =>
    match o.node.element with
    | .document _ | .heading _ | .paragraph | .plainList _ | .item .. | .table | .quoteBlock
    | .specialBlock _ | .link .. | .subscript | .superscript | .mathRun | .radioTarget _
    | .footnoteReference none => true
    | .tableRow _ => o.passesCells config c.ancestors
    | .tableCell _ => o.passesContents config c.ancestors
    | .bold => (config.textMarkup.lookup "bold").any (holds · "%s")
    | .italic => (config.textMarkup.lookup "italic").any (holds · "%s")
    | .underline => (config.textMarkup.lookup "underline").any (holds · "%s")
    | .strikeThrough => (config.textMarkup.lookup "strike-through").any (holds · "%s")
    | .footnoteReference (some label) => (c.footnotes.lookup (.str label)).isNone
    | _ => false

/-- A long table keeps the rows that are held back when one of its rows has been printed until it is
printed itself. Outside of footnotes it does; but one in a footnote could be printed in between. -/
def keepsRows (config : Config) (doc : Node) (o : Occurrence) (c d : Context) : Bool :=
  !isLong config o.node || !doc.isInNote o.place ||
    (c.rowsOf o.place).all fun row ↦ (d.rowsOf o.place).contains row

/-- What the target prints comes out of an occurrence that is printed from a context on: of its
output, or, where it was routed on the way, of the buffer of a zone. As many footnotes as the number
says can follow inside each other. -/
inductive IsShown (config : Config) (doc : Node) (target : Occurrence) :
    Nat → Occurrence → Context → Bool → Prop
  | self {depth : Nat} {c : Context} :
    IsShown config doc target depth target c (target.node.zone != .body)
  | child {depth : Nat} {o : Occurrence} {c : Context} {b : Branch} {i : Nat} {m : Node}
      {routed : Bool} :
    (o.node.branch b)[i]? = some m → (b = .caption → printsCaption o.node = true) →
      IsShown config doc target depth ⟨o.place.down b i, m⟩
          (arrival config (definitionText config depth) o b i c) routed →
        routed || (o.passes config (departure config (definitionText config depth) o c) b &&
            o.keepsRows config doc
              (Render.node config (definitionText config depth) (o.place.down b i) m
                (arrival config (definitionText config depth) o b i c)).2
              (departure config (definitionText config depth) o c)) →
          IsShown config doc target depth o c (routed || o.node.zone != .body)
  | note {depth number : Nat} {o definition : Occurrence} {c e : Context} {label : String} {i : Nat}
      {m : Node} {routed : Bool} :
    o.node.element = .footnoteReference (some label) → o.node.children = [] →
      nextFootnote (.str label) (departure config (definitionText config (depth + 1)) o c) =
          (.ok (number, true), e) →
        doc.index.footnote (.str label) (some o.node.origin) = .ok definition →
          definition.node.children[i]? = some m →
            IsShown config doc target depth ⟨definition.place.down .children i, m⟩
                (arrivalInNote config (definitionText config depth) definition i e) routed →
              IsShown config doc target (depth + 1) o c routed

end Occurrence

/-- What the target prints gets into the document. -/
def Node.shows (config : Config) (doc : Node) (target : Occurrence) : Prop :=
  ∃ routed,
    target.IsShown config doc doc.index.footnotes.length ⟨.ofRoot 0, doc⟩ doc.start routed

end Typeset

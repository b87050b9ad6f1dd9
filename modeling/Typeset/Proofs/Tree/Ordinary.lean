import Typeset.Proofs.Tree.Settled
import Typeset.Proofs.Tree.Merged
import Typeset.Render.Walk

/-!
# Ordinary documents

The nodes of an ordinary document are text and its markup, headings, lists, tables, footnotes and
references within the document. Nothing in it is LaTeX already, and nothing tells by attributes how
to print it, so all that is printed is up to the printer. Preparing such a document changes nothing
but its metadata.
-/

namespace Typeset

open MathRun

/-- What the node holds is no LaTeX: text and its markup, what puts text in order, and what refers
to places in the document. -/
def Element.isOrdinary : Element → Bool
  | .heading h => 1 ≤ h.level
  | .link kind _ => Render.internalKinds.contains kind
  | .document _ | .paragraph | .plainList _ | .item .. | .table | .tableRow _ | .tableCell _
  | .quoteBlock | .horizontalRule | .footnoteDefinition _ | .text _ | .bold | .italic | .underline
  | .strikeThrough | .code _ | .verbatim _ | .footnoteReference _ | .timestamp .. | .subscript
  | .superscript | .lineBreak | .target _ | .radioTarget _ => true
  | _ => false

namespace Node

/-- The node is of such a kind and has no attributes. -/
def isOrdinary (n : Node) : Bool := n.element.isOrdinary && n.attributes.isEmpty

/-- All nodes of the tree are ordinary. -/
def IsOrdinaryTree (n : Node) : Prop := ∀ m ∈ n.visit, m.isOrdinary = true

instance (n : Node) : Decidable n.IsOrdinaryTree := List.decidableBAll ..

variable {n : Node}

theorem IsOrdinaryTree.self (h : n.IsOrdinaryTree) : n.isOrdinary = true := h n (mem_visit_self n)

theorem IsOrdinaryTree.branch (h : n.IsOrdinaryTree) {b : Branch} {m : Node} (hm : m ∈ n.branch b) :
    m.IsOrdinaryTree := fun _ hk ↦ h _ (mem_visit_of_mem_branch hm hk)

section

variable (h : n.isOrdinary = true)

include h

theorem attributes_eq_nil : n.attributes = [] :=
  List.isEmpty_iff.mp (Bool.and_eq_true_iff.mp h).2

theorem isOrdinary_element : n.element.isOrdinary = true := (Bool.and_eq_true_iff.mp h).1

theorem kind_ne {k : Kind} (hk : k ∈ [.mathRun, .codeBlock, .latexEnvironment]) : n.kind ≠ k := by
  have he := isOrdinary_element h
  rintro rfl
  cases hn : n.element <;> simp [hn, kind, Element.kind, Element.isOrdinary] at he hk

theorem opens_eq_false : opens n = false := by
  have he := isOrdinary_element h
  unfold opens
  split
  · next hn => simp [hn, Element.isOrdinary] at he
  · next hn => simp [hn, Element.isOrdinary] at he
  · rfl

theorem isImage_eq_false : n.isImage = false := by
  have he := isOrdinary_element h
  cases hn : n.element with
  | link kind path =>
    have hfile : kind ≠ "file" := by
      rintro rfl
      simp [hn, Element.isOrdinary, Render.internalKinds] at he
    have hno : (kind == "file") = false := beq_eq_false_iff_ne.mpr hfile
    simp [isImage, isImageLink, Node.kind, hn, Element.kind, hno]
  | image => simp [hn, Element.isOrdinary] at he
  | _ => simp [isImage, isImageLink, kind, hn, Element.kind]

end

theorem IsOrdinaryTree.isFigure_eq_false (h : n.IsOrdinaryTree) : n.isFigure = false := by
  have hsole : (sole? n.children).any isImage = false := by
    unfold sole?
    split
    · next m hm =>
      have hmem : m ∈ n.children := (List.mem_filter.mp (hm ▸ List.mem_singleton.mpr rfl)).1
      exact isImage_eq_false (h.branch (b := .children) hmem).self
    · rfl
  rw [isFigure, isSome_standaloneImage?, hsole, Bool.and_false]

/-- Tables alone print captions. -/
theorem IsOrdinaryTree.printsCaption_eq (h : n.IsOrdinaryTree) :
    Render.printsCaption n = (n.kind == .table) := by
  have hcode : (n.kind == .codeBlock) = false :=
    beq_eq_false_iff_ne.mpr (kind_ne h.self (by decide))
  rw [Render.printsCaption, h.isFigure_eq_false, hcode, Bool.false_or, Bool.or_false]

/-! ## Preparation -/

theorem IsOrdinaryTree.isSettled (h : n.IsOrdinaryTree) (hproper : n.isProper = true) :
    IsSettled n := by
  induction n using Node.induction with
  | step n ih =>
    have hbelow := ((isProper_iff n).mp hproper).2
    refine .node (fun b ↦ ?_) (fun b m hm ↦ ⟨opens_eq_false (h.branch hm).self, ?_⟩)
      fun b m hm ↦ ih b m hm (h.branch hm) (hbelow b m hm)
    · simp [editFault?, textFault?_eq_none hproper, hproper]
    · exact beq_eq_false_iff_ne.mpr (element_ne_foreign (hbelow b m hm) .null)

end Node

/-- A tree with other metadata at most. -/
inductive Node.Redated (n : Node) : Node → Prop
  | same : Redated n n
  | document {properties : Attributes} (properties' : Attributes) :
    n.element = .document properties → Redated n (n.withElement (.document properties'))

open Node

/-- Preparing an ordinary document changes at most its metadata. -/
theorem redated_of_prepare? {doc tree : Node} (hproper : doc.isProper = true)
    (hdoc : doc.IsOrdinaryTree) (h : prepare? doc = .ok tree) : doc.Redated tree := by
  have hclean : Metadata.clean? doc = .ok tree := by
    rw [prepare?, mergeTree?_of_isSettled (hdoc.isSettled hproper)] at h
    exact h
  by_cases hproperties : ∃ properties, doc.element = .document properties
  · obtain ⟨properties, he⟩ := hproperties
    rw [Metadata.clean?_eq he] at hclean
    split at hclean
    · cases hclean
    · obtain rfl := Except.ok.inj hclean
      exact .document _ he
  · have hother := Metadata.clean?_eq_ok fun properties he ↦ hproperties ⟨properties, he⟩
    obtain rfl := Except.ok.inj (hother.symm.trans hclean)
    exact .same

namespace Node.Redated

variable {n n' : Node}

theorem branch (h : n.Redated n') (b : Branch) : n'.branch b = n.branch b := by
  cases h with
  | same => rfl
  | document => cases b <;> rfl

/-- All nodes below the root are the same. -/
theorem mem_visit (h : n.Redated n') {m : Node} (hm : m ∈ n'.visit) : m = n' ∨ m ∈ n.visit := by
  cases h with
  | same => exact .inr hm
  | document properties' _ =>
    obtain ⟨o, ho, rfl⟩ := List.mem_map.mp hm
    rcases mem_occurrences_iff.mp ho with rfl | ⟨b, i, m, hi, ho⟩
    · exact .inl rfl
    · have hbranch : (n.withElement (.document properties')).branch b = n.branch b := by
        cases b <;> rfl
      rw [hbranch] at hi
      exact .inr (List.mem_map_of_mem (mem_occurrences_iff.mpr (.inr ⟨b, i, m, hi, ho⟩)))

theorem isOrdinaryTree (h : n.Redated n') (hn : n.IsOrdinaryTree) : n'.IsOrdinaryTree := by
  intro m hm
  rcases h.mem_visit hm with rfl | hm
  · cases h with
    | same => exact hn.self
    | document => exact Bool.and_eq_true_iff.mpr ⟨rfl, (Bool.and_eq_true_iff.mp hn.self).2⟩
  · exact hn m hm

end Node.Redated

end Typeset

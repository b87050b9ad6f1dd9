import Typeset.Proofs.Notes.Walk
import Typeset.Proofs.Render.Delivery

/-!
# Documents that keep their notes and the order of them

Numbers are given in the order in which a tree is printed. The text of a document has the same order
unless a reference to a footnote stands in something that is put elsewhere: in a heading of a zone,
before a caption that stands below, in the foot of a long table, or in the text of another
reference, which begins before it.

Where a node does not pass on a reference to a footnote, the note is lost. Which nodes pass on what
can be read off the document: it depends on what stands around them there, and where a footnote's
definition is printed at a reference, what stands around the reference makes no difference.
-/

namespace Typeset

open Context Latex Render

/-! ## What is put elsewhere -/

namespace Node

/-- There is a reference to a footnote in the tree. -/
def cites (n : Node) : Bool := n.visit.any fun m ↦ m.kind == .footnoteReference

/-- There is a reference to a footnote in what is printed on a branch of the node. -/
def citesOn (n : Node) (b : Branch) : Bool :=
  (b != .caption || printsCaption n) && (n.branch b).any cites

/-- The rows of the foot of a table. -/
def footRows (config : Config) (table : Node) : List Node :=
  let g := Table.geometry config table
  (table.children.zipIdx.filter fun (_, i) ↦
    (g.indexOf? i).any fun index ↦ g.part index == .foot).map (·.1)

theorem cites_iff {n : Node} : n.cites = true ↔ ∃ m ∈ n.visit, m.kind = .footnoteReference := by
  simp [cites]

theorem cites_of_mem_branch {n m : Node} {b : Branch} (hm : m ∈ n.branch b)
    (h : m.cites = true) : n.cites = true := by
  obtain ⟨k, hk, hkind⟩ := cites_iff.mp h
  exact cites_iff.mpr ⟨k, mem_visit_of_mem_branch hm hk, hkind⟩

theorem cites_of_citesOn {n : Node} {b : Branch} (h : n.citesOn b = true) : n.cites = true := by
  obtain ⟨m, hm, hcites⟩ := List.any_eq_true.mp (Bool.and_eq_true_iff.mp h).2
  exact cites_of_mem_branch hm hcites

theorem cites_of_kind {n : Node} (h : n.kind = .footnoteReference) : n.cites = true :=
  cites_iff.mpr ⟨n, mem_visit_self n, h⟩

theorem mem_footRows {config : Config} {table row : Node} {i index : Nat}
    (hrow : table.children[i]? = some row)
    (hindex : (Table.geometry config table).indexOf? i = some index)
    (hfoot : ((Table.geometry config table).part index == .foot) = true) :
    row ∈ table.footRows config := by
  refine List.mem_map.mpr ⟨(row, i), List.mem_filter.mpr ⟨?_, ?_⟩, rfl⟩
  · exact List.mk_mem_zipIdx_iff_getElem?.mpr hrow
  · simp only [hindex]
    exact hfoot

theorem isSome_footer_of_mem_footRows {config : Config} {table row : Node}
    (h : row ∈ table.footRows config) : (Table.geometry config table).footer.isSome = true := by
  obtain ⟨⟨row', i⟩, hrow, -⟩ := List.mem_map.mp h
  obtain ⟨index, -, hfoot⟩ := (Option.any_eq_true _ _).mp (List.mem_filter.mp hrow).2
  by_contra hnone
  rw [Option.not_isSome_iff_eq_none] at hnone
  simp only [Geometry.part, Geometry.within, hnone, Option.any_none] at hfoot
  split at hfoot <;> cases hfoot

end Node

namespace Occurrence

/-- The occurrence leaves references to footnotes where they stand: it is no heading of a zone and no
long table with a foot that has one. -/
def keepsPlace (config : Config) (o : Occurrence) : Bool :=
  (o.node.zone == .body || !o.node.cites) &&
    (!(o.node.kind == .table && isLong config o.node) ||
      (o.node.footRows config).all fun row ↦ !row.cites)

/-- The occurrence puts no reference to a footnote before another one that is printed before it. -/
def keepsOrder (config : Config) (o : Occurrence) : Bool :=
  o.keepsPlace config &&
    (o.captionsAbove config || !(o.node.citesOn .caption && o.node.citesOn .children)) &&
    (o.node.kind != .footnoteReference || !o.node.citesOn .children)

end Occurrence

namespace Node

/-- All occurrences of the document leave references to footnotes where they stand. -/
def keepsPlace (config : Config) (doc : Node) : Bool :=
  (doc.occurrences (.ofRoot 0)).all (Occurrence.keepsPlace config)

/-- All occurrences of the document keep the order of references to footnotes. -/
def keepsOrder (config : Config) (doc : Node) : Bool :=
  (doc.occurrences (.ofRoot 0)).all (Occurrence.keepsOrder config)

variable {config : Config} {doc : Node} {o : Occurrence}

section

variable (h : doc.keepsPlace config = true) (ho : o ∈ doc.occurrences (.ofRoot 0))

include h ho

theorem cites_of_zone (hzone : o.node.zone ≠ .body) : o.node.cites = false := by
  have hself := (Bool.and_eq_true_iff.mp (List.all_eq_true.mp h o ho)).1
  simpa [hzone] using hself

theorem cites_of_mem_footRows (hkind : o.node.kind = .table) (hlong : isLong config o.node = true)
    {row : Node} (hrow : row ∈ o.node.footRows config) : row.cites = false := by
  have hself := (Bool.and_eq_true_iff.mp (List.all_eq_true.mp h o ho)).2
  simp only [hkind, hlong, Bool.or_eq_true] at hself
  simpa using List.all_eq_true.mp (hself.resolve_left (by simp)) row hrow

end

section

variable (h : doc.keepsOrder config = true)

include h

theorem keepsPlace_of_keepsOrder : doc.keepsPlace config = true := by
  refine List.all_eq_true.mpr fun o ho ↦ ?_
  exact (Bool.and_eq_true_iff.mp (Bool.and_eq_true_iff.mp (List.all_eq_true.mp h o ho)).1).1

variable (ho : o ∈ doc.occurrences (.ofRoot 0))

include ho

theorem citesOn_of_captionsBelow (hbelow : o.captionsAbove config = false) :
    o.node.citesOn .caption = false ∨ o.node.citesOn .children = false := by
  have hself := List.all_eq_true.mp h o ho
  simp only [Occurrence.keepsOrder, Bool.and_eq_true, Bool.or_eq_true] at hself
  simpa [hbelow] using hself.1.2

theorem citesOn_of_reference (hkind : o.node.kind = .footnoteReference) :
    o.node.citesOn .children = false := by
  have hself := List.all_eq_true.mp h o ho
  simp only [Occurrence.keepsOrder, Bool.and_eq_true, Bool.or_eq_true] at hself
  simpa [hkind] using hself.2

end

end Node

/-! ## What stands around a place -/

namespace Node

/-- What stands around a place in a document, from the inside: the nodes that have the place among
their children or below them. -/
def aroundSteps (doc : Node) (root : Nat) : List Step → List Occurrence
  | [] => []
  | s :: above =>
    if s.branch = .children then
      ((doc.at? above).map (Occurrence.mk ⟨root, above⟩)).toList ++ doc.aroundSteps root above
    else doc.aroundSteps root above

@[inherit_doc aroundSteps]
def around (doc : Node) (p : Place) : List Occurrence := doc.aroundSteps p.root p.steps

theorem around_down {doc : Node} {o : Occurrence} (ho : o ∈ doc.occurrences (.ofRoot 0))
    (b : Branch) (i : Nat) :
    doc.around (o.place.down b i) =
      if b = .children then o :: doc.around o.place else doc.around o.place := by
  have hself : doc.at? o.place.steps = some o.node := at?_of_mem_occurrences rfl ho
  rw [around, Place.down, aroundSteps, hself]
  rfl

end Node

/-- What can stand around a place when it is printed, given what stands around it in the document:
the same, but around a footnote's definition anything. -/
inductive Surrounds : List Occurrence → List Occurrence → Prop
  | root : Surrounds [] []
  | note {definition : Occurrence} {around : List Occurrence} (above : List Occurrence) :
    definition.node.kind = .footnoteDefinition → Surrounds (definition :: around) above
  | within {around above : List Occurrence} (o : Occurrence) :
    Surrounds around above → Surrounds (o :: around) (o :: above)

namespace Surrounds

variable {config : Config} {around above : List Occurrence} {o : Occurrence}

theorem passesCells (h : Surrounds around above) (hpass : o.passesCells config around = true) :
    o.passesCells config above = true := by
  cases h with
  | root => exact hpass
  | note above hdefinition => simp [Occurrence.passesCells, hdefinition] at hpass
  | within table h => exact hpass

theorem passesContents (h : Surrounds around above)
    (hpass : o.passesContents config around = true) : o.passesContents config above = true := by
  cases h with
  | root => exact hpass
  | @note _ around above hdefinition =>
    cases around <;> simp [Occurrence.passesContents, hdefinition] at hpass
  | within row h =>
    cases h with
    | root => exact hpass
    | note above hdefinition => simp [Occurrence.passesContents, hdefinition] at hpass
    | within table h => exact hpass

end Surrounds

/-! ## Nodes that keep notes -/

namespace Occurrence

/-- The occurrence loses no reference to a footnote, given what stands around it in the document. It
passes each of them on, is no use of a footnote with a text that could be dropped, and no long table
with a foot that is put between its rows. -/
def keepsNotes (config : Config) (around : List Occurrence) (o : Occurrence) : Bool :=
  o.keepsPlace config &&
    (Branch.printOrder.all fun b ↦
      !o.node.citesOn b || o.passes config { Context.empty with ancestors := around } b) &&
    match o.node.element with
    | .footnoteReference (some _) => !o.node.citesOn .children
    | .table =>
      !isLong config o.node || (Table.geometry config o.node).footer.isNone ||
        !o.node.citesOn .children
    | _ => true

variable {config : Config} {around : List Occurrence} {o : Occurrence} {c : Context}

theorem passes_of_keepsNotes (h : o.keepsNotes config around = true)
    (habove : Surrounds around c.ancestors) {b : Branch} (hon : o.node.citesOn b = true) :
    o.passes config c b = true := by
  simp only [keepsNotes, Bool.and_eq_true, List.all_eq_true] at h
  have hpass := h.1.2 b (Branch.mem_printOrder b)
  rw [hon, Bool.not_true, Bool.false_or] at hpass
  cases b with
  | title | tag | caption => exact hpass
  | children =>
    cases he : o.node.element with
    | tableRow kind =>
      simp only [passes, he] at hpass ⊢
      exact habove.passesCells hpass
    | tableCell width =>
      simp only [passes, he] at hpass ⊢
      exact habove.passesContents hpass
    | footnoteReference label =>
      cases label with
      | none => simp only [passes, he]
      | some label => simp [he, hon] at h
    | _ => simp_all only [passes]

end Occurrence

/-- No occurrence of the document loses references to footnotes. -/
def Node.keepsNotes (config : Config) (doc : Node) : Bool :=
  (doc.occurrences (.ofRoot 0)).all fun o ↦ o.keepsNotes config (doc.around o.place)

namespace Node

variable {config : Config} {doc : Node} (h : doc.keepsNotes config = true)

include h

theorem keepsPlace_of_keepsNotes : doc.keepsPlace config = true := by
  refine List.all_eq_true.mpr fun o ho ↦ ?_
  exact (Bool.and_eq_true_iff.mp (Bool.and_eq_true_iff.mp (List.all_eq_true.mp h o ho)).1).1

variable {o : Occurrence} (ho : o ∈ doc.occurrences (.ofRoot 0))

include ho

theorem citesOn_of_passes {c : Context} (habove : Surrounds (doc.around o.place) c.ancestors)
    {b : Branch} (hpass : o.passes config c b = false) : o.node.citesOn b = false := by
  refine Bool.eq_false_iff.mpr fun hon ↦ ?_
  rw [Occurrence.passes_of_keepsNotes (List.all_eq_true.mp h o ho) habove hon] at hpass
  cases hpass

theorem citesOn_of_label {label : String} (he : o.node.element = .footnoteReference (some label)) :
    o.node.citesOn .children = false := by
  have hself := (Bool.and_eq_true_iff.mp (List.all_eq_true.mp h o ho)).2
  simpa [he] using hself

theorem citesOn_of_footer (he : o.node.element = .table) (hlong : isLong config o.node = true)
    (hfooter : (Table.geometry config o.node).footer.isSome = true) :
    o.node.citesOn .children = false := by
  have hself := (Bool.and_eq_true_iff.mp (List.all_eq_true.mp h o ho)).2
  have hsome := Option.isSome_iff_ne_none.mp hfooter
  simpa [he, hlong, hsome] using hself

end Node

end Typeset

import Typeset.Proofs.Render.Outputs
import Typeset.Proofs.Render.Shown

/-!
# What nodes pass on, in order

The text of a node carries what the parts carry that the node passes on: first its title and its
tag, then its caption and its contents, or these two the other way round where the caption is
printed below.
-/

namespace Typeset

open Action Context Latex Render Text

namespace Occurrence

/-- The caption of an occurrence stands above its contents, if it has one. -/
def captionsAbove (config : Config) (o : Occurrence) : Bool :=
  match o.node.element with
  | .paragraph => Latex.captionsAbove config o.node.attributes
  | .table => isLong config o.node || config.tableCaptionAbove
  | _ => true

/-- Of what stands on a branch of an occurrence, what the occurrence passes on. -/
def passedOn {α : Type} (config : Config) (c : Context) (o : Occurrence) (xs : Branch → List α)
    (b : Branch) : List α :=
  if o.passes config c b then xs b else []

/-- Of what stands on the branches of an occurrence, what the occurrence passes on, in the order of
its text. -/
def passed {α : Type} (config : Config) (c : Context) (o : Occurrence) (xs : Branch → List α) :
    List α :=
  let on := o.passedOn config c xs
  on .title ++ on .tag ++
    if o.captionsAbove config then on .caption ++ on .children else on .children ++ on .caption

theorem mem_passed {α : Type} {config : Config} {c : Context} {o : Occurrence}
    {xs : Branch → List α} {b : Branch} {x : α} (hx : x ∈ xs b)
    (hpass : o.passes config c b = true) : x ∈ o.passed config c xs := by
  have hon : x ∈ o.passedOn config c xs b := by rwa [passedOn, if_pos hpass]
  unfold passed
  cases b <;> split <;> simp [hon]

section

variable {α β : Type} {config : Config} {c : Context} {o : Occurrence} (xs : Branch → List α)

theorem passedOn_map (f : α → β) (b : Branch) :
    o.passedOn config c (fun b ↦ (xs b).map f) b = (o.passedOn config c xs b).map f := by
  unfold passedOn
  split <;> rfl

theorem passed_map (f : α → β) :
    o.passed config c (fun b ↦ (xs b).map f) = (o.passed config c xs).map f := by
  unfold passed
  dsimp only
  simp only [passedOn_map]
  split <;> simp only [List.map_append]

theorem passed_of_heading {g : Heading} (he : o.node.element = .heading g) :
    o.passed config c xs = (if printsTitle config g then xs .title else []) ++ xs .children := by
  simp [passed, passedOn, passes, captionsAbove, he, Node.kind, Element.kind, printsCaption,
    Node.isFigure]

theorem passed_of_paragraph (he : o.node.element = .paragraph) :
    o.passed config c xs =
      if Latex.captionsAbove config o.node.attributes then
        (if o.node.isFigure then xs .caption else []) ++ xs .children
      else xs .children ++ if o.node.isFigure then xs .caption else [] := by
  simp [passed, passedOn, passes, captionsAbove, he, Node.kind, Element.kind, printsCaption]

theorem passed_of_item {checkbox : Option Checkbox} {counter : Option Int}
    (he : o.node.element = .item checkbox counter) :
    o.passed config c xs = xs .tag ++ xs .children := by
  simp [passed, passedOn, passes, captionsAbove, he, Node.kind, Element.kind, printsCaption,
    Node.isFigure]

theorem passed_of_table (he : o.node.element = .table) :
    o.passed config c xs =
      if isLong config o.node || config.tableCaptionAbove then xs .caption ++ xs .children
      else xs .children ++ xs .caption := by
  simp [passed, passedOn, passes, captionsAbove, he, Node.kind, Element.kind, printsCaption]

theorem passed_of_codeBlock {b : CodeBlock} (he : o.node.element = .codeBlock b) :
    o.passed config c xs = xs .caption := by
  simp [passed, passedOn, passes, captionsAbove, he, Node.kind, Element.kind, printsCaption]

/-- Only headings pass on titles, only items tags. -/
theorem passes_of_ne_children (hheading : o.node.kind ≠ .heading) (hitem : o.node.kind ≠ .item)
    {b : Branch} (hcaption : b = .caption → printsCaption o.node = false) (hb : b ≠ .children) :
    o.passes config c b = false := by
  cases b with
  | children => exact absurd rfl hb
  | title =>
    cases he : o.node.element with
    | heading => exact absurd (by rw [Node.kind, he, Element.kind]) hheading
    | _ => simp only [passes, he]
  | tag => simpa [passes] using hitem
  | caption => exact hcaption rfl

/-- Nodes of all other kinds pass on nothing but their contents. -/
theorem passed_eq_contents (hheading : o.node.kind ≠ .heading) (hitem : o.node.kind ≠ .item)
    (hcaption : printsCaption o.node = false) :
    o.passed config c xs = if o.passes config c .children then xs .children else [] := by
  have hothers : ∀ b, b ≠ .children → o.passes config c b = false := fun _ hb ↦
    passes_of_ne_children hheading hitem (fun _ ↦ hcaption) hb
  unfold passed passedOn
  simp [hothers .title, hothers .tag, hothers .caption]

end

/-- The table for whose foot a row is held back. -/
def heldFor? (config : Config) (c : Context) (o : Occurrence) : Option Place :=
  c.table?.bind fun table ↦ (rowIn? config table o).bind fun index ↦
    if isLong config table.node && (Table.geometry config table.node).part index == .foot then
      some table.place
    else none

end Occurrence

namespace Render

variable {config : Config} {o : Occurrence} {parts : Parts} {c d : Context}
  {output : Option String} {ws : List String}

/-! ## Rows and cells -/

theorem table?_of_ancestors {table : Occurrence} {rest : List Occurrence}
    (habove : c.ancestors = table :: rest) (htable : table.node.kind = .table) :
    c.table? = some table := by
  simp [Context.table?, habove, htable]

/-- A row is held back with its cells, or printed if it is passed on. -/
theorem carries_of_tableRow {contents : String} (hcontents : Carries ws contents.toList)
    (hrun : tableRow config o contents c = (.ok output, d)) :
    (∃ table text, o.heldFor? config c = some table ∧ hold table text c = (.ok (), d) ∧
      output = none ∧ Carries ws text.toList) ∨
    o.heldFor? config c = none ∧ d = c ∧
      (o.passesCells config c.ancestors = true → Carries ws (output.getD "").toList) := by
  obtain ⟨table, htable, hrow⟩ := ok_of_tableRow hrun
  unfold Occurrence.heldFor?
  rw [htable, Option.bind_some, Occurrence.rowIn?]
  cases hindex : (o.place.childIndex? table.place).bind
      (Table.geometry config table.node).indexOf? with
  | none =>
    rw [hindex] at hrow
    obtain ⟨rfl, rfl⟩ := hrow
    refine .inr ⟨rfl, rfl, fun hpass ↦ ?_⟩
    unfold Occurrence.passesCells at hpass
    split at hpass
    · next table' rest habove =>
      rw [Bool.and_eq_true, beq_iff_eq] at hpass
      rw [table?_of_ancestors habove hpass.1] at htable
      obtain rfl := Option.some.inj htable
      rw [Occurrence.rowIn?, hindex] at hpass
      cases hpass.2
    · cases hpass
  | some index =>
    have htext := carries_rowText hcontents config (Table.geometry config table.node) table.node
      index o.node.children.length
    rw [hindex] at hrow
    rw [Option.bind_some]
    dsimp only at hrow
    split at hrow
    · next hfoot =>
      rw [if_pos hfoot]
      exact .inl ⟨_, _, rfl, hrow.2, hrow.1, htext⟩
    · next hfoot =>
      obtain ⟨rfl, rfl⟩ := hrow
      rw [if_neg hfoot]
      exact .inr ⟨rfl, rfl, fun _ ↦ htext⟩

theorem carries_of_tableCell {contents : String} (hws : AreCompact ws)
    (hcontents : Carries ws contents.toList)
    (hrun : tableCell config o contents c = (.ok output, d)) :
    Carries (if o.passesContents config c.ancestors then ws else []) (output.getD "").toList := by
  split
  · next hpass =>
    unfold Occurrence.passesContents at hpass
    split at hpass
    · next row table rest habove =>
      simp only [Bool.and_eq_true, beq_iff_eq, Option.any_eq_true] at hpass
      obtain ⟨⟨hrow, htable⟩, index, hindex, column, hcolumn, hstyle⟩ := hpass
      obtain ⟨-, row', table', hparent, hfind, hcell⟩ := ok_of_tableCell hrun
      obtain rfl : row = row' := by
        rw [Context.parent?, habove] at hparent
        exact Option.some.inj hparent
      obtain rfl : table = table' := by
        simpa [Context.table?, habove, hrow, htable] using hfind
      have hindex : (row.place.childIndex? table.place).bind
          (Table.geometry config table.node).indexOf? = some index := hindex
      rw [hindex] at hcell
      obtain ⟨column', hcolumn', rfl⟩ := hcell
      obtain rfl : column = column' := Option.some.inj (hcolumn.symm.trans hcolumn')
      have htext : Carries _ (cellText config (Table.geometry config table.node) table.node index
          column contents).toList := carries_cellText hws hcontents
      rwa [if_pos hstyle] at htext
    · cases hpass
  · exact .nil _

theorem carries_footnoteText {contents : String} (hws : AreCompact ws)
    (h : Carries ws contents.toList) : Carries ws (footnoteText contents).toList :=
  carries_command (h.strip hws) _

theorem occurs_footnoteText {s contents : String} (hs : IsCompact s) (h : Occurs s contents) :
    Occurs s (footnoteText contents) := by
  have hcompact : AreCompact [s] := fun w hw ↦ List.mem_singleton.mp hw ▸ hs
  exact (carries_footnoteText hcompact (.of_occurs hs h)).occurs List.mem_cons_self

/-! ## All kinds -/

/-- What an occurrence prints carries what its contents carry, if it passes them on. Kinds whose
other parts are printed as well, rows and references to footnotes are apart. -/
theorem carries_of_contents {expand : Occurrence → Action String}
    (hheading : o.node.kind ≠ .heading) (hparagraph : o.node.kind ≠ .paragraph)
    (hitem : o.node.kind ≠ .item) (htable : o.node.kind ≠ .table)
    (hrow : o.node.kind ≠ .tableRow) (hreference : o.node.kind ≠ .footnoteReference)
    (hws : AreCompact ws) (hcontents : Carries ws parts.contents.toList)
    (hchildren : o.node.children = [] → ws = [])
    (hrun : transcribeElement config expand o parts c = (.ok output, d)) :
    Carries (if o.passes config c .children then ws else []) (output.getD "").toList := by
  have hnone : ∀ t : String, Carries [] t.toList := fun t ↦ .nil _
  cases he : o.node.element with
  | heading => exact absurd (by rw [Node.kind, he, Element.kind]) hheading
  | paragraph => exact absurd (by rw [Node.kind, he, Element.kind]) hparagraph
  | item => exact absurd (by rw [Node.kind, he, Element.kind]) hitem
  | table => exact absurd (by rw [Node.kind, he, Element.kind]) htable
  | tableRow => exact absurd (by rw [Node.kind, he, Element.kind]) hrow
  | footnoteReference => exact absurd (by rw [Node.kind, he, Element.kind]) hreference
  | document properties =>
    simp only [transcribeElement, he] at hrun
    cases hrun
    simpa [Occurrence.passes, he] using hcontents
  | plainList kind =>
    simp only [transcribeElement, he] at hrun
    obtain ⟨t, ht, rfl⟩ := ok_of_map hrun
    simpa [Occurrence.passes, he] using carries_of_plainList hcontents ht
  | tableCell width =>
    simp only [transcribeElement, he] at hrun
    simpa [Occurrence.passes, he] using carries_of_tableCell hws hcontents hrun
  | quoteBlock =>
    simp only [transcribeElement, he] at hrun
    cases hrun
    simpa [Occurrence.passes, he] using carries_quoteText hcontents
  | specialBlock type =>
    simp only [transcribeElement, he] at hrun
    obtain ⟨label, c₁, -, hrun⟩ := ok_of_bind hrun
    cases hrun
    simpa [Occurrence.passes, he] using carries_specialText hcontents config type _ label
  | bold | italic | underline | strikeThrough =>
    simp only [transcribeElement, he] at hrun
    obtain ⟨t, ht, rfl⟩ := ok_of_map hrun
    simpa [Occurrence.passes, he] using carries_of_markup hcontents ht
  | link kind path =>
    simp only [transcribeElement, he] at hrun
    obtain ⟨t, ht, rfl⟩ := ok_of_map hrun
    simpa [Occurrence.passes, he] using carries_of_link hws hcontents hchildren ht
  | subscript | superscript =>
    simp only [transcribeElement, he] at hrun
    obtain ⟨t, ht, rfl⟩ := ok_of_map hrun
    have htext := carries_of_byMode (by
      rw [String.toList_append]
      exact (carries_braced hcontents).append_left _) (carries_command hcontents _) ht
    simpa [Occurrence.passes, he] using htext
  | mathRun =>
    simp only [transcribeElement, he] at hrun
    obtain ⟨t, ht, rfl⟩ := ok_of_map hrun
    have htext := carries_of_byMode hcontents (by
      simp only [String.toList_append]
      exact (hcontents.append_left _).append_right _) ht
    simpa [Occurrence.passes, he] using htext
  | radioTarget value =>
    simp only [transcribeElement, he] at hrun
    obtain ⟨label, c₁, -, hrun⟩ := ok_of_bind hrun
    cases hrun
    have htext : Carries ws (label ++ parts.contents).toList := by
      rw [String.toList_append]
      exact hcontents.append_left _
    simpa [Occurrence.passes, he] using htext
  | _ => simpa [Occurrence.passes, he] using hnone (output.getD "")

/-- What an occurrence prints in its place carries what it passes on. Headings of zones, rows, long
tables and references to footnotes are apart. -/
theorem carries_of_transcribeElement {expand : Occurrence → Action String}
    {words : Branch → List String} (hzone : o.node.zone = .body) (hrow : o.node.kind ≠ .tableRow)
    (htable : o.node.kind = .table → isLong config o.node = false)
    (hreference : o.node.kind ≠ .footnoteReference) (hwords : ∀ b, AreCompact (words b))
    (hparts : ∀ b, Carries (words b) (parts.on b).toList)
    (hchildren : o.node.children = [] → words .children = [])
    (hrun : transcribeElement config expand o parts c = (.ok output, d)) :
    Carries (o.passed config c words) (output.getD "").toList := by
  have htitle : Carries (words .title) parts.title.toList := hparts .title
  have htag : Carries (words .tag) parts.tag.toList := hparts .tag
  have hcaption : Carries (words .caption) parts.caption.toList := hparts .caption
  have hcontents : Carries (words .children) parts.contents.toList := hparts .children
  cases he : o.node.element with
  | heading h =>
    simp only [transcribeElement, he, heading_eq, hzone, if_true] at hrun
    obtain ⟨t, c₁, ht, hrun⟩ := ok_of_bind hrun
    cases hrun
    rw [Occurrence.passed_of_heading words he]
    exact carries_of_sectionOf htitle hcontents ht
  | paragraph =>
    simp only [transcribeElement, he] at hrun
    rw [Occurrence.passed_of_paragraph words he]
    exact carries_of_paragraph (hwords .children) hcaption hcontents hrun
  | item checkbox counter =>
    simp only [transcribeElement, he] at hrun
    obtain ⟨t, ht, rfl⟩ := ok_of_map hrun
    rw [Occurrence.passed_of_item words he]
    exact carries_of_item (hwords .children) htag hcontents ht
  | table =>
    have hlong := htable (by simp [Node.kind, he, Element.kind])
    simp only [transcribeElement, he] at hrun
    obtain ⟨t, ht, rfl⟩ := ok_of_map hrun
    rw [Occurrence.passed_of_table words he, hlong, Bool.false_or]
    exact carries_of_table hlong hcaption hcontents ht
  | codeBlock b =>
    simp only [transcribeElement, he] at hrun
    obtain ⟨t, ht, rfl⟩ := ok_of_map hrun
    rw [Occurrence.passed_of_codeBlock words he]
    exact carries_of_codeBlock hcaption ht
  | tableRow kind => exact absurd (by simp [Node.kind, he, Element.kind]) hrow
  | footnoteReference label => exact absurd (by simp [Node.kind, he, Element.kind]) hreference
  | _ =>
    obtain ⟨hheading, hparagraph, hitem, hkind, hnone⟩ :
        o.node.kind ≠ .heading ∧ o.node.kind ≠ .paragraph ∧ o.node.kind ≠ .item ∧
          o.node.kind ≠ .table ∧ printsCaption o.node = false := by
      simp [printsCaption, Node.isFigure, Node.kind, he, Element.kind]
    rw [Occurrence.passed_eq_contents words hheading hitem hnone]
    exact carries_of_contents hheading hparagraph hitem hkind hrow hreference (hwords .children)
      hcontents hchildren hrun

end Render

end Typeset

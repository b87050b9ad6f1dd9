import Typeset.Proofs.CrossReferences
import Typeset.Proofs.Notes.Tally
import Typeset.Proofs.Render.Printing
import Typeset.Proofs.Tree.Ordinary

/-!
# Ordinary trees print marked texts

What comes out of the nodes of an ordinary document are the texts of marked ones that they show, and
so are the chunks that are collected for the zones on the way. The printing of a footnote's
definition is never cut off: each one inside another takes a footnote that had no number yet, and
there are no more of them than the depth allows.
-/

namespace Typeset

open Action Context Latex Render

variable {doc : Node} {depth : Nat} {c d : Context}

/-- What comes out of a node: nothing, a text that it prints, given what the trees below it show, or
the text of a definition as a footnote. -/
inductive Node.GivesOut (definitions : List Node) (n : Node) : Option String → Prop
  | nothing : n.mayPrintNothing → GivesOut definitions n none
  | printed {u : Branch → List Sign} {s : List Sign} :
    (∀ b, (b = .caption → n.kind = .table) → Shows definitions (n.branch b) (u b)) →
      n.Prints u s → GivesOut definitions n (some (textOf s))
  | note {definition : Node} {label : Option String} {c t : List Sign} :
    n.element = .footnoteReference label → definition ∈ definitions →
      definition.kind = .footnoteDefinition → Shows definitions definition.children c →
        IsTrimmed c t → GivesOut definitions n (some (textOf (commandOf "footnote" t)))

/-- The text comes out of some node of the document. -/
def Node.IsPrintedText (doc : Node) (t : String) : Prop :=
  ∃ n ∈ doc.visit, n.GivesOut doc.visit (some t)

/-- Where an ordinary document is printed: everything around is ordinary, each chunk is empty or
comes out of a node of the document, and the depth allows for all definitions of footnotes that can
still be printed. -/
structure Context.IsOrdinary (doc : Node) (depth : Nat) (c : Context) : Prop where
  index : c.references.index = doc.index
  above : ∀ o ∈ c.ancestors, o.node.isOrdinary = true ∧ o.node.isProper = true
  chunks : ∀ z, ∀ t ∈ c.buffers.chunks z, t = "" ∨ doc.IsPrintedText t
  notes : c.unusedNotes ≤ depth

namespace Context.IsOrdinary

theorem inMath_eq_false (h : c.IsOrdinary doc depth) : c.inMath = false := by
  refine List.any_eq_false.mpr fun o ho hkind ↦ ?_
  exact Node.kind_ne (h.above o ho).1 (by decide) (beq_iff_eq.mp hkind)

theorem of_eq (h : c.IsOrdinary doc depth) (hindex : d.references.index = c.references.index)
    (habove : d.ancestors = c.ancestors) (hbuffers : d.buffers = c.buffers)
    (hfootnotes : d.footnotes = c.footnotes) : d.IsOrdinary doc depth where
  index := hindex.trans h.index
  above := habove ▸ h.above
  chunks := hbuffers ▸ h.chunks
  notes := by
    rw [unusedNotes, hindex, hfootnotes]
    exact h.notes

theorem setChunks (h : c.IsOrdinary doc depth) {z : Zone} (hz : z ≠ .body) {ts : List String}
    (hts : ∀ t ∈ ts, t ∈ c.buffers.chunks z ∨ t = "" ∨ doc.IsPrintedText t)
    (reservations : List (Place × Nat)) : ({ c with
      buffers := c.buffers.set ts z
      reservations := reservations } : Context).IsOrdinary doc depth where
  index := h.index
  above := h.above
  chunks z' t ht := by
    have ht : t ∈ (c.buffers.set ts z).chunks z' := ht
    rw [Buffers.chunks_set _ _ _ _ hz] at ht
    split at ht
    · exact (hts t ht).elim (h.chunks z t) id
    · exact h.chunks z' t ht
  notes := h.notes

end Context.IsOrdinary

/-- Where an ordinary document is printed, the action gives what has the property if it gives
anything, and leaves it so. -/
def Action.Yields {α : Type} (doc : Node) (depth : Nat) (x : Action α) (Q : α → Prop) : Prop :=
  ∀ c, c.IsOrdinary doc depth → ∀ a d, x c = (.ok a, d) → d.IsOrdinary doc depth ∧ Q a

namespace Action.Yields

variable {α β : Type} {x : Action α} {P Q : α → Prop} {R : β → Prop}

theorem mono (h : Yields doc depth x P) (hPQ : ∀ a, P a → Q a) : Yields doc depth x Q := by
  intro c hc a d hrun
  obtain ⟨hd, ha⟩ := h c hc a d hrun
  exact ⟨hd, hPQ a ha⟩

theorem bind {k : α → Action β} (hx : Yields doc depth x P)
    (hk : ∀ a, P a → Yields doc depth (k a) R) : Yields doc depth (x >>= k) R := by
  intro c hc b d hrun
  obtain ⟨a, c', hfirst, hrun⟩ := ok_of_bind hrun
  obtain ⟨hc', ha⟩ := hx c hc a c' hfirst
  exact hk a ha c' hc' b d hrun

theorem read {f : Context → Except Failure α}
    (h : ∀ c, c.IsOrdinary doc depth → ∀ a, f c = .ok a → Q a) :
    Yields doc depth (fun c ↦ (f c, c)) Q := by
  intro c hc a d hrun
  obtain ⟨ha, rfl⟩ := Prod.mk.inj hrun
  exact ⟨hc, h c hc a ha⟩

theorem pure {a : α} (h : Q a) : Yields doc depth (Pure.pure a) Q := by
  refine read (f := fun _ ↦ .ok a) fun _ _ b hb ↦ ?_
  rwa [← Except.ok.inj hb]

theorem fail (e : Failure) : Yields doc depth (Action.fail e : Action α) Q :=
  read (f := fun _ ↦ .error e) fun _ _ _ h ↦ by cases h

theorem ask {f : Context → α} (h : ∀ c, c.IsOrdinary doc depth → Q (f c)) :
    Yields doc depth (Action.ask f) Q := by
  refine read (f := fun c ↦ .ok (f c)) fun c hc b hb ↦ ?_
  rw [← Except.ok.inj hb]
  exact h c hc

theorem askAny {f : Context → α} : Yields doc depth (Action.ask f) fun _ ↦ True :=
  ask fun _ _ ↦ trivial

/-- The table around is an ordinary one. -/
theorem askTable : Yields doc depth (Action.ask Context.table?) fun table? ↦
    ∀ table ∈ table?, table.node.attributes = [] ∧ table.node.isProper = true := by
  refine ask fun c hc table htable ↦ ?_
  obtain ⟨hordinary, hproper⟩ := hc.above table (List.mem_of_find?_eq_some htable)
  exact ⟨Node.attributes_eq_nil hordinary, hproper⟩

theorem ofExcept {r : Except Failure α} (h : ∀ a, r = .ok a → Q a) :
    Yields doc depth (Action.ofExcept r) Q := read fun _ _ ↦ h

theorem ofExceptAny {r : Except Failure α} : Yields doc depth (Action.ofExcept r) fun _ ↦ True :=
  ofExcept fun _ _ ↦ trivial

theorem check (fault : Option Failure) : Yields doc depth (Action.check fault) fun _ ↦ True := by
  cases fault with
  | none => exact pure trivial
  | some e => exact fail e

theorem map {f : α → β} (h : Yields doc depth x fun a ↦ R (f a)) :
    Yields doc depth (f <$> x) R := by
  rw [map_eq_pure_bind]
  exact h.bind fun _ ha ↦ pure ha

theorem within {o : Occurrence} (ho : o.node.isOrdinary = true) (hproper : o.node.isProper = true)
    (h : Yields doc depth x Q) : Yields doc depth (Context.within o x) Q := by
  intro c hc a d hrun
  obtain ⟨d', hinner, rfl⟩ := ok_of_within hrun
  have hpush : ({ c with ancestors := o :: c.ancestors } : Context).IsOrdinary doc depth :=
    ⟨hc.index, List.forall_mem_cons.mpr ⟨⟨ho, hproper⟩, hc.above⟩, hc.chunks, hc.notes⟩
  obtain ⟨hd', ha⟩ := h _ hpush a d' hinner
  exact ⟨⟨hd'.index, fun p hp ↦ hd'.above p (List.mem_of_mem_tail hp), hd'.chunks, hd'.notes⟩, ha⟩

/-! ## Labels, numbers and chunks -/

theorem reference (p : Place) : Yields doc depth (Context.reference p) fun _ ↦ True := by
  intro c hc token d hrun
  obtain ⟨-, rfl⟩ := Prod.mk.inj hrun
  exact ⟨hc.of_eq (References.index_reference _ p) rfl rfl rfl, trivial⟩

theorem labelWith (force : Bool) (o : Occurrence) :
    Yields doc depth (Context.labelWith force o) fun label ↦ ∀ key ∈ label, IsKey key := by
  intro c hc label d hrun
  obtain ⟨rfl, rfl⟩ := ok_of_labelWith hrun
  have hindex := References.index_label c.references o force
  exact ⟨hc.of_eq hindex rfl rfl rfl, fun _ ↦ References.isKey_label⟩

theorem label? (o : Occurrence) :
    Yields doc depth (Context.label? o) fun label ↦ ∀ key ∈ label, IsKey key := labelWith false o

theorem label (o : Occurrence) : Yields doc depth (Context.label o) IsKey := by
  refine (labelWith true o).bind fun label hlabel ↦ pure ?_
  cases label with
  | none => exact fun c hc ↦ absurd hc List.not_mem_nil
  | some key => exact hlabel key rfl

theorem reserveSlot (o : Occurrence) : Yields doc depth (Render.reserveSlot o) fun _ ↦ True := by
  unfold Render.reserveSlot
  split
  · exact pure trivial
  · next hzone =>
    intro c hc u d hrun
    have hreserve := reserve_withSlots (c := c) (s := c.slots) (p := o.place) hzone
    rw [withSlots_slots, hrun] at hreserve
    obtain ⟨-, rfl⟩ := Prod.mk.inj hreserve
    refine ⟨hc.setChunks hzone (fun t ht ↦ ?_) _, trivial⟩
    rcases List.mem_append.mp ht with ht | ht
    · exact .inl ht
    · exact .inr (.inl (List.mem_singleton.mp ht))

theorem route {z : Zone} (hz : z ≠ .body) {t : String} (ht : doc.IsPrintedText t)
    (p : Option Place) : Yields doc depth (Context.route z t p) fun _ ↦ True := by
  intro c hc u d hrun
  rw [Context.route, c.buffers.get?_eq_chunks hz] at hrun
  dsimp only at hrun
  split at hrun
  · obtain ⟨-, rfl⟩ := Prod.mk.inj hrun
    refine ⟨hc.setChunks hz (fun t' ht' ↦ ?_) _, trivial⟩
    rcases List.mem_append.mp ht' with ht' | ht'
    · exact .inl ht'
    · exact .inr (.inr (List.mem_singleton.mp ht' ▸ ht))
  · split at hrun
    · obtain ⟨-, rfl⟩ := Prod.mk.inj hrun
      refine ⟨hc.setChunks hz (fun t' ht' ↦ ?_) _, trivial⟩
      rcases List.mem_or_eq_of_mem_set ht' with ht' | rfl
      · exact .inl ht'
      · exact .inr (.inr ht)
    · cases hrun

theorem nextFootnote (label : Datum) :
    Yields doc depth (Context.nextFootnote label) fun _ ↦ True := by
  intro c hc a d hrun
  unfold Context.nextFootnote at hrun
  split at hrun
  · obtain ⟨-, rfl⟩ := Prod.mk.inj hrun
    exact ⟨hc, trivial⟩
  · obtain ⟨-, rfl⟩ := Prod.mk.inj hrun
    exact ⟨⟨hc.index, hc.above, hc.chunks, (Keeps.append c _ _).unusedNotes_le.trans hc.notes⟩, trivial⟩

end Action.Yields

/-- Where a footnote less can follow, the text of each definition is what its children show. -/
def Render.ExpandsNotes (doc : Node) (depth : Nat) (expand : Occurrence → Action String) : Prop :=
  ∀ k, depth = k + 1 → ∀ e ∈ doc.index.footnotes,
    Yields doc k (expand e.2) (IsTextOf (Shows doc.visit e.2.node.children))

/-! ## Nodes -/

/-- The parts of a node are texts of marked ones, trimmed where they are. -/
structure Render.Parts.AreTextsOf (parts : Parts) (u : Branch → List Sign) : Prop where
  title : ∃ t, IsTrimmed (u .title) t ∧ textOf t = parts.title
  tag : ∃ t, IsTrimmed (u .tag) t ∧ textOf t = parts.tag
  caption : ∃ t, IsTrimmed (u .caption) t ∧ textOf t = parts.caption
  contents : textOf (u .children) = parts.contents

namespace Render

variable {o : Occurrence} {parts : Parts} {u : Branch → List Sign}

theorem markup_eq {kind name : String} (hname : '%' ∉ name.toList)
    (h : Config.default.textMarkup.lookup kind = some (command name "%s")) (text : String) :
    markup .default kind text = pure (command name text) := by
  unfold markup
  rw [h]
  dsimp only
  rw [fill_command hname]
  rfl

section

variable (ho : o.node.isOrdinary = true) (hproper : o.node.isProper = true)
  (hmem : o.node ∈ doc.visit) (hparts : parts.AreTextsOf u)
  (hu : ∀ b, (b = .caption → o.node.kind = .table) → Shows doc.visit (o.node.branch b) (u b))

include hparts hu

omit hparts in
/-- What a node prints of its parts comes out of it. -/
theorem givesOut_of_prints {t : String} (h : IsTextOf (o.node.Prints u) t) :
    o.node.GivesOut doc.visit (some t) := by
  obtain ⟨s, hs, rfl⟩ := h
  exact .printed hu hs

include ho hmem in
theorem yields_heading {h : Heading} (he : o.node.element = .heading h) :
    Yields doc depth (heading .default o h parts) (o.node.GivesOut doc.visit) := by
  have hlevel : 1 ≤ h.level := by
    have helement := Node.isOrdinary_element ho
    rw [he] at helement
    exact of_decide_eq_true helement
  have hnothing : o.node.mayPrintNothing := by
    simp [Node.mayPrintNothing, Node.kind, he, Element.kind]
  obtain ⟨title, htitle, htitletext⟩ := hparts.title
  have hsection : Yields doc depth (sectionOf .default o h parts) (IsTextOf (o.node.Prints u)) := by
    refine (Yields.label o).bind fun key hkey ↦ (Yields.check _).bind fun _ _ ↦ .ofExcept ?_
    intro t ht
    rw [← htitletext, ← hparts.contents] at ht
    exact Node.exists_prints_section he hlevel hkey htitle ht
  rw [heading_eq]
  refine hsection.bind fun t ht ↦ ?_
  split
  · exact .pure (givesOut_of_prints hu ht)
  · next hzone =>
    have hprinted : doc.IsPrintedText t := ⟨o.node, hmem, givesOut_of_prints hu ht⟩
    exact (Yields.route hzone hprinted _).bind fun _ _ ↦ .pure (.nothing hnothing)

theorem yields_paragraph (hfigure : o.node.isFigure = false) (he : o.node.element = .paragraph) :
    Yields doc depth (paragraph .default o parts) (o.node.GivesOut doc.visit) := by
  have hnothing : o.node.mayPrintNothing := by
    simp [Node.mayPrintNothing, Node.kind, he, Element.kind]
  refine (Yields.check _).bind fun _ _ ↦ ?_
  rw [hfigure, if_neg Bool.false_ne_true]
  obtain ⟨t, ht, htext⟩ := exists_stripEnd (u .children)
  rw [← hparts.contents, ← htext]
  refine .pure ?_
  split
  · exact .nothing hnothing
  · refine givesOut_of_prints hu ⟨_, .paragraph he ht, ?_⟩
    rw [textOf_append, textOf_markup]

omit hu in
include ho in
theorem yields_plainList {kind : ListKind} (he : o.node.element = .plainList kind) :
    Yields doc depth (plainList o kind parts.contents) (IsTextOf (o.node.Prints u)) := by
  refine (Yields.check _).bind fun _ _ ↦ .ofExcept fun t ht ↦ ?_
  rw [Node.attributes_eq_nil ho, ← hparts.contents] at ht
  exact Node.exists_prints_list he ht

omit hu in
theorem yields_item {checkbox : Option Checkbox} {counter : Option Int}
    (he : o.node.element = .item checkbox counter) :
    Yields doc depth (item o checkbox counter parts) (IsTextOf (o.node.Prints u)) := by
  refine Yields.askAny.bind fun count _ ↦ ?_
  refine (Yields.check _).bind fun _ _ ↦ (Yields.check _).bind fun _ _ ↦ .pure ?_
  obtain ⟨tag, htag, htagtext⟩ := hparts.tag
  rw [← htagtext, ← hparts.contents]
  exact Node.exists_prints_item he count htag

omit hu in
include ho in
theorem yields_table (he : o.node.element = .table) :
    Yields doc depth (table .default o parts) (IsTextOf (o.node.Prints u)) := by
  have hattributes := Node.attributes_eq_nil ho
  refine Yields.ofExceptAny.bind fun g _ ↦ ?_
  refine (Yields.check _).bind fun _ _ ↦ (Yields.check _).bind fun _ _ ↦ ?_
  refine (Yields.label? o).bind fun label hlabel ↦ ?_
  rw [Node.isLong_eq_false hattributes, if_neg Bool.false_ne_true]
  obtain ⟨caption, hcaption, hcaptiontext⟩ := hparts.caption
  rw [← hcaptiontext, ← hparts.contents]
  exact .pure (Node.exists_prints_table he hattributes g hcaption hlabel)

theorem yields_tableRow {kind : RowKind} (he : o.node.element = .tableRow kind) :
    Yields doc depth (tableRow .default o parts.contents) (o.node.GivesOut doc.visit) := by
  have hnothing : o.node.mayPrintNothing := by
    simp [Node.mayPrintNothing, Node.kind, he, Element.kind]
  refine Yields.askTable.bind fun table? htable ↦ ?_
  cases table? with
  | none => exact .fail _
  | some table =>
    obtain ⟨hattributes, hproper⟩ := htable table rfl
    refine (Yields.ofExcept fun g hg ↦ Table.geometry_of_geometry? hg).bind fun g hg ↦ ?_
    subst hg
    dsimp only
    split
    · exact .pure (.nothing hnothing)
    · next index _ =>
      rw [Node.isLong_eq_false hattributes, Bool.false_and, if_neg Bool.false_ne_true,
        ← hparts.contents]
      exact .pure (givesOut_of_prints hu (Node.exists_prints_row he hproper hattributes index _))

theorem yields_tableCell {width : Option Int} (he : o.node.element = .tableCell width) :
    Yields doc depth (tableCell .default o parts.contents) (o.node.GivesOut doc.visit) := by
  have hnothing : o.node.mayPrintNothing := by
    simp [Node.mayPrintNothing, Node.kind, he, Element.kind]
  refine Yields.askAny.bind fun row? _ ↦ ?_
  refine Yields.askTable.bind fun table? htable ↦ ?_
  split
  · next row table =>
    have hattributes := (htable table rfl).1
    split
    · exact .fail _
    · refine Yields.ofExceptAny.bind fun g _ ↦ ?_
      split
      · exact .pure (.nothing hnothing)
      · next index _ =>
        split
        · exact .fail _
        · next column _ =>
          refine (Yields.check _).bind fun _ _ ↦ .pure (givesOut_of_prints hu ?_)
          rw [← hparts.contents]
          exact Node.exists_prints_cell he g hattributes index column
  · exact .fail _

omit hparts hu in
theorem yields_text {content : String} (he : o.node.element = .text content) :
    Yields doc depth (text .default o content) (IsTextOf (o.node.Prints u)) := by
  refine (Yields.ask (Q := (· = false)) fun c hc ↦ hc.inMath_eq_false).bind fun inMath h ↦ ?_
  subst h
  refine (Yields.check _).bind fun _ _ ↦ .pure ⟨_, .text he, ?_⟩
  exact textOf_sourceSigns content

omit hparts hu in
theorem yields_code {kind value : String} (hkind : kind = "code" ∨ kind = "verbatim")
    (he : o.node.element = .code value ∨ o.node.element = .verbatim value) :
    Yields doc depth (code .default o kind value) (IsTextOf (o.node.Prints u)) := by
  have hmarkup : markup .default kind (escapeCode value) =
      pure (command "texttt" (escapeCode value)) := by
    rcases hkind with rfl | rfl
    · exact markup_eq (by decide) rfl _
    · exact markup_eq (by decide) rfl _
  refine (Yields.check _).bind fun _ _ ↦ ?_
  rw [hmarkup]
  refine .pure ⟨_, .code he, ?_⟩
  rw [textOf_commandOf, textOf_codeSigns]

omit hu in
theorem yields_markup {kind : String} (name : String) (hname : '%' ∉ name.toList)
    (hwrapper : o.node.wrapper? = some name)
    (h : Config.default.textMarkup.lookup kind = some (command name "%s")) :
    Yields doc depth (markup .default kind parts.contents) (IsTextOf (o.node.Prints u)) := by
  rw [markup_eq hname h]
  refine .pure ⟨_, .wrapped hwrapper, ?_⟩
  rw [textOf_commandOf, hparts.contents]

omit hu in
theorem yields_script {inside name : String} (hwrapper : o.node.wrapper? = some name) :
    Yields doc depth (byMode inside (command name parts.contents))
      (IsTextOf (o.node.Prints u)) := by
  refine .ask fun c hc ↦ ?_
  rw [hc.inMath_eq_false, if_neg Bool.false_ne_true]
  refine ⟨_, .wrapped hwrapper, ?_⟩
  rw [textOf_commandOf, hparts.contents]

omit hu in
theorem yields_link {kind path : String} (hdoc : doc.IsOrdinaryTree)
    (hdocproper : doc.isProper = true) (hproper : o.node.isProper = true)
    (hkind : kind ∈ internalKinds) (he : o.node.element = .link kind path) :
    Yields doc depth (link .default o kind path parts.contents) (IsTextOf (o.node.Prints u)) := by
  intro c hc t d hrun
  obtain ⟨target, label, hresolve, hlabel, rfl⟩ := ok_of_link hproper hkind hrun
  rw [hc.index] at hresolve
  have htarget : target.node ∈ doc.visit :=
    List.mem_map_of_mem (mem_of_firstMatch? (firstMatch?_of_resolve hdocproper hresolve))
  obtain ⟨hd, hkey⟩ := Yields.label target c hc label d hlabel
  rw [← hparts.contents]
  exact ⟨hd, Node.exists_prints_link he hkey (Node.kind_ne (hdoc _ htarget) (by decide))⟩

omit hparts hu in
theorem yields_timestamp {value kind : String} (he : o.node.element = .timestamp value kind) :
    Yields doc depth (timestamp .default o value kind) (IsTextOf (o.node.Prints u)) :=
  (Yields.check _).bind fun _ _ ↦ .pure (Node.exists_prints_timestamp he)

omit hparts hu in
theorem yields_labelOf :
    Yields doc depth (labelOf o) fun t ↦ ∃ key, IsKey key ∧ t = labelCommand key :=
  (Yields.label o).bind fun key hkey ↦ .pure ⟨key, hkey, rfl⟩

omit hparts hu in
/-- Where a footnote is used first, the text of its definition comes out of the reference. -/
theorem givesOut_of_definition {expand : Occurrence → Action String} {label text : String}
    (hdocproper : doc.isProper = true)
    (he : o.node.element = .footnoteReference (some label)) (hexpand : ExpandsNotes doc depth expand)
    {c c' d : Context} (hc : c.IsOrdinary doc depth) {number : Nat} {definition : Occurrence}
    (hnext : nextFootnote (.str label) c = (.ok (number, true), c'))
    (hfound : c'.references.index.footnote (.str label) (some o.node.origin) = .ok definition)
    (htext : expand definition c' = (.ok text, d)) :
    d.IsOrdinary doc depth ∧ o.node.GivesOut doc.visit (some (footnoteText text)) := by
  obtain ⟨hc', -⟩ := Yields.nextFootnote _ c hc _ c' hnext
  rw [hc'.index] at hfound
  have hmem := LinkIndex.mem_footnotes_of_footnote hfound
  have hless : c'.unusedNotes < c.unusedNotes :=
    unusedNotes_lt_of_nextFootnote (hc.index ▸ hmem) hnext
  obtain ⟨k, rfl⟩ : ∃ k, depth = k + 1 :=
    Nat.exists_eq_add_one_of_ne_zero (by have := hc.notes; omega)
  have hinner : c'.IsOrdinary doc k :=
    ⟨hc'.index, hc'.above, hc'.chunks, by have := hc.notes; omega⟩
  obtain ⟨hd, s, hs, rfl⟩ := hexpand k rfl _ hmem c' hinner _ _ htext
  obtain ⟨hdefinition, -, hkind⟩ := Node.footnotes_index hdocproper hmem
  obtain ⟨t, ht, htrimmed⟩ := exists_strip s
  refine ⟨⟨hd.index, hd.above, hd.chunks, hd.notes.trans (Nat.le_succ k)⟩, ?_⟩
  rw [footnoteText, ← htrimmed, ← textOf_commandOf]
  exact .note he (List.mem_map_of_mem hdefinition) hkind hs ht

/-- The text of a reference to a footnote, or that of its definition where it is used first. -/
theorem yields_footnoteReference {expand : Occurrence → Action String} {label : Option String}
    (hdocproper : doc.isProper = true) (hproper : o.node.isProper = true)
    (he : o.node.element = .footnoteReference label)
    (hexpand : ExpandsNotes doc depth expand) :
    Yields doc depth (some <$> footnoteReference expand o label parts.contents)
      (o.node.GivesOut doc.visit) := by
  have hself : o.node.GivesOut doc.visit (some (footnoteText parts.contents)) := by
    obtain ⟨t, ht, htext⟩ := exists_strip (u .children)
    refine givesOut_of_prints hu ⟨_, .footnote he ht, ?_⟩
    rw [textOf_commandOf, htext, hparts.contents, footnoteText]
  have hmark : ∀ number : Nat, o.node.GivesOut doc.visit
      (some ("\\footnotemark[" ++ toString number ++ "]")) := by
    intro number
    refine givesOut_of_prints hu ⟨_, .mark number he, ?_⟩
    have hcommand : "\\footnotemark[" = "\\footnotemark" ++ "[" := rfl
    simp only [textOf_append, textOf_markup, hcommand, String.append_assoc]
  refine .map fun c hc t d hrun ↦ ?_
  cases refers_of_footnoteReference hproper hrun with
  | unnamed htoken hnext =>
    obtain ⟨hc', -⟩ := Yields.reference _ c hc _ _ htoken
    exact ⟨(Yields.nextFootnote _ _ hc' _ _ hnext).1, hself⟩
  | again hnext => exact ⟨(Yields.nextFootnote _ c hc _ _ hnext).1, hmark _⟩
  | first hnext => exact ⟨(Yields.nextFootnote _ c hc _ _ hnext).1, hself⟩
  | defined hnext _ hfound htext =>
    exact givesOut_of_definition hdocproper he hexpand hc hnext hfound htext

include ho hmem in
/-- What comes out of an ordinary node, given what comes out of the trees below it. -/
theorem yields_transcribeElement {expand : Occurrence → Action String}
    (hdoc : doc.IsOrdinaryTree) (hdocproper : doc.isProper = true)
    (hproper : o.node.isProper = true) (hfigure : o.node.isFigure = false)
    (hexpand : ExpandsNotes doc depth expand) :
    Yields doc depth (transcribeElement .default expand o parts) (o.node.GivesOut doc.visit) := by
  have helement := Node.isOrdinary_element ho
  have hattributes := Node.attributes_eq_nil ho
  have hsome : ∀ {x : Action String}, Yields doc depth x (IsTextOf (o.node.Prints u)) →
      Yields doc depth (some <$> x) (o.node.GivesOut doc.visit) :=
    fun hx ↦ .map (hx.mono fun t ht ↦ givesOut_of_prints hu ht)
  unfold transcribeElement
  cases he : o.node.element with
  | document properties => exact .pure (givesOut_of_prints hu ⟨_, .document he, hparts.contents⟩)
  | heading h => exact yields_heading ho hmem hparts hu he
  | paragraph => exact yields_paragraph hparts hu hfigure he
  | plainList kind => exact hsome (yields_plainList ho hparts he)
  | item checkbox counter => exact hsome (yields_item hparts he)
  | table => exact hsome (yields_table ho hparts he)
  | tableRow kind => exact yields_tableRow hparts hu he
  | tableCell width => exact yields_tableCell hparts hu he
  | quoteBlock =>
    rw [← hparts.contents]
    exact .pure (givesOut_of_prints hu (Node.exists_prints_quote he))
  | horizontalRule =>
    rw [hattributes]
    exact .pure (givesOut_of_prints hu (Node.exists_prints_rule he))
  | footnoteDefinition label =>
    refine .pure (.nothing ?_)
    simp [Node.mayPrintNothing, Node.kind, he, Element.kind]
  | text content => exact hsome (yields_text he)
  | bold =>
    exact hsome (yields_markup hparts "textbf" (by decide) (by rw [Node.wrapper?, he]) rfl)
  | italic =>
    exact hsome (yields_markup hparts "emph" (by decide) (by rw [Node.wrapper?, he]) rfl)
  | underline =>
    exact hsome (yields_markup hparts "uline" (by decide) (by rw [Node.wrapper?, he]) rfl)
  | strikeThrough =>
    exact hsome (yields_markup hparts "sout" (by decide) (by rw [Node.wrapper?, he]) rfl)
  | code value => exact hsome (yields_code (.inl rfl) (.inl he))
  | verbatim value => exact hsome (yields_code (.inr rfl) (.inr he))
  | link kind path =>
    rw [he] at helement
    exact hsome (yields_link hparts hdoc hdocproper hproper
      (List.contains_iff_mem.mp helement) he)
  | footnoteReference label =>
    exact yields_footnoteReference hparts hu hdocproper hproper he hexpand
  | timestamp value kind => exact hsome (yields_timestamp he)
  | subscript => exact hsome (yields_script hparts (by rw [Node.wrapper?, he]))
  | superscript => exact hsome (yields_script hparts (by rw [Node.wrapper?, he]))
  | lineBreak =>
    refine .pure (givesOut_of_prints hu ⟨_, .lineBreak he, ?_⟩)
    rw [textOf_append, textOf_markup, textOf_markup]
    rfl
  | target value =>
    refine hsome (yields_labelOf.mono ?_)
    rintro t ⟨key, hkey, rfl⟩
    exact ⟨_, .target he hkey, by rw [textOf_commandOf, textOf_keySigns, labelCommand]⟩
  | radioTarget value =>
    dsimp only
    refine yields_labelOf.bind ?_
    rintro t ⟨key, hkey, rfl⟩
    refine .pure (givesOut_of_prints hu ⟨_, .radioTarget he hkey, ?_⟩)
    rw [textOf_append, textOf_commandOf, textOf_keySigns, hparts.contents, labelCommand]
  | _ =>
    rw [he] at helement
    cases helement

end

/-! ## Trees -/

/-- What comes out of a tree stands before what the trees behind it show. -/
theorem exists_shows_cons {definitions ns : List Node} {n : Node} {output : Option String}
    {outputs : List (Option String)} {r : List Sign} (h : n.GivesOut definitions output)
    (hr : Shows definitions ns r) (hrtext : textOf r = spaced ns outputs) :
    IsTextOf (Shows definitions (n :: ns)) (spaced (n :: ns) (output :: outputs)) := by
  cases h with
  | nothing hnothing => exact ⟨r, .nothing hnothing hr, hrtext⟩
  | printed hu hs =>
    refine ⟨_, .node hu hs hr, ?_⟩
    rw [textOf_append, textOf_append, textOf_markup, hrtext, spaced, String.append_assoc]
  | note he hdefinition hkind hshows ht =>
    refine ⟨_, .note he hdefinition hkind hshows ht hr, ?_⟩
    rw [textOf_append, textOf_append, textOf_markup, hrtext, spaced, String.append_assoc]

section

variable {expand : Occurrence → Action String} {p : Place} {b : Branch} {n : Node}

theorem yields_all {ns : List Node} (hns : ∀ n ∈ ns, n.isProper = true)
    (hnode : ∀ n ∈ ns, ∀ q,
      Yields doc depth (node .default expand q n) (n.GivesOut doc.visit)) (i : Nat) :
    Yields doc depth (all .default expand p b i ns)
      fun outputs ↦ IsTextOf (Shows doc.visit ns) (spaced ns outputs) := by
  induction ns generalizing i with
  | nil => exact .pure ⟨[], .nil, rfl⟩
  | cons n ns ih =>
    rw [all_cons (hns n List.mem_cons_self)]
    refine (hnode n List.mem_cons_self _).bind fun output houtput ↦ ?_
    have hrest := ih (fun m hm ↦ hns m (.tail _ hm)) (fun m hm ↦ hnode m (.tail _ hm)) (i + 1)
    refine hrest.bind fun outputs houtputs ↦ .pure ?_
    obtain ⟨r, hr, hrtext⟩ := houtputs
    exact exists_shows_cons houtput hr hrtext

/-- What is printed on a branch of a node is shown by the trees there, if it is printed. -/
def BranchShows (doc n : Node) (b : Branch) (outputs : List (Option String)) : Prop :=
  ∃ s, ((b = .caption → n.kind = .table) → Shows doc.visit (n.branch b) s) ∧
    textOf s = spaced (n.branch b) outputs

variable (hproper : n.isProper = true) (hordinary : n.IsOrdinaryTree)
  (hnode : ∀ b, ∀ m ∈ n.branch b, ∀ q,
    Yields doc depth (node .default expand q m) (m.GivesOut doc.visit))

include hproper hordinary hnode

theorem yields_onBranch :
    Yields doc depth (onBranch .default expand ⟨p, n⟩ b) (BranchShows doc n b) := by
  have hbelow := ((Node.isProper_iff n).mp hproper).2
  have hall : Yields doc depth (all .default expand p b 0 (n.branch b)) (BranchShows doc n b) :=
    (yields_all (hbelow b) (hnode b) 0).mono fun outputs ⟨s, hs, hstext⟩ ↦ ⟨s, fun _ ↦ hs, hstext⟩
  cases b with
  | title | tag => exact hall
  | caption =>
    rw [onBranch]
    split
    · exact hall
    · next hcaption =>
      rw [hordinary.printsCaption_eq, beq_iff_eq] at hcaption
      refine .pure ⟨[], fun htable ↦ absurd (htable rfl) hcaption, ?_⟩
      cases n.branch .caption <;> rfl
  | children => exact .within hordinary.self hproper hall

theorem yields_onBranches (bs : List Branch) :
    Yields doc depth (onBranches .default expand ⟨p, n⟩ bs)
      fun outputs ↦ ∀ b ∈ bs, BranchShows doc n b (outputs b) := by
  induction bs with
  | nil => exact .pure fun b hb ↦ absurd hb List.not_mem_nil
  | cons b bs ih =>
    refine (yields_onBranch hproper hordinary hnode).bind fun outputs houtputs ↦ ?_
    refine ih.bind fun rest hrest ↦ .pure fun b' hb' ↦ ?_
    split
    · next heq => exact heq ▸ houtputs
    · next hne => exact hrest b' ((List.mem_cons.mp hb').resolve_left hne)

end

theorem areTextsOf_ofOutputs {n : Node} {outputs : Branch → List (Option String)}
    {u : Branch → List Sign} (h : ∀ b, textOf (u b) = spaced (n.branch b) (outputs b)) :
    (Parts.ofOutputs n outputs).AreTextsOf u where
  title := by
    obtain ⟨t, ht, htext⟩ := exists_strip (u .title)
    exact ⟨t, ht, htext.trans (congrArg Text.strip (h .title))⟩
  tag := by
    obtain ⟨t, ht, htext⟩ := exists_strip (u .tag)
    exact ⟨t, ht, htext.trans (congrArg Text.strip (h .tag))⟩
  caption := by
    obtain ⟨t, ht, htext⟩ := exists_strip (u .caption)
    exact ⟨t, ht, htext.trans (congrArg Text.strip (h .caption))⟩
  contents := h .children

/-- What comes out of an ordinary tree of the document. -/
theorem yields_node {expand : Occurrence → Action String} {n : Node} {p : Place}
    (hdoc : doc.IsOrdinaryTree) (hdocproper : doc.isProper = true)
    (hproper : n.isProper = true) (hsub : ∀ m ∈ n.visit, m ∈ doc.visit)
    (hexpand : ExpandsNotes doc depth expand) :
    Yields doc depth (node .default expand p n) (n.GivesOut doc.visit) := by
  induction n using Node.induction generalizing p with
  | step n ih =>
    have hbelow := ((Node.isProper_iff n).mp hproper).2
    have hordinary : n.IsOrdinaryTree := fun m hm ↦ hdoc m (hsub m hm)
    rw [node_eq_branches hproper]
    refine (Yields.reserveSlot _).bind fun _ _ ↦ ?_
    refine (yields_onBranches hproper hordinary (fun b m hm q ↦ ?_) _).bind fun outputs hout ↦ ?_
    · exact ih b m hm (hbelow b m hm) fun k hk ↦ hsub k (Node.mem_visit_of_mem_branch hm hk)
    · choose u hu hutext using fun b ↦ hout b (Branch.mem_printOrder b)
      have hself : n ∈ doc.visit := hsub n (Node.mem_visit_self n)
      exact yields_transcribeElement hordinary.self hself (areTextsOf_ofOutputs hutext) hu hdoc
        hdocproper hproper hordinary.isFigure_eq_false hexpand

/-- The texts of footnotes are printed with a depth that is one less for each one around. -/
theorem expandsNotes_definitionText (hdoc : doc.IsOrdinaryTree) (hdocproper : doc.isProper = true)
    (depth : Nat) : ExpandsNotes doc depth (definitionText .default depth) := by
  induction depth with
  | zero =>
    intro k hk
    cases hk
  | succ depth ih =>
    intro k hk e he
    obtain rfl := Nat.succ.inj hk
    obtain ⟨hmem, hproper, -⟩ := Node.footnotes_index hdocproper he
    have hbelow := ((Node.isProper_iff e.2.node).mp hproper).2 .children
    rw [definitionText_succ hproper]
    refine (yields_all hbelow (fun m hm q ↦ ?_) 0).bind fun outputs houtputs ↦ .pure houtputs
    refine yields_node hdoc hdocproper (hbelow m hm) (fun k hk ↦ ?_) ih
    exact Node.mem_visit_of_mem_occurrences hmem
      (Node.mem_visit_of_mem_branch (b := .children) hm hk)

end Render

theorem Context.isOrdinary_start (doc : Node) :
    doc.start.IsOrdinary doc doc.index.footnotes.length where
  index := rfl
  above o ho := absurd ho List.not_mem_nil
  chunks z t ht := by cases z <;> exact absurd ht List.not_mem_nil
  notes := List.countP_le_length

/-- What comes out of an ordinary document, and what it leaves for the zones. -/
theorem givesOut_of_occurrence {body : Option String} (hdoc : doc.IsOrdinaryTree)
    (hproper : doc.isProper = true)
    (hrun : occurrence .default ⟨.ofRoot 0, doc⟩ doc.start = (.ok body, d)) :
    doc.GivesOut doc.visit body ∧
      ∀ z, ∀ t ∈ d.buffers.chunks z, t = "" ∨ doc.IsPrintedText t := by
  have hnode : node .default (definitionText .default doc.index.footnotes.length) (.ofRoot 0) doc
      doc.start = (.ok body, d) := hrun
  obtain ⟨hd, hbody⟩ := yields_node hdoc hproper hproper (fun _ hm ↦ hm)
    (expandsNotes_definitionText hdoc hproper _) _ (isOrdinary_start doc) _ _ hnode
  exact ⟨hbody, hd.chunks⟩

end Typeset

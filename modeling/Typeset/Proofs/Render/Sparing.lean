import Typeset.Proofs.Render.Outputs

/-!
# What leaves the rows of a table alone

Rows are held back for a table only by its own rows, and let go only by the table itself. So no other
printing touches them, unless it comes to a footnote whose definition holds the table.
-/

namespace Typeset

open Action Context Render

variable {α β : Type} {c₀ c d e : Context} {P : Place → Prop}

namespace Context

/-- A later context of the same document: no footnote gives its number back, and no table has rows
held back in two places. -/
structure Extends (c d : Context) : Prop where
  index : d.references.index = c.references.index
  footnotes : ∀ key, d.footnotes.lookup key = none → c.footnotes.lookup key = none
  keys : (c.heldRows.map (·.1)).Nodup → (d.heldRows.map (·.1)).Nodup

/-- A later context in which the same rows are held back for the tables at some places, and which
stands where the earlier one did. -/
structure Spares (P : Place → Prop) (c d : Context) : Prop extends Extends c d where
  rows : ∀ p, P p → d.rowsOf p = c.rowsOf p
  ancestors : d.ancestors = c.ancestors

theorem Extends.refl (c : Context) : Extends c c := ⟨rfl, fun _ h ↦ h, id⟩

theorem Extends.trans (h : Extends c d) (h' : Extends d e) : Extends c e where
  index := h'.index.trans h.index
  footnotes key hkey := h.footnotes key (h'.footnotes key hkey)
  keys hkeys := h'.keys (h.keys hkeys)

theorem Spares.of_eq (hindex : d.references.index = c.references.index)
    (hfootnotes : d.footnotes = c.footnotes) (hrows : d.heldRows = c.heldRows)
    (hancestors : d.ancestors = c.ancestors) : Spares P c d where
  index := hindex
  footnotes key hkey := hfootnotes ▸ hkey
  keys hkeys := hrows ▸ hkeys
  rows p _ := by rw [rowsOf, rowsOf, hrows]
  ancestors := hancestors

theorem Spares.refl (c : Context) : Spares P c c := .of_eq rfl rfl rfl rfl

theorem Spares.trans (h : Spares P c d) (h' : Spares P d e) : Spares P c e where
  toExtends := h.toExtends.trans h'.toExtends
  rows p hp := (h'.rows p hp).trans (h.rows p hp)
  ancestors := h'.ancestors.trans h.ancestors

/-- What is put elsewhere for headings of zones is no matter to tables. -/
theorem Spares.withSlots (c : Context) (s : Slots) : Spares P c (c.withSlots s) :=
  .of_eq rfl rfl rfl rfl

theorem Spares.hold {table : Place} (h : ¬ P table) (row : String) (c : Context) :
    Spares P c (hold table row c).2 where
  index := rfl
  footnotes _ hkey := hkey
  keys hkeys := Assoc.nodup_put hkeys _
  rows p hp := by
    have hne : p ≠ table := fun heq ↦ h (heq ▸ hp)
    rw [rowsOf_hold, if_neg hne]
  ancestors := rfl

theorem Spares.release {table : Place} (h : ¬ P table) (c : Context) :
    Spares P c (release table c).2 where
  index := rfl
  footnotes _ hkey := hkey
  keys hkeys := ((Assoc.remove_sublist table c.heldRows).map _).nodup hkeys
  rows p hp := by
    have hne : p ≠ table := fun heq ↦ h (heq ▸ hp)
    rw [rowsOf, rowsOf]
    exact congrArg (Option.getD · []) (Assoc.lookup_remove_of_ne hne _)
  ancestors := rfl

theorem Spares.nextFootnote (label : Datum) (c : Context) :
    Spares P c (nextFootnote label c).2 := by
  unfold Context.nextFootnote
  split
  · exact .refl c
  · refine ⟨⟨rfl, fun key hkey ↦ ?_, id⟩, fun _ _ ↦ rfl, rfl⟩
    rw [Assoc.lookup_append, Option.or_eq_none_iff] at hkey
    exact hkey.1

/-- Only a label that has not been used is used first. -/
theorem lookup_of_nextFootnote {label : Datum} {number : Nat}
    (h : nextFootnote label c = (.ok (number, true), d)) : c.footnotes.lookup label.key = none := by
  unfold nextFootnote at h
  split at h
  · cases h
  · next hlookup => exact hlookup

end Context

/-! ## Actions -/

/-- Done later than in some context, the action leaves the rows of the tables at some places
alone. -/
def Action.Sparing (c₀ : Context) (P : Place → Prop) (x : Action α) : Prop :=
  ∀ c, Extends c₀ c → ∀ a d, x c = (.ok a, d) → Spares P c d

namespace Action.Sparing

theorem plain (c₀ : Context) (P : Place → Prop) :
    Plain c₀.references.index fun _ x ↦ Sparing c₀ P x where
  read _ := by
    intro c _ a d hrun
    rw [(Prod.mk.inj hrun).2.symm]
    exact .refl c
  bindOfResult hx hk := by
    intro c hc b d hrun
    obtain ⟨a, c', ha, hrun⟩ := ok_of_bind hrun
    have hspares := hx c hc a c' ha
    exact hspares.trans (hk c a hc.index (by rw [ha]) c' (hc.trans hspares.toExtends) b d hrun)
  warn _ := by
    intro c _ a d hrun
    cases hrun
    exact .of_eq rfl rfl rfl rfl
  nameOfLanguage config language := by
    intro c _ a d hrun
    obtain ⟨name, languages, hname⟩ := exists_nameOfLanguage_eq config language c
    rw [hname] at hrun
    cases hrun
    exact .of_eq rfl rfl rfl rfl
  reference q := by
    intro c _ a d hrun
    cases hrun
    exact .of_eq (References.index_reference c.references q) rfl rfl rfl
  labelWith force o := by
    intro c _ a d hrun
    obtain ⟨-, rfl⟩ := ok_of_labelWith hrun
    exact .of_eq (References.index_label c.references o force) rfl rfl rfl

theorem within (o : Occurrence) {x : Action α} (hx : Sparing c₀ P x) :
    Sparing c₀ P (Context.within o x) := by
  intro c hc a d hrun
  obtain ⟨d', hbelow, rfl⟩ := ok_of_within hrun
  have hpush : Extends c { c with ancestors := o :: c.ancestors } := ⟨rfl, fun _ h ↦ h, id⟩
  have hspares := hx _ (hc.trans hpush) a d' hbelow
  refine ⟨⟨hspares.index, hspares.footnotes, hspares.keys⟩, hspares.rows, ?_⟩
  have habove : d'.ancestors = o :: c.ancestors := hspares.ancestors
  exact congrArg List.tail habove

theorem reserveSlot (o : Occurrence) : Sparing c₀ P (Render.reserveSlot o) := by
  unfold Render.reserveSlot
  split
  · exact (plain c₀ P).pure ()
  · next hzone =>
    intro c _ a d hrun
    have heq : reserve o.node.zone o.place c =
        (.ok (), c.withSlots (c.slots.hold o.node.zone o.place)) :=
      reserve_withSlots (s := c.slots) hzone
    rw [heq] at hrun
    cases hrun
    exact .withSlots c _

theorem route {z : Zone} (hz : z ≠ .body) (t : String) (q : Place) :
    Sparing c₀ P (Context.route z t (some q)) := by
  intro c _ a d hrun
  rcases route_cases hz t q c with ⟨-, heq⟩ | ⟨slot, -, -, heq⟩ | heq
  · rw [heq] at hrun
    cases hrun
    exact .withSlots c _
  · rw [heq] at hrun
    cases hrun
    exact .withSlots c _
  · rw [heq] at hrun
    cases hrun

end Action.Sparing

/-! ## Occurrences -/

/-- The occurrence is neither a table at one of the places nor a row there. -/
structure Occurrence.IsApartFrom (P : Place → Prop) (o : Occurrence) : Prop where
  table : ¬ P o.place
  row : ∀ p, P p → ∀ i, o.place ≠ p.down .children i

namespace Occurrence.IsApartFrom

variable {o : Occurrence} {p : Place} {b : Branch} {i j : Nat}

/-- What does not stand below such a table is none of its rows. -/
theorem of_not_isBelow (h : ∀ p, P p → ¬ o.place.IsBelow p) : o.IsApartFrom P where
  table hp := h _ hp (.refl _)
  row p hp i heq := h p hp (heq ▸ Place.isBelow_down p .children i)

theorem of_isBelow_branch (hP : ∀ q, P q → q = p) (hb : b ≠ .children)
    (h : o.place.IsBelow (p.down b i)) : o.IsApartFrom P where
  table hp := h.ne_of_down (hP _ hp)
  row q hq k heq := by
    obtain rfl := hP q hq
    have hself : o.place.IsBelow (q.down .children k) := heq ▸ .refl o.place
    exact hb (h.eq_of_down hself).1

theorem of_isBelow_row (hP : ∀ q, P q → q = p)
    (h : o.place.IsBelow ((p.down .children i).down b j)) : o.IsApartFrom P where
  table hp := (h.trans (Place.isBelow_down _ _ _)).ne_of_down (hP _ hp)
  row q hq k heq := by
    obtain rfl := hP q hq
    have hself : o.place.IsBelow (q.down .children k) := heq ▸ .refl o.place
    obtain ⟨-, rfl⟩ := (h.trans (Place.isBelow_down _ _ _)).eq_of_down hself
    exact h.ne_of_down heq

end Occurrence.IsApartFrom

/-- The definition of the footnote that a reference prints the text of, if its label is used there
for the first time. -/
def Context.noteOf? (c : Context) (o : Occurrence) : Option Occurrence :=
  match o.node.element with
  | .footnoteReference (some label) =>
    if o.node.children.isEmpty && (c.footnotes.lookup (.str label)).isNone then
      c.references.index.footnotes.lookup (.str label)
    else none
  | _ => none

/-- The definitions of footnotes whose texts may be printed when some occurrences are: those of the
references among them, and those of the references in such definitions. -/
inductive Context.LeadsTo (c : Context) (os : List Occurrence) : Occurrence → Prop
  | first {o definition : Occurrence} :
    o ∈ os → c.noteOf? o = some definition → LeadsTo c os definition
  | next {o definition note : Occurrence} :
    LeadsTo c os definition → o ∈ definition.node.printedOn definition.place .children →
      c.noteOf? o = some note → LeadsTo c os note

namespace Action.Sparing

variable {config : Config} {o : Occurrence}

/-- A row holds back its text for the table right above it. -/
theorem tableRow (ho : o.IsApartFrom P) (contents : String) :
    Sparing c₀ P (Render.tableRow config o contents) := by
  refine (plain c₀ P).bind ((plain c₀ P).ask fun _ _ ↦ rfl) fun table ↦ ?_
  cases table with
  | none => exact (plain c₀ P).fail _
  | some table =>
    refine (plain c₀ P).bind ((plain c₀ P).ofExcept _) fun g ↦ ?_
    dsimp only
    split
    · exact (plain c₀ P).pure _
    · next index hindex =>
      obtain ⟨i, hi, -⟩ := Option.bind_eq_some_iff.mp hindex
      have hne : ¬ P table.place := fun hp ↦
        ho.row table.place hp i (Place.eq_down_of_childIndex? hi)
      split
      · refine (plain c₀ P).bind (fun c _ a d hrun ↦ ?_) fun _ ↦ (plain c₀ P).pure _
        cases hrun
        exact .hold hne _ c
      · exact (plain c₀ P).pure _

/-- A reference to a footnote leaves the rows alone if the text of the definition does that it may
print. -/
theorem footnoteReference {expand : Occurrence → Action String} (ho : o.node.isProper = true)
    {label : Option String} (helement : o.node.element = .footnoteReference label)
    (hexpand : ∀ definition, c₀.noteOf? o = some definition → Sparing c₀ P (expand definition))
    (contents : String) : Sparing c₀ P (Render.footnoteReference expand o label contents) := by
  have hnext : ∀ label, Sparing c₀ P (nextFootnote label) := by
    intro label c _ a d hrun
    have hspares : Spares P c (nextFootnote label c).2 := .nextFootnote label c
    rwa [hrun] at hspares
  intro c hc t d hrun
  cases refers_of_footnoteReference ho hrun with
  | unnamed htoken hnumber =>
    have hreference := (plain c₀ P).reference o.place c hc _ _ htoken
    exact hreference.trans (hnext _ _ (hc.trans hreference.toExtends) _ _ hnumber)
  | again hnumber => exact hnext _ c hc _ _ hnumber
  | first hnumber => exact hnext _ c hc _ _ hnumber
  | @defined label _ definition _ _ _ hnumber hempty hfound htext =>
    have hspares := hnext _ c hc _ _ hnumber
    have hunused : c₀.footnotes.lookup (.str label) = none :=
      hc.footnotes _ (lookup_of_nextFootnote hnumber)
    have hnote : c₀.noteOf? o = some definition := by
      rw [hspares.index, hc.index] at hfound
      simp only [Context.noteOf?, helement, hempty, hunused, List.isEmpty_nil, Option.isNone_none,
        Bool.and_self, if_true]
      exact LinkIndex.lookup_of_footnote hfound
    exact hspares.trans (hexpand definition hnote _ (hc.trans hspares.toExtends) _ _ htext)

theorem transcribeElement {expand : Occurrence → Action String} (ho : o.node.isProper = true)
    (hapart : o.IsApartFrom P)
    (hexpand : ∀ definition, c₀.noteOf? o = some definition → Sparing c₀ P (expand definition))
    (parts : Parts) : Sparing c₀ P (Render.transcribeElement config expand o parts) := by
  refine (plain c₀ P).transcribeElement config o parts (fun hzone t ↦ route hzone t _) ?_
    (fun _ ↦ tableRow hapart _) fun label helement ↦ footnoteReference ho helement hexpand _
  intro _ _ c _ rows d hrun
  cases hrun
  exact .release hapart.table c

/-- Printing a tree leaves the rows of tables alone if neither the tree nor the footnotes it leads to
hold such a table or one of its rows. -/
theorem node {expand : Occurrence → Action String} {n : Node} (hn : n.isProper = true) {q : Place}
    (hapart : ∀ o ∈ n.printed q, o.IsApartFrom P)
    (hexpand : ∀ o ∈ n.printed q, ∀ definition, c₀.noteOf? o = some definition →
      Sparing c₀ P (expand definition)) :
    Sparing c₀ P (Render.node config expand q n) := by
  refine (plain c₀ P).node config within hn (fun o _ ↦ reserveSlot o) fun o ho ↦ ?_
  have hproper := Node.isProper_of_mem_occurrences hn (Node.mem_occurrences_of_mem_printed ho)
  exact transcribeElement hproper (hapart o ho) (hexpand o ho)

theorem all {expand : Occurrence → Action String} {ns : List Node}
    (hns : ∀ n ∈ ns, n.isProper = true) {q : Place} {b : Branch} {i : Nat}
    (hapart : ∀ o ∈ Node.printedIn q b i ns, o.IsApartFrom P)
    (hexpand : ∀ o ∈ Node.printedIn q b i ns, ∀ definition, c₀.noteOf? o = some definition →
      Sparing c₀ P (expand definition)) :
    Sparing c₀ P (Render.all config expand q b i ns) := by
  refine (plain c₀ P).lasting.all config hns fun k n hk ↦ ?_
  have hprinted : ∀ o ∈ n.printed (q.down b (i + k)), o ∈ Node.printedIn q b i ns :=
    fun o ho ↦ Node.mem_printedIn_iff.mpr ⟨k, n, hk, ho⟩
  exact node (hns n (List.mem_of_getElem? hk)) (fun o ho ↦ hapart o (hprinted o ho))
    fun o ho ↦ hexpand o (hprinted o ho)

/-- So does printing the text of a footnote that is led to. -/
theorem definitionText {os : List Occurrence}
    (hproper : ∀ definition, c₀.LeadsTo os definition → definition.node.isProper = true)
    (hapart : ∀ definition, c₀.LeadsTo os definition →
      ∀ o ∈ definition.node.printedOn definition.place .children, o.IsApartFrom P)
    (depth : Nat) : ∀ definition, c₀.LeadsTo os definition →
      Sparing c₀ P (Render.definitionText config depth definition) := by
  induction depth with
  | zero => exact fun _ _ ↦ (plain c₀ P).pure _
  | succ depth ih =>
    intro definition hleads
    have hbelow := ((Node.isProper_iff definition.node).mp (hproper _ hleads)).2 .children
    have hprinted : definition.node.printedOn definition.place .children =
        Node.printedIn definition.place .children 0 definition.node.children :=
      if_neg fun h ↦ by cases h.1
    have hapart := hapart _ hleads
    have hnext : ∀ o ∈ definition.node.printedOn definition.place .children, ∀ note,
        c₀.noteOf? o = some note → Sparing c₀ P (Render.definitionText config depth note) :=
      fun o ho note hnote ↦ ih note (hleads.next ho hnote)
    rw [hprinted] at hapart hnext
    exact (plain c₀ P).definitionText config (hproper _ hleads) (all hbelow hapart hnext)

end Action.Sparing

end Typeset

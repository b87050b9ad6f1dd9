import Typeset.Proofs.Assoc
import Typeset.Proofs.Render.Parts
import Typeset.Proofs.Render.Printed

/-!
# What printing is made of

All that printing does to a context are a few changes, one after the other. A property of actions
that these changes have, and that lasts from one action to the next, is one of printing any tree.
Headings of zones and tables also hold slots and let rows go, for which the property may depend on
the place.
-/

namespace Typeset

/-- What headings of zones leave in a context: the buffers and the slots held in them. -/
structure Slots where
  buffers : Buffers
  reservations : List (Place × Nat)

/-- Other slots and other warnings in the place of those of a context. Warnings that are recorded
then still come last. -/
structure Overlay where
  slots : Slots → Slots
  warnings : List String → List String
  concat : ∀ ws message, warnings (ws ++ [message]) = warnings ws ++ [message]

namespace Context

/-- The buffers of the context and the slots held in them. -/
def slots (c : Context) : Slots := ⟨c.buffers, c.reservations⟩

/-- The context with other buffers and slots. -/
def withSlots (c : Context) (s : Slots) : Context :=
  { c with buffers := s.buffers, reservations := s.reservations }

/-- The context with what stands in an overlay. -/
def overlaid (c : Context) (v : Overlay) : Context :=
  { c with
    buffers := (v.slots c.slots).buffers
    reservations := (v.slots c.slots).reservations
    warnings := v.warnings c.warnings }

end Context

open Action Context Render

variable {ix : LinkIndex} {C : ∀ ⦃α : Type⦄, Action α → Prop}

/-- A property that actions without effect have and that lasts from one action to the next. -/
structure Action.Lasting (C : ∀ ⦃α : Type⦄, Action α → Prop) : Prop where
  pure : ∀ {α : Type} (a : α), C (Pure.pure a : Action α)
  bind : ∀ {α β : Type} {x : Action α} {k : α → Action β}, C x → (∀ a, C (k a)) → C (x >>= k)

/-- A property that actions have which only read what is no slot and no warning, or add references,
names of languages and warnings, and that lasts from one action to the next as long as the index of
link targets does. -/
structure Action.Plain (ix : LinkIndex) (C : ∀ ⦃α : Type⦄, Action α → Prop) : Prop where
  read : ∀ {α : Type} {f : Context → Except Failure α}, (∀ c v, f (c.overlaid v) = f c) →
    C fun c ↦ (f c, c)
  bindOfResult : ∀ {α β : Type} {x : Action α} {k : α → Action β}, C x →
    (∀ c a, c.references.index = ix → (x c).1 = .ok a → C (k a)) → C (x >>= k)
  warn : ∀ message, C (warn message)
  nameOfLanguage : ∀ config language, C (nameOfLanguage config language)
  reference : ∀ p, C (reference p)
  labelWith : ∀ force o, C (labelWith force o)

/-- A property that does not end below a node either, and that all changes have which printing is
made of. -/
structure Action.Closed (ix : LinkIndex) (C : ∀ ⦃α : Type⦄, Action α → Prop) : Prop
    extends Action.Plain ix C where
  within : ∀ {α : Type} (o : Occurrence) {x : Action α}, C x → C (within o x)
  hold : ∀ table row, C (hold table row)
  nextFootnote : ∀ label, C (nextFootnote label)

/-- What an occurrence does to slots and to the rows of its table has the property. -/
structure Occurrence.Admits (C : ∀ ⦃α : Type⦄, Action α → Prop) (o : Occurrence) : Prop where
  reserve : o.node.zone ≠ .body → C (reserve o.node.zone o.place)
  route : o.node.zone ≠ .body → ∀ text, C (route o.node.zone text (some o.place))
  release : C (release o.place)

namespace LinkIndex

theorem lookup_of_footnote {label : Datum} {origin : Option Origin} {d : Occurrence}
    (h : ix.footnote label origin = .ok d) : ix.footnotes.lookup label.key = some d := by
  unfold footnote at h
  split at h
  · cases h
  · cases hl : ix.footnotes.lookup label.key with
    | none =>
      rw [hl] at h
      cases h
    | some d' =>
      rw [hl] at h
      cases h
      rfl

theorem mem_footnotes_of_footnote {label : Datum} {origin : Option Origin} {d : Occurrence}
    (h : ix.footnote label origin = .ok d) : (label.key, d) ∈ ix.footnotes :=
  Assoc.mem_of_lookup (lookup_of_footnote h)

end LinkIndex

namespace Action.Lasting

variable (h : Lasting C) (config : Config) (o : Occurrence)

include h

theorem map {α β : Type} (f : α → β) {x : Action α} (hx : C x) : C (f <$> x) := by
  rw [map_eq_pure_bind]
  exact h.bind hx fun a ↦ h.pure (f a)

theorem all {expand : Occurrence → Action String} {ns : List Node}
    (hns : ∀ n ∈ ns, n.isProper = true) {p : Place} {b : Branch} {i : Nat}
    (hnode : ∀ k n, ns[k]? = some n → C (node config expand (p.down b (i + k)) n)) :
    C (Render.all config expand p b i ns) := by
  induction ns generalizing i with
  | nil => exact h.pure _
  | cons n ns ih =>
    rw [all_cons (hns n List.mem_cons_self)]
    refine h.bind (hnode 0 n rfl) fun _ ↦ h.bind ?_ fun _ ↦ h.pure _
    refine ih (fun m hm ↦ hns m (.tail _ hm)) fun k m hk ↦ ?_
    rw [show i + 1 + k = i + (k + 1) by omega]
    exact hnode (k + 1) m hk

theorem secondaryParts {expand : Occurrence → Action String}
    (hall : ∀ b ≠ .children, (b = .caption → printsCaption o.node = true) →
      C (Render.all config expand o.place b 0 (o.node.branch b))) :
    C (Render.secondaryParts config expand o) := by
  refine h.bind (hall .title (by simp) (by simp)) fun _ ↦ ?_
  refine h.bind (hall .tag (by simp) (by simp)) fun _ ↦ h.bind ?_ fun _ ↦ h.pure _
  split
  · next hcaption => exact hall .caption (by simp) fun _ ↦ hcaption
  · exact h.pure _

end Action.Lasting

namespace Action.Plain

variable (h : Plain ix C) {α β : Type}

include h

theorem pure (a : α) : C (Pure.pure a : Action α) := h.read (f := fun _ ↦ .ok a) fun _ _ ↦ rfl

theorem fail (e : Failure) : C (Action.fail e : Action α) :=
  h.read (f := fun _ ↦ .error e) fun _ _ ↦ rfl

theorem ofExcept (r : Except Failure α) : C (Action.ofExcept r) :=
  h.read (f := fun _ ↦ r) fun _ _ ↦ rfl

theorem check (fault : Option Failure) : C (Action.check fault) := by
  cases fault with
  | none => exact h.pure ()
  | some e => exact h.fail e

theorem ask {f : Context → α} (hf : ∀ c v, f (c.overlaid v) = f c) : C (Action.ask f) :=
  h.read (f := fun c ↦ .ok (f c)) fun c v ↦ by rw [hf c v]

theorem bind {x : Action α} {k : α → Action β} (hx : C x) (hk : ∀ a, C (k a)) : C (x >>= k) :=
  h.bindOfResult hx fun _ a _ _ ↦ hk a

theorem lasting : Lasting C where
  pure := h.pure
  bind := h.bind

theorem map (f : α → β) {x : Action α} (hx : C x) : C (f <$> x) := h.lasting.map f hx

omit h in
theorem ite {p : Prop} [Decidable p] {x y : Action α} (hx : C x) (hy : C y) :
    C (if p then x else y) := by
  split
  · exact hx
  · exact hy

theorem label? (o : Occurrence) : C (label? o) := h.labelWith false o

theorem label (o : Occurrence) : C (label o) := h.bind (h.labelWith true o) fun _ ↦ h.pure _

/-! ## Transcribers -/

variable (config : Config) (o : Occurrence)

theorem paragraph (parts : Parts) : C (Render.paragraph config o parts) := by
  refine h.bind (h.check _) fun _ ↦ ite ?_ (h.pure _)
  exact h.bind (h.label? o) fun _ ↦ h.bind (h.check _) fun _ ↦ h.pure _

theorem plainList (kind : ListKind) (contents : String) : C (Render.plainList o kind contents) :=
  h.bind (h.check _) fun _ ↦ h.ofExcept _

theorem item (checkbox : Option Checkbox) (counter : Option Int) (parts : Parts) :
    C (Render.item o checkbox counter parts) := by
  refine h.bind (h.ask fun _ _ ↦ rfl) fun _ ↦ ?_
  exact h.bind (h.check _) fun _ ↦ h.bind (h.check _) fun _ ↦ h.pure _

theorem languageOf (b : CodeBlock) : C (Render.languageOf config b) := by
  unfold Render.languageOf
  split
  · exact h.pure _
  · exact h.pure _
  · exact h.bind (h.nameOfLanguage config _) fun _ ↦ h.pure _

theorem codeBlock (b : CodeBlock) (caption : String) : C (Render.codeBlock config o b caption) := by
  refine h.bind (h.check _) fun _ ↦ h.bind (h.ofExcept _) fun _ ↦ ?_
  refine h.bind (h.ask fun _ _ ↦ rfl) fun _ ↦ h.bind (h.check _) fun _ ↦ ?_
  refine h.bind (h.languageOf config b) fun _ ↦ ?_
  exact h.bind (h.label? o) fun _ ↦ h.bind (h.check _) fun _ ↦ h.pure _

theorem table (hrelease : Latex.isLong config o.node = true → C (release o.place)) (parts : Parts) :
    C (Render.table config o parts) := by
  refine h.bind (h.ofExcept _) fun _ ↦ h.bind (h.check _) fun _ ↦ h.bind (h.check _) fun _ ↦ ?_
  refine h.bind (h.label? o) fun _ ↦ ?_
  split
  · next hlong => exact h.bind (hrelease hlong) fun _ ↦ h.pure _
  · exact h.pure _

theorem tableCell (contents : String) : C (Render.tableCell config o contents) := by
  refine h.bind (h.ask fun _ _ ↦ rfl) fun row ↦ h.bind (h.ask fun _ _ ↦ rfl) fun table ↦ ?_
  split
  · refine ite (h.fail _) (h.bind (h.ofExcept _) fun g ↦ ?_)
    split
    · exact h.pure _
    · split
      · exact h.fail _
      · exact h.bind (h.check _) fun _ ↦ h.pure _
  · exact h.fail _

theorem markup (kind text : String) : C (Render.markup config kind text) := by
  refine h.bind (h.check _) fun _ ↦ ?_
  split
  · exact h.pure _
  · exact h.fail _

theorem code (kind value : String) : C (Render.code config o kind value) :=
  h.bind (h.check _) fun _ ↦ h.markup config _ _

theorem quotes (origin : Origin) (text : String) : C (Render.quotes config origin text) := by
  unfold Render.quotes
  split
  · exact h.pure _
  · exact h.bind (h.warn _) fun _ ↦ h.pure _
  · exact h.fail _

theorem text (content : String) : C (Render.text config o content) := by
  refine h.bind (h.ask fun _ _ ↦ rfl) fun _ ↦ ite (h.pure _) (h.bind (h.check _) fun _ ↦ ?_)
  exact ite (h.quotes config _ _) (h.pure _)

theorem byMode (inside outside : String) : C (Render.byMode inside outside) :=
  h.ask fun _ _ ↦ rfl

theorem labelOf : C (Render.labelOf o) :=
  h.bind (h.label o) fun _ ↦ h.pure _

theorem image (path : String) (attributes : Attributes) : C (Render.image config path attributes) :=
  h.bind (h.check _) fun _ ↦ h.pure _

theorem link (kind path contents : String) : C (Render.link config o kind path contents) := by
  unfold Render.link
  dsimp only
  refine ite ?_ (ite ?_ ?_)
  · exact h.bind (h.read fun _ _ ↦ rfl) fun _ ↦ h.pure _
  · exact h.bind (h.read fun _ _ ↦ rfl) fun _ ↦ h.bind (h.label _) fun _ ↦ h.pure _
  · refine h.bind (h.check _) fun _ ↦ ite ?_ (h.bind (h.check _) fun _ ↦ h.pure _)
    exact h.bind (h.ask fun _ _ ↦ rfl) fun _ ↦ h.image config _ _

theorem timestamp (value kind : String) : C (Render.timestamp config o value kind) :=
  h.bind (h.check _) fun _ ↦ h.pure _

theorem sectionOf (g : Heading) (parts : Parts) : C (Render.sectionOf config o g parts) :=
  h.bind (h.label o) fun _ ↦ h.bind (h.check _) fun _ ↦ h.ofExcept _

theorem heading (hroute : o.node.zone ≠ .body → ∀ text, C (route o.node.zone text (some o.place)))
    (g : Heading) (parts : Parts) : C (Render.heading config o g parts) := by
  rw [heading_eq]
  refine h.bind (h.sectionOf config o g parts) fun text ↦ ?_
  split
  · exact h.pure _
  · next hzone => exact h.bind (hroute hzone text) fun _ ↦ h.pure _

/-- What a node prints of its parts has the property, if what it does besides has it: to a slot, to
the rows of its table, or to the numbers of footnotes. -/
theorem transcribeElement {expand : Occurrence → Action String} (parts : Parts)
    (hroute : o.node.zone ≠ .body → ∀ text, C (route o.node.zone text (some o.place)))
    (hrelease : o.node.kind = .table → Latex.isLong config o.node = true → C (release o.place))
    (hrow : o.node.kind = .tableRow → C (Render.tableRow config o parts.contents))
    (hreference : ∀ label, o.node.element = .footnoteReference label →
      C (Render.footnoteReference expand o label parts.contents)) :
    C (Render.transcribeElement config expand o parts) := by
  unfold Render.transcribeElement
  dsimp only
  split
  · exact h.pure _
  · exact h.heading config o hroute _ parts
  · exact h.paragraph config o parts
  · exact h.map _ (h.plainList o _ _)
  · exact h.map _ (h.item o _ _ parts)
  · next he =>
    exact h.map _ (h.table config o (hrelease (by rw [Node.kind, he, Element.kind])) parts)
  · next he => exact hrow (by rw [Node.kind, he, Element.kind])
  · exact h.tableCell config o _
  · exact h.pure _
  · exact h.bind (h.label? o) fun _ ↦ h.pure _
  · exact h.map _ (h.codeBlock config o _ _)
  · exact h.pure _
  · exact h.bind (h.label? o) fun _ ↦ h.pure _
  · exact h.pure _
  · exact h.pure _
  · exact h.pure _
  · exact h.pure _
  · exact h.map _ (h.text config o _)
  · exact h.map _ (h.markup config _ _)
  · exact h.map _ (h.markup config _ _)
  · exact h.map _ (h.markup config _ _)
  · exact h.map _ (h.markup config _ _)
  · exact h.map _ (h.code config o _ _)
  · exact h.map _ (h.code config o _ _)
  · exact h.map _ (h.link config o _ _ _)
  · exact h.map _ (h.image config _ _)
  · next he => exact h.map _ (hreference _ he)
  · exact h.map _ (h.timestamp config o _ _)
  · exact h.map _ (h.byMode _ _)
  · exact h.map _ (h.byMode _ _)
  · exact h.map _ (h.byMode _ _)
  · exact h.map _ (h.byMode _ _)
  · exact h.map _ (h.byMode _ _)
  · exact h.pure _
  · exact h.map _ (h.labelOf o)
  · exact h.bind (h.labelOf o) fun _ ↦ h.pure _
  · exact h.pure _
  all_goals exact h.fail _

/-! ## Walks -/

/-- Printing a proper tree has the property if it does not end below a node and all occurrences that
are printed have it when they are entered and when they are printed themselves. -/
theorem node {expand : Occurrence → Action String}
    (hwithin : ∀ {α : Type} (o : Occurrence) {x : Action α}, C x → C (Context.within o x))
    {n : Node} (hn : n.isProper = true) {p : Place}
    (hslot : ∀ o ∈ n.printed p, C (Render.reserveSlot o))
    (hself : ∀ o ∈ n.printed p, ∀ parts, C (Render.transcribeElement config expand o parts)) :
    C (Render.node config expand p n) := by
  induction n using Node.induction generalizing p with
  | step n ih =>
    have hbelow := ((Node.isProper_iff n).mp hn).2
    have hall : ∀ b, (b = .caption → printsCaption n = true) →
        C (Render.all config expand p b 0 (n.branch b)) := by
      intro b hb
      refine h.lasting.all config (hbelow b) fun k m hk ↦ ?_
      have hm := List.mem_of_getElem? hk
      have hprinted : ∀ o ∈ m.printed (p.down b k), o ∈ n.printed p := fun o ho ↦
        Node.mem_printed_iff.mpr (.inr ⟨b, Node.mem_printedOn_iff.mpr ⟨hb, k, m, hk, ho⟩⟩)
      rw [Nat.zero_add]
      exact ih b m hm (hbelow b m hm) (fun o ho ↦ hslot o (hprinted o ho))
        fun o ho ↦ hself o (hprinted o ho)
    have hprinted : ⟨p, n⟩ ∈ n.printed p := Node.mem_printed_iff.mpr (.inl rfl)
    rw [node_eq hn]
    refine h.bind (hslot _ hprinted) fun _ ↦ ?_
    refine h.bind (h.lasting.secondaryParts config ⟨p, n⟩ fun b _ ↦ hall b) fun _ ↦ ?_
    refine h.bind (hwithin ⟨p, n⟩ (hall .children (by simp))) fun _ ↦ ?_
    exact hself _ hprinted _

/-- Printing the text of a footnote's definition has the property if printing what stands below the
definition has. -/
theorem definitionText {depth : Nat} {d : Occurrence} (hd : d.node.isProper = true)
    (hall : C (Render.all config (Render.definitionText config depth) d.place .children 0
      d.node.children)) : C (Render.definitionText config (depth + 1) d) := by
  rw [definitionText_succ hd]
  exact h.bind hall fun _ ↦ h.pure _

end Action.Plain

namespace Action.Closed

variable (h : Closed ix C) {α β : Type} (config : Config) (o : Occurrence)

include h

theorem tableRow (contents : String) : C (Render.tableRow config o contents) := by
  refine h.bind (h.ask fun _ _ ↦ rfl) fun table ↦ ?_
  cases table with
  | none => exact h.fail _
  | some table =>
    refine h.bind (h.ofExcept _) fun g ↦ ?_
    dsimp only
    split
    · exact h.pure _
    · exact Plain.ite (h.bind (h.hold _ _) fun _ ↦ h.pure _) (h.pure _)

variable {expand : Occurrence → Action String} (hexpand : ∀ e ∈ ix.footnotes, C (expand e.2))

include hexpand

theorem footnoteReference (label : Option String) (contents : String) :
    C (Render.footnoteReference expand o label contents) := by
  unfold Render.footnoteReference
  split
  · refine h.bind (h.reference _) fun _ ↦ ?_
    exact h.bind (h.nextFootnote _) fun _ ↦ h.pure _
  · next label _ =>
    refine h.bind (h.check _) fun _ ↦ h.bind (h.nextFootnote _) fun _ ↦ ?_
    refine Plain.ite (h.pure _) (Plain.ite ?_ (h.pure _))
    refine h.bindOfResult (h.read fun _ _ ↦ rfl) fun c d hc hd ↦ ?_
    subst hc
    have hd : c.references.index.footnote label (some o.node.origin) = .ok d := hd
    exact h.bind (hexpand _ (LinkIndex.mem_footnotes_of_footnote hd)) fun _ ↦ h.pure _

theorem transcribeElement (ho : o.Admits C) (parts : Parts) :
    C (Render.transcribeElement config expand o parts) :=
  h.toPlain.transcribeElement config o parts ho.route (fun _ _ ↦ ho.release)
    (fun _ ↦ h.tableRow config o _) fun label _ ↦ h.footnoteReference o hexpand label _

omit hexpand in
theorem reserveSlot (ho : o.Admits C) : C (Render.reserveSlot o) := by
  unfold Render.reserveSlot
  split
  · exact h.pure _
  · next hzone => exact ho.reserve hzone

/-- Printing a proper tree has the property if all occurrences that are printed let it. -/
theorem node {n : Node} (hn : n.isProper = true) {p : Place}
    (hadmits : ∀ o ∈ n.printed p, o.Admits C) : C (Render.node config expand p n) :=
  h.toPlain.node config h.within hn (fun o ho ↦ h.reserveSlot o (hadmits o ho))
    fun o ho ↦ h.transcribeElement config o hexpand (hadmits o ho)

omit hexpand in
/-- Printing the definition of a footnote has the property if all occurrences in definitions that
are printed let it. -/
theorem definitionText (hproper : ∀ e ∈ ix.footnotes, e.2.node.isProper = true)
    (hadmits : ∀ e ∈ ix.footnotes, ∀ o ∈ e.2.node.printedOn e.2.place .children, o.Admits C)
    (depth : Nat) : ∀ e ∈ ix.footnotes, C (Render.definitionText config depth e.2) := by
  induction depth with
  | zero => exact fun _ _ ↦ h.pure _
  | succ depth ih =>
    intro e he
    have hbelow := ((Node.isProper_iff e.2.node).mp (hproper e he)).2 .children
    refine h.toPlain.definitionText config (hproper e he) ?_
    refine h.lasting.all config hbelow fun k m hk ↦ ?_
    refine h.node config ih (hbelow m (List.mem_of_getElem? hk)) fun o ho ↦ hadmits e he o ?_
    rw [Nat.zero_add] at ho
    exact Node.mem_printedOn_iff.mpr ⟨by simp, k, m, hk, ho⟩

end Action.Closed

end Typeset

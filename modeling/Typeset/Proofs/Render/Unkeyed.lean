import Typeset.Proofs.Assembled
import Typeset.Proofs.Render.Parts
import Typeset.Proofs.Tree.UnkeyedIndex

/-!
# Printing a tree without its empty keys

The walk over a tree and that over the same tree without its empty keys are in step: whatever the
context of the first one is, the second one starts from this context without empty keys, gives the
same results and leaves the same context without empty keys.
-/

namespace Typeset

open Action Context Node Render

/-- The context with all occurrences in it without empty keys. -/
def Context.unkey (c : Context) : Context :=
  { c with
    references := ⟨c.references.places, c.references.index.unkey⟩
    ancestors := c.ancestors.map Occurrence.unkey }

/-! ## What is asked of a context -/

section

variable (c : Context)

theorem Context.inMath_unkey : c.unkey.inMath = c.inMath := by
  rw [inMath, inMath, unkey, List.any_map]
  exact congrArg (fun p ↦ List.any c.ancestors p) (funext fun o ↦ by
    rw [Function.comp, o.node_unkey, kind_unkey])

theorem Context.parent?_unkey : c.unkey.parent? = c.parent?.map Occurrence.unkey :=
  List.head?_map ..

theorem Context.table?_unkey : c.unkey.table? = c.table?.map Occurrence.unkey := by
  rw [table?, table?, unkey, List.find?_map]
  refine congrArg (fun p ↦ Option.map Occurrence.unkey (List.find? p c.ancestors))
    (funext fun o ↦ ?_)
  rw [Function.comp, o.node_unkey, kind_unkey]

theorem Render.itemDepth?_unkey : itemDepth? c.unkey = itemDepth? c := by
  have hordered : ∀ o : Occurrence, o.unkey.node.isOrderedList = o.node.isOrderedList :=
    fun o ↦ isOrderedList_unkey o.node
  have hdepth : c.unkey.orderedDepth = c.orderedDepth := by
    rw [orderedDepth, orderedDepth, Context.unkey, List.countP_map]
    exact congrArg (fun p ↦ List.countP p c.ancestors) (funext hordered)
  have hany : (c.parent?.map Occurrence.unkey).any (fun o ↦ o.node.isOrderedList) =
      c.parent?.any fun o ↦ o.node.isOrderedList := by
    cases c.parent? with
    | none => rfl
    | some o => exact hordered o
  rw [itemDepth?, itemDepth?, Context.parent?_unkey, hany, hdepth]

theorem Render.imageAttributes_unkey : imageAttributes c.unkey = imageAttributes c := by
  rw [imageAttributes, imageAttributes, Context.parent?_unkey]
  cases c.parent? with
  | none => rfl
  | some o =>
    rw [Option.map_some]
    dsimp only [Occurrence.unkey]
    rw [kind_unkey, attributes_unkey]

end

/-! ## What is printed side by side -/

section

variable (n : Node) (ns : List Node) (outputs : List (Option String))

theorem Node.rawOutput?_unkey (inMath : Bool) :
    n.unkey.rawOutput? inMath = n.rawOutput? inMath := by
  simp only [rawOutput?, element_unkey, loose?_unkey]
  cases n.element <;> rfl

theorem Node.rawFault?_unkey (inMath : Bool) : n.unkey.rawFault? inMath = n.rawFault? inMath := by
  simp only [rawFault?, element_unkey, loose?_unkey]
  cases n.element <;> rfl

theorem Node.spaceFault?_unkey : n.unkey.spaceFault? = n.spaceFault? := by
  rw [spaceFault?, spaceFault?, isLooselyTrue_unkey, blankFault?, blankFault?, NodeInfo.loose?,
    NodeInfo.loose?, loose_unkey]

theorem Node.outputsFault?_unkey (inMath : Bool) (pieces : Nat) :
    outputsFault? inMath pieces (ns.map unkey) outputs =
      outputsFault? inMath pieces ns outputs := by
  induction ns generalizing pieces outputs with
  | nil => rfl
  | cons n ns ih =>
    rcases outputs with _ | ⟨_ | _, outputs⟩
    · rfl
    · exact ih outputs pieces
    · rw [List.map_cons, outputsFault?, outputsFault?, rawOutput?_unkey, postBlank_unkey]
      simp only [ih]

theorem Node.listKindFault?_unkey : n.unkey.listKindFault? = n.listKindFault? := by
  rw [listKindFault?, listKindFault?, loose?_unkey]

theorem Node.counterFault?_unkey : n.unkey.counterFault? = n.counterFault? := by
  rw [counterFault?, counterFault?, loose?_unkey]

theorem Node.keyFieldFault?_unkey (field : String) :
    n.unkey.keyFieldFault? field = n.keyFieldFault? field := by
  rw [keyFieldFault?, keyFieldFault?, loose?_unkey]

theorem Node.referencesFault?_unkey : n.unkey.referencesFault? = n.referencesFault? := by
  rw [referencesFault?, referencesFault?, loose?_unkey]

theorem Node.declaredLabels_unkey (labels : List String) :
    n.unkey.declaredLabels labels = n.declaredLabels labels := by
  rw [declaredLabels, declaredLabels, loose?_unkey]

theorem Render.spaced_unkey : spaced (ns.map unkey) outputs = spaced ns outputs := by
  induction ns generalizing outputs with
  | nil => rfl
  | cons n ns ih =>
    rcases outputs with _ | ⟨_ | _, outputs⟩
    · rfl
    · exact ih outputs
    · rw [List.map_cons, spaced, spaced, ih, blankAfter, blankAfter, isBlock_unkey, postBlank_unkey]

theorem Render.printsCaption_unkey : printsCaption n.unkey = printsCaption n := by
  rw [printsCaption, printsCaption, isFigure_unkey, kind_unkey]

theorem Render.captionFault?_unkey : captionFault? n.unkey = captionFault? n := by
  rw [captionFault?, captionFault?, hasCaption_unkey, figureFault?_unkey, printsCaption_unkey,
    secondaryFault?_unkey]

end

/-! ## What is printed of a table -/

namespace Latex

variable {config : Config} (t : Node)

theorem isLong_unkey : isLong config t.unkey = isLong config t := by
  rw [isLong, isLong, tableEnvironment, tableEnvironment, attributes_unkey]

theorem tableOpening_unkey (g : Geometry) :
    tableOpening config g t.unkey = tableOpening config g t := by
  simp only [tableOpening, tableEnvironment, attributes_unkey, Table.columnSpec_unkey]
  rfl

theorem tableText_unkey (g : Geometry) (contents caption : String) (label : Option String) :
    tableText config g t.unkey contents caption label =
      tableText config g t contents caption label := by
  simp only [tableText, tableOpening_unkey, tableEnvironment, floatOf,
    attributes_unkey]
  rfl

theorem longTableText_unkey (g : Geometry) (contents caption : String) (label : Option String)
    (rows : List String) : longTableText config g t.unkey contents caption label rows =
      longTableText config g t contents caption label rows := by
  simp only [longTableText, tableOpening_unkey]

theorem tableOpeningFault?_unkey (g : Geometry) :
    tableOpeningFault? config g t.unkey = tableOpeningFault? config g t := by
  simp only [tableOpeningFault?, nameFault?, Table.columnSpecFault?_unkey,
    attributes_unkey]

theorem tableFloatFault?_unkey :
    tableFloatFault? config t.unkey = tableFloatFault? config t := by
  simp only [tableFloatFault?, nameFault?, isLong_unkey, floatOf,
    attributes_unkey]
  rfl

theorem rowText_unkey (g : Geometry) (index cells : Nat) (contents : String) :
    rowText config g t.unkey index cells contents =
      rowText config g t index cells contents := by
  simp only [rowText, usesBooktabs, isLong_unkey, attributes_unkey]

theorem cellText_unkey (g : Geometry) (index column : Nat) (contents : String) :
    cellText config g t.unkey index column contents =
      cellText config g t index column contents := by
  simp only [cellText, footerStyle, attributes_unkey]

theorem cellFault?_unkey (g : Geometry) (index column : Nat) :
    cellFault? config g t.unkey index column =
      cellFault? config g t index column := by
  simp only [cellFault?, footerStyle, attributes_unkey]

end Latex

/-! ## Actions in step -/

/-- The second action does without empty keys what the first one does with them, up to a change of
the result. -/
def Action.InStep {α β : Type} (f : α → β) (x : Action α) (y : Action β) : Prop :=
  ∀ c, y c.unkey = ((x c).1.map f, (x c).2.unkey)

namespace Action.InStep

variable {α β γ δ : Type} {f : α → β} {g : γ → δ} {x : Action α} {y : Action β}

theorem pureOf {a : α} {b : β} (h : b = f a) : InStep f (Pure.pure a) (Pure.pure b) := by
  intro c
  rw [h]
  rfl

theorem pure (a : α) : InStep id (Pure.pure a) (Pure.pure a) := pureOf rfl

theorem fail (e : Failure) : InStep f (Action.fail e) (Action.fail e) := fun _ ↦ rfl

theorem map_id {ε : Type} (r : Except ε α) : r.map id = r := by cases r <;> rfl

/-- What only reads the context is in step if the same is read there. -/
theorem read {r : Context → Except Failure α} {s : Context → Except Failure β}
    (h : ∀ c, s c.unkey = (r c).map f) : InStep f (fun c ↦ (r c, c)) fun c ↦ (s c, c) := by
  intro c
  dsimp only
  rw [h]

theorem readSame {r s : Context → Except Failure α} (h : ∀ c, s c.unkey = r c) :
    InStep id (fun c ↦ (r c, c)) fun c ↦ (s c, c) := read fun c ↦ by rw [h, map_id]

theorem askOf {r : Context → α} {s : Context → β} (h : ∀ c, s c.unkey = f (r c)) :
    InStep f (Action.ask r) (Action.ask s) := by
  intro c
  rw [ask_apply, ask_apply, h]
  rfl

theorem ask {r s : Context → α} (h : ∀ c, s c.unkey = r c) :
    InStep id (Action.ask r) (Action.ask s) := askOf h

theorem ofExcept (r : Except Failure α) : InStep id (Action.ofExcept r) (Action.ofExcept r) :=
  readSame fun _ ↦ rfl

theorem check (fault : Option Failure) : InStep id (Action.check fault) (Action.check fault) := by
  cases fault with
  | none => exact pure ()
  | some e => exact fail e

theorem change {r s : Context → Context} (h : ∀ c, s c.unkey = (r c).unkey) :
    InStep id (Action.change r) (Action.change s) := by
  intro c
  rw [change_apply, change_apply, h]
  rfl

theorem bindOf {k : α → Action γ} {l : β → Action δ} (hx : InStep f x y)
    (hk : ∀ a, InStep g (k a) (l (f a))) : InStep g (x >>= k) (y >>= l) := by
  intro c
  have hfirst := hx c
  rw [bind_apply, bind_apply, hfirst]
  rcases x c with ⟨e | a, d⟩
  · rfl
  · exact hk a d

theorem bind {x y : Action α} {k : α → Action γ} {l : α → Action δ} (hx : InStep id x y)
    (hk : ∀ a, InStep g (k a) (l a)) : InStep g (x >>= k) (y >>= l) := hx.bindOf hk

theorem map {x y : Action α} (g : α → γ) (hx : InStep id x y) : InStep id (g <$> x) (g <$> y) := by
  rw [map_eq_pure_bind, map_eq_pure_bind]
  exact hx.bind fun a ↦ pure (g a)

theorem ite {p : Prop} [Decidable p] {x x' : Action α} {y y' : Action β} (hx : InStep f x y)
    (hy : InStep f x' y') : InStep f (if p then x else x') (if p then y else y') := by
  split
  · exact hx
  · exact hy

/-! ## Changes of the context -/

theorem warn (message : String) : InStep id (Context.warn message) (Context.warn message) :=
  change fun _ ↦ rfl

theorem reserve (z : Zone) (p : Place) : InStep id (Context.reserve z p) (Context.reserve z p) := by
  intro c
  rw [Context.reserve, Context.reserve, show c.unkey.buffers = c.buffers from rfl]
  cases c.buffers.get? z <;> rfl

theorem route (z : Zone) (text : String) (p : Option Place) :
    InStep id (Context.route z text p) (Context.route z text p) := by
  intro c
  rw [Context.route, Context.route, show c.unkey.buffers = c.buffers from rfl,
    show c.unkey.reservations = c.reservations from rfl]
  cases c.buffers.get? z with
  | none => rfl
  | some chunks =>
    dsimp only
    cases p.bind fun p ↦ (c.reservations.lookup p).map fun slot ↦ (p, slot) with
    | none => rfl
    | some held =>
      dsimp only
      split <;> rfl

theorem nameOfLanguage (config : Config) (language : String) :
    InStep id (Context.nameOfLanguage config language)
      (Context.nameOfLanguage config language) := by
  intro c
  rw [Context.nameOfLanguage, Context.nameOfLanguage, show c.unkey.languages = c.languages from rfl]
  cases c.languages.lookup language <;> rfl

theorem nextFootnote (label : Datum) :
    InStep id (Context.nextFootnote label) (Context.nextFootnote label) := by
  intro c
  rw [Context.nextFootnote, Context.nextFootnote, show c.unkey.footnotes = c.footnotes from rfl]
  cases c.footnotes.lookup label.key <;> rfl

theorem push (o : Occurrence) : InStep id (Context.push o) (Context.push o.unkey) :=
  change fun _ ↦ rfl

theorem pop : InStep Occurrence.unkey Context.pop Context.pop := by
  intro c
  rw [Context.pop, Context.pop, show c.unkey.ancestors = c.ancestors.map Occurrence.unkey from rfl]
  cases c.ancestors <;> rfl

theorem reference (p : Place) : InStep id (Context.reference p) (Context.reference p) := by
  intro c
  rw [Context.reference, Context.reference, References.reference, References.reference,
    show c.unkey.references.places = c.references.places from rfl]
  cases c.references.places.idxOf? p <;> rfl

theorem hold (p : Place) (row : String) : InStep id (Context.hold p row) (Context.hold p row) :=
  change fun _ ↦ rfl

theorem release (p : Place) : InStep id (Context.release p) (Context.release p) := fun _ ↦ rfl

/-! ## Labels -/

variable {config : Config} {o : Occurrence}

/-- A label that depends on a key does not depend on an empty name. -/
theorem labelWith {force : Bool}
    (h : force = true ∨ (o.node.isFigure || labelledKinds.contains o.node.kind) = true) :
    InStep id (Context.labelWith force o) (Context.labelWith force o.unkey) := by
  have hlabel : ∀ key, References.labelOf o.unkey.node key = References.labelOf o.node key := by
    intro key
    rw [References.labelOf, References.labelOf, o.node_unkey, labelPrefix_unkey]
  have hreferred : InStep id
      (do return some (References.labelOf o.node (← Context.reference o.place)))
      (do return some (References.labelOf o.unkey.node (← Context.reference o.unkey.place))) :=
    (reference o.place).bind fun token ↦ pureOf (by rw [hlabel]; rfl)
  have hcaption : o.unkey.node.hasCaption = o.node.hasCaption := hasCaption_unkey o.node
  rw [labelWith_eq_steps, labelWith_eq_steps, show o.unkey.node.labelFault? = _ from
    labelFault?_unkey o.node]
  refine (check _).bind fun _ ↦ ?_
  rw [labelFromKey, labelFromKey]
  rcases o.node.explicitKey_unkey_cases with heq | ⟨hnone, hempty, hspares⟩
  · have hkey : o.unkey.node.explicitKey = o.node.explicitKey := heq
    rw [hkey, hcaption]
    cases o.node.explicitKey with
    | none => exact ite hreferred (pure none)
    | some key => exact ite hreferred (pureOf (by rw [hlabel]; rfl))
  · have hkey : o.unkey.node.explicitKey = none := hnone
    -- an empty key gives a reference, and so does no key: the caption asks for a label, too
    have hforced : (o.node.hasCaption || force) = true := by
      rcases h with rfl | h
      · exact Bool.or_true _
      · rw [sparesName, h, Bool.not_true, Bool.or_false] at hspares
        rw [hspares, Bool.true_or]
    rw [hkey, hempty, hcaption]
    dsimp only
    rw [hforced]
    exact hreferred

theorem label? (h : (o.node.isFigure || labelledKinds.contains o.node.kind) = true) :
    InStep id (Context.label? o) (Context.label? o.unkey) := labelWith (.inr h)

theorem label (o : Occurrence) : InStep id (Context.label o) (Context.label o.unkey) :=
  (labelWith (.inl rfl)).bind fun _ ↦ pure _

/-! ## Blocks -/

theorem heading (h : Heading) (parts : Parts) :
    InStep id (Render.heading config o h parts)
      (Render.heading config o.unkey { h with customId := h.customId.filter (!·.isEmpty) }
        parts) := by
  unfold Render.heading
  rw [o.node_unkey, zone_unkey, loose?_unkey]
  refine (label o).bind fun l ↦ (check _).bind fun _ ↦ (ofExcept _).bind fun text ↦ ?_
  exact ite (pure _) ((route _ _ _).bind fun _ ↦ pure _)

theorem paragraph (parts : Parts) :
    InStep id (Render.paragraph config o parts) (Render.paragraph config o.unkey parts) := by
  unfold Render.paragraph
  rw [o.node_unkey, isFigure_unkey, figureFault?_unkey, attributes_unkey]
  refine (check _).bind fun _ ↦ ?_
  split
  · next h =>
    refine (label? (by rw [h, Bool.true_or])).bind fun _ ↦ ?_
    exact (check _).bind fun _ ↦ pure _
  · exact pure _

theorem plainList (kind : ListKind) (contents : String) :
    InStep id (Render.plainList o kind contents) (Render.plainList o.unkey kind contents) := by
  unfold Render.plainList
  rw [o.node_unkey, listKindFault?_unkey, attributes_unkey]
  exact (check _).bind fun _ ↦ ofExcept _

theorem item (checkbox : Option Checkbox) (counter : Option Int) (parts : Parts) :
    InStep id (Render.item o checkbox counter parts)
      (Render.item o.unkey checkbox counter parts) := by
  unfold Render.item
  rw [o.node_unkey, counterFault?_unkey, keyFieldFault?_unkey]
  refine (ask itemDepth?_unkey).bind fun depth ↦ ?_
  exact (check _).bind fun _ ↦ (check _).bind fun _ ↦ pure _

theorem languageOf (b : CodeBlock) :
    InStep id (Render.languageOf config b) (Render.languageOf config b) := by
  unfold Render.languageOf
  split
  · exact pure _
  · exact pure _
  · exact (nameOfLanguage _ _).bind fun _ ↦ pure _

theorem codeBlock (b : CodeBlock) (hkind : o.node.kind = .codeBlock) (caption : String) :
    InStep id (Render.codeBlock config o b caption)
      (Render.codeBlock config o.unkey b caption) := by
  unfold Render.codeBlock
  rw [o.node_unkey, referencesFault?_unkey, keyFieldFault?_unkey, declaredLabels_unkey,
    origin_unkey, CodeEntry.ofOccurrence_unkey]
  refine (check _).bind fun _ ↦ (ofExcept _).bind fun _ ↦ ?_
  refine (ask fun _ ↦ rfl).bind fun _ ↦ (check _).bind fun _ ↦ (languageOf b).bind fun _ ↦ ?_
  refine (label? ?_).bind fun _ ↦ (check _).bind fun _ ↦ pure _
  rw [hkind]
  exact Bool.or_true _

theorem table (hkind : o.node.kind = .table) (parts : Parts) :
    InStep id (Render.table config o parts) (Render.table config o.unkey parts) := by
  unfold Render.table
  rw [o.node_unkey, Table.geometry?_unkey]
  refine (ofExcept _).bind fun g ↦ ?_
  rw [Latex.tableOpeningFault?_unkey, Latex.tableFloatFault?_unkey, Latex.isLong_unkey]
  refine (check _).bind fun _ ↦ (check _).bind fun _ ↦ (label? ?_).bind fun l ↦ ite ?_ ?_
  · rw [hkind]
    exact Bool.or_true _
  · exact (release o.place).bind fun rows ↦
      pureOf (Latex.longTableText_unkey o.node g parts.contents parts.caption l rows)
  · exact pureOf (Latex.tableText_unkey o.node g parts.contents parts.caption l)

theorem tableRow (contents : String) :
    InStep id (Render.tableRow config o contents) (Render.tableRow config o.unkey contents) := by
  unfold Render.tableRow
  rw [o.node_unkey, o.place_unkey, origin_unkey, children_unkey, List.length_map]
  refine (askOf Context.table?_unkey).bindOf fun t ↦ ?_
  cases t with
  | none => exact fail _
  | some t =>
    rw [Option.map_some]
    dsimp only
    rw [t.node_unkey, t.place_unkey, Table.geometry?_unkey]
    refine (ofExcept _).bind fun g ↦ ?_
    cases (o.place.childIndex? t.place).bind g.indexOf? with
    | none => exact pure _
    | some index =>
      dsimp only
      rw [Latex.isLong_unkey, Latex.rowText_unkey]
      exact ite ((hold t.place _).bind fun _ ↦ pure _) (pure _)

theorem tableCell (contents : String) :
    InStep id (Render.tableCell config o contents) (Render.tableCell config o.unkey contents) := by
  unfold Render.tableCell
  rw [o.node_unkey, o.place_unkey, origin_unkey]
  refine (askOf Context.parent?_unkey).bindOf fun r ↦ (askOf Context.table?_unkey).bindOf fun t ↦ ?_
  cases r with
  | none => exact fail _
  | some r =>
    cases t with
    | none => exact fail _
    | some t =>
      rw [Option.map_some, Option.map_some]
      dsimp only
      rw [r.node_unkey, r.place_unkey, t.node_unkey, t.place_unkey, kind_unkey,
        Table.geometry?_unkey]
      refine ite (fail _) ((ofExcept _).bind fun g ↦ ?_)
      cases (r.place.childIndex? t.place).bind g.indexOf? with
      | none => exact pure _
      | some index =>
        cases o.place.childIndex? r.place with
        | none => exact fail _
        | some column =>
          dsimp only
          rw [Latex.cellFault?_unkey, Latex.cellText_unkey]
          exact (check _).bind fun _ ↦ pure _

/-! ## Inline objects -/

theorem markup (kind text : String) :
    InStep id (Render.markup config kind text) (Render.markup config kind text) := by
  refine (check _).bind fun _ ↦ ?_
  split
  · exact pure _
  · exact fail _

theorem quotes (origin : Origin) (text : String) :
    InStep id (Render.quotes config origin text) (Render.quotes config origin text) := by
  unfold Render.quotes
  split
  · exact pure _
  · exact (warn _).bind fun _ ↦ pure _
  · exact fail _

theorem byMode (inside outside : String) :
    InStep id (Render.byMode inside outside) (Render.byMode inside outside) :=
  ask fun c ↦ by rw [c.inMath_unkey]

theorem code (kind value : String) :
    InStep id (Render.code config o kind value) (Render.code config o.unkey kind value) := by
  unfold Render.code
  rw [o.node_unkey, textFieldFault?_unkey]
  exact (check _).bind fun _ ↦ markup _ _

theorem text (content : String) :
    InStep id (Render.text config o content) (Render.text config o.unkey content) := by
  unfold Render.text
  rw [o.node_unkey, textFieldFault?_unkey, origin_unkey]
  refine (ask Context.inMath_unkey).bind fun _ ↦ ite (pure _) ((check _).bind fun _ ↦ ?_)
  exact ite (quotes _ _) (pure _)

theorem labelOf (o : Occurrence) : InStep id (Render.labelOf o) (Render.labelOf o.unkey) :=
  (label o).bind fun _ ↦ pure _

theorem image (path : String) (attributes : Attributes) :
    InStep id (Render.image config path attributes) (Render.image config path attributes) :=
  (check _).bind fun _ ↦ pure _

theorem timestamp (value kind : String) :
    InStep id (Render.timestamp config o value kind)
      (Render.timestamp config o.unkey value kind) := by
  unfold Render.timestamp
  rw [o.node_unkey, textFieldFault?_unkey]
  exact (check _).bind fun _ ↦ pure _

/-- A reference to a node is printed by its element, of which no more than a custom id is taken. -/
theorem internalLink_unkey (t : Node) (label description : String) :
    Latex.internalLink t.unkey label description = Latex.internalLink t label description := by
  rw [Latex.internalLink, Latex.internalLink, element_unkey]
  cases t.element <;> rfl

theorem link (kind path contents : String) :
    InStep id (Render.link config o kind path contents)
      (Render.link config o.unkey kind path contents) := by
  unfold Render.link
  rw [o.node_unkey, loose?_unkey, origin_unkey, imageLinkFault?_unkey, isImageLink_unkey]
  refine ite ?_ (ite ?_ ?_)
  · exact (readSame fun c ↦ c.references.index.codeLine_unkey _ _).bind fun _ ↦ pure _
  · refine (read fun c ↦ c.references.index.resolveDatum_unkey _ _ _).bindOf fun target ↦ ?_
    exact (label target).bind fun l ↦ pureOf (internalLink_unkey target.node l _)
  · refine (check _).bind fun _ ↦ ite ?_ ((check _).bind fun _ ↦ pure _)
    exact (ask imageAttributes_unkey).bind fun _ ↦ image _ _

variable {expand expand' : Occurrence → Action String}

theorem footnoteReference (hexpand : ∀ e, InStep id (expand e) (expand' e.unkey))
    (l : Option String) (contents : String) :
    InStep id (Render.footnoteReference expand o l contents)
      (Render.footnoteReference expand' o.unkey l contents) := by
  unfold Render.footnoteReference
  rw [o.node_unkey, o.place_unkey, loose?_unkey, origin_unkey, children_unkey, List.isEmpty_map]
  split
  · exact (reference o.place).bind fun _ ↦ (nextFootnote _).bind fun _ ↦ pure _
  · refine (check _).bind fun _ ↦ (nextFootnote _).bind fun _ ↦ ?_
    refine ite (pure _) (ite ?_ (pure _))
    refine (read fun c ↦ c.references.index.footnote_unkey _ _).bindOf fun e ↦ ?_
    exact (hexpand e).bind fun _ ↦ pure _

/-- A node without empty keys prints what it prints with them. -/
theorem transcribeElement (hexpand : ∀ e, InStep id (expand e) (expand' e.unkey)) (parts : Parts) :
    InStep id (Render.transcribeElement config expand o parts)
      (Render.transcribeElement config expand' o.unkey parts) := by
  unfold Render.transcribeElement
  rw [o.node_unkey, element_unkey, attributes_unkey]
  cases he : o.node.element with
  | document => exact pure _
  | heading h => exact heading h parts
  | paragraph => exact paragraph parts
  | plainList kind => exact map _ (plainList kind _)
  | item checkbox counter => exact map _ (item checkbox counter parts)
  | table => exact map _ (table (by rw [kind, he]; rfl) parts)
  | tableRow => exact tableRow _
  | tableCell => exact tableCell _
  | quoteBlock => exact pure _
  | specialBlock =>
    refine (label? ?_).bind fun _ ↦ pure _
    rw [kind, he]
    exact Bool.or_true _
  | codeBlock b => exact map _ (codeBlock b (by rw [kind, he]; rfl) _)
  | exampleBlock => exact pure _
  | latexEnvironment =>
    refine (label? ?_).bind fun _ ↦ pure _
    rw [kind, he]
    exact Bool.or_true _
  | rawBlock => exact pure _
  | keyword => exact pure _
  | horizontalRule => exact pure _
  | footnoteDefinition => exact pure _
  | text content => exact map _ (text content)
  | bold => exact map _ (markup _ _)
  | italic => exact map _ (markup _ _)
  | underline => exact map _ (markup _ _)
  | strikeThrough => exact map _ (markup _ _)
  | code => exact map _ (code _ _)
  | verbatim => exact map _ (code _ _)
  | link => exact map _ (link _ _ _)
  | image => exact map _ (image _ _)
  | footnoteReference l => exact map _ (footnoteReference hexpand l _)
  | timestamp => exact map _ (timestamp _ _)
  | latexFragment => exact map _ (byMode _ _)
  | entity =>
    dsimp only [Element.unkey]
    rw [loose?_unkey]
    exact map _ (byMode _ _)
  | subscript => exact map _ (byMode _ _)
  | superscript => exact map _ (byMode _ _)
  | mathRun => exact map _ (byMode _ _)
  | lineBreak => exact pure _
  | target => exact map _ (labelOf o)
  | radioTarget => exact (labelOf o).bind fun _ ↦ pure _
  | exportSnippet => exact pure _
  | _ =>
    dsimp only [Element.unkey]
    rw [kind_unkey, origin_unkey]
    exact fail _

theorem transcribe (hexpand : ∀ e, InStep id (expand e) (expand' e.unkey)) (parts : Parts) :
    InStep id (Render.transcribe config expand o parts)
      (Render.transcribe config expand' o.unkey parts) := by
  refine (ask Context.inMath_unkey).bind fun inMath ↦ ?_
  rw [o.node_unkey, rawFault?_unkey, rawOutput?_unkey]
  refine (check _).bind fun _ ↦ ?_
  split
  · exact pure _
  · exact pure _
  · exact transcribeElement hexpand parts

/-! ## The walk -/

theorem enter (o : Occurrence) : InStep id (Render.enter o) (Render.enter o.unkey) := by
  unfold Render.enter
  rw [o.node_unkey, textFault?_unkey, zone_unkey]
  exact (check _).bind fun _ ↦ ite (pure _) (reserve _ _)

theorem checkOutputs (ns : List Node) (outputs : List (Option String)) :
    InStep id (Render.checkOutputs ns outputs)
      (Render.checkOutputs (ns.map Node.unkey) outputs) := by
  refine (ask Context.inMath_unkey).bind fun inMath ↦ ?_
  rw [outputsFault?_unkey]
  exact check _

theorem all {ns : List Node} (h : ∀ n ∈ ns, ∀ p,
      InStep id (Render.node config expand p n) (Render.node config expand' p n.unkey))
    (p : Place) (b : Branch) (i : Nat) : InStep id (Render.all config expand p b i ns)
      (Render.all config expand' p b i (ns.map Node.unkey)) := by
  induction ns generalizing i with
  | nil => exact pure _
  | cons n ns ih =>
    rw [List.map_cons, Render.all, Render.all, spaceFault?_unkey]
    refine (h n List.mem_cons_self _).bind fun _ ↦ (check _).bind fun _ ↦ ?_
    exact (ih (fun m hm ↦ h m (.tail _ hm)) _).bind fun _ ↦ pure _

/-- A tree without empty keys is walked like the tree. -/
theorem node (hexpand : ∀ e, InStep id (expand e) (expand' e.unkey)) (p : Place) (n : Node) :
    InStep id (Render.node config expand p n) (Render.node config expand' p n.unkey) := by
  induction n using Node.induction generalizing p with
  | step n ih =>
    have hbranch : ∀ b, InStep id (Render.all config expand p b 0 (n.branch b))
        (Render.all config expand' p b 0 (n.unkey.branch b)) := by
      intro b
      rw [branch_unkey]
      exact all (fun m hm q ↦ ih b m hm q) p b 0
    have hcheck : ∀ b outputs, InStep id (Render.checkOutputs (n.branch b) outputs)
        (Render.checkOutputs (n.unkey.branch b) outputs) := by
      intro b outputs
      rw [branch_unkey]
      exact checkOutputs _ _
    have hspaced : ∀ b outputs, spaced (n.unkey.branch b) outputs =
        spaced (n.branch b) outputs := by
      intro b outputs
      rw [branch_unkey, spaced_unkey]
    have hprints : printsCaption n.unkey = printsCaption n := printsCaption_unkey n
    rw [node_eq_steps, node_eq_steps, secondaryFault?_unkey, secondaryFault?_unkey,
      captionFault?_unkey, childrenFault?_unkey, hprints]
    refine (enter ⟨p, n⟩).bind fun _ ↦ (check _).bind fun _ ↦ ?_
    refine (hbranch .title).bind fun titles ↦ (hcheck .title titles).bind fun _ ↦ ?_
    refine (check _).bind fun _ ↦ ?_
    refine (hbranch .tag).bind fun tags ↦ (hcheck .tag tags).bind fun _ ↦ ?_
    refine (check _).bind fun _ ↦ (ite (hbranch .caption) (pure [])).bind fun captions ↦ ?_
    refine (hcheck .caption captions).bind fun _ ↦ (push ⟨p, n⟩).bind fun _ ↦ ?_
    refine (check _).bind fun _ ↦ ?_
    refine (hbranch .children).bind fun outputs ↦ (hcheck .children outputs).bind fun _ ↦ ?_
    refine pop.bindOf fun _ ↦ ?_
    have hparts : Parts.mk (Text.strip (spaced n.unkey.title titles))
        (Text.strip (spaced (n.unkey.tag.getD []) tags))
        (Text.strip (spaced (n.unkey.caption.getD []) captions))
        (spaced n.unkey.children outputs) =
          Parts.mk (Text.strip (spaced n.title titles)) (Text.strip (spaced (n.tag.getD []) tags))
            (Text.strip (spaced (n.caption.getD []) captions)) (spaced n.children outputs) := by
      congr 1
      · exact congrArg Text.strip (hspaced .title titles)
      · exact congrArg Text.strip (hspaced .tag tags)
      · exact congrArg Text.strip (hspaced .caption captions)
      · exact hspaced .children outputs
    rw [hparts]
    exact transcribe (o := ⟨p, n⟩) hexpand _

theorem definitionText (depth : Nat) (d : Occurrence) :
    InStep id (Render.definitionText config depth d)
      (Render.definitionText config depth d.unkey) := by
  induction depth generalizing d with
  | zero => exact pure _
  | succ depth ih =>
    rw [Render.definitionText, Render.definitionText, d.node_unkey, childrenFault?_unkey,
      children_unkey]
    refine (check _).bind fun _ ↦ (all (fun n _ p ↦ node ih p n) _ _ _).bind fun outputs ↦ ?_
    exact (checkOutputs _ _).bind fun _ ↦ pureOf (spaced_unkey _ _)

theorem occurrence (o : Occurrence) :
    InStep id (Render.occurrence config o) (Render.occurrence config o.unkey) :=
  (ask fun _ ↦ List.length_map _).bind fun depth ↦ node (definitionText depth) o.place o.node

end Action.InStep

/-! ## The document -/

/-- What is known before a document is printed is what is known without its empty keys. -/
theorem Node.start_unkey (doc : Node) : doc.unkey.start = doc.start.unkey := by
  have hindex : LinkIndex.empty.add (.ofRoot 0) doc.unkey =
      (LinkIndex.empty.add (.ofRoot 0) doc).unkey := LinkIndex.add_unkey .empty (.ofRoot 0) doc
  rw [start, start, References.add, References.add]
  exact congrArg (fun ix ↦ Context.ofReferences ⟨[], ix⟩) hindex

/-- A proper document without its empty keys is printed as it is with them. -/
theorem print_unkey {doc : Node} (hdoc : doc.isProper = true) (config : Config) :
    print config doc.unkey = print config doc := by
  have hproperties : doc.unkey.properties = doc.properties := by
    rw [properties, properties, element_unkey]
    cases doc.element <;> rfl
  have hstep : occurrence config ⟨.ofRoot 0, doc.unkey⟩ doc.unkey.start = _ :=
    (congrArg _ doc.start_unkey).trans (InStep.occurrence ⟨.ofRoot 0, doc⟩ doc.start)
  rw [print_eq hdoc, print_eq (MathRun.isProper_unkey hdoc), hstep, hproperties]
  rcases occurrence config ⟨.ofRoot 0, doc⟩ doc.start with ⟨e | body, c⟩
  · rfl
  · rfl

/-- A well-typed document without its empty keys is typeset as it is with them. -/
theorem typeset_unkey {doc : Node} (hdoc : doc.isWellTyped = true) (config : Config) :
    typeset config doc.unkey = typeset config doc := by
  have hproper : doc.isProper = true := isProper_of_isWellTyped hdoc
  obtain ⟨tree, htree⟩ := exists_prepare? hdoc
  have hunkeyed : prepare? doc.unkey = .ok tree.unkey := prepare?_unkey hproper htree
  rw [typeset, typeset, htree, hunkeyed]
  exact print_unkey (isProper_of_prepare? hproper htree) config

end Typeset

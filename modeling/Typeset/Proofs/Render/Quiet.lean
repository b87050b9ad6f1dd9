import Typeset.Proofs.Latex.Faultless
import Typeset.Proofs.Render.Gained

/-!
# Printing what leaves nothing behind

A footnote's definition prints nothing where it stands, but all that stands in it is printed there
first. Quiet nodes take no label, no number and no slot when they are printed, they warn of nothing
and nothing is wrong with them. So all that printing a quiet definition changes are the rows held
back for its own tables.
-/

namespace Typeset

open Action Context Latex Node Render

/-! ## Quiet nodes -/

/-- Printing the element needs nothing that is missing, and asks for no label or number that has to
be made: links to targets find them with keys of their own. -/
def Element.isQuiet (config : Config) (ix : LinkIndex) (origin : Origin) : Element → Bool
  | .heading _ | .codeBlock _ | .target _ | .radioTarget _ | .footnoteDefinition _
  | .footnoteReference _ => false
  | .text content =>
    !config.smartQuotes ||
      (Quotes.typographic? (Quotes.tableFor config.language config.quotes)
        (Latex.escapeText content)).isOk
  | .bold => (config.textMarkup.lookup "bold").isSome
  | .italic => (config.textMarkup.lookup "italic").isSome
  | .underline => (config.textMarkup.lookup "underline").isSome
  | .strikeThrough => (config.textMarkup.lookup "strike-through").isSome
  | .code _ => (config.textMarkup.lookup "code").isSome
  | .verbatim _ => (config.textMarkup.lookup "verbatim").isSome
  | .link kind path =>
    if kind = "coderef" then (ix.codeLine (.str path) (some origin)).isOk
    else
      !internalKinds.contains kind ||
        (ix.target? kind path).any fun target ↦ target.node.explicitKey.any (!·.isEmpty)
  | _ => true

/-- The node has a label of its own if it has a name or a caption. -/
def Node.mayBeLabelled (n : Node) : Bool :=
  n.isFigure || n.kind == .table || n.kind == .specialBlock || n.kind == .latexEnvironment

/-- The node has no name and no caption that it would take a label for, holds no rows and cells but
those of a table, and its element is quiet. -/
structure Node.IsQuiet (config : Config) (ix : LinkIndex) (n : Node) : Prop where
  name : n.info.name = none
  caption : n.mayBeLabelled = true → n.hasCaption = false
  blocks : n.kind.childContent = .blocks →
    ∀ m ∈ n.children, m.kind ≠ .tableRow ∧ m.kind ≠ .tableCell
  element : n.element.isQuiet config ix n.origin = true

instance (config : Config) (ix : LinkIndex) (n : Node) : Decidable (n.IsQuiet config ix) :=
  decidable_of_iff (n.info.name = none ∧ (n.mayBeLabelled = true → n.hasCaption = false) ∧
      (n.kind.childContent = .blocks →
        ∀ m ∈ n.children, m.kind ≠ .tableRow ∧ m.kind ≠ .tableCell) ∧
      n.element.isQuiet config ix n.origin = true)
    ⟨fun h ↦ ⟨h.1, h.2.1, h.2.2.1, h.2.2.2⟩, fun h ↦ ⟨h.name, h.caption, h.blocks, h.element⟩⟩

/-- The definition of a footnote that has no name, and in which all nodes are quiet. -/
structure Node.IsQuietNote (config : Config) (ix : LinkIndex) (label : String) (d : Node) : Prop where
  isWellTyped : d.isWellTyped = true
  element : d.element = .footnoteDefinition label
  name : d.info.name = none
  blocks : ∀ m ∈ d.children, m.kind ≠ .tableRow ∧ m.kind ≠ .tableCell
  inside : ∀ b, ∀ m ∈ d.branch b, ∀ k ∈ m.visit, k.IsQuiet config ix

variable {i : Insertion} {ix : LinkIndex} {config : Config} {above : List Occurrence}
  {o : Occurrence}

/-! ## Calm actions -/

/-- Below some nodes the action succeeds, and all that it changes are rows held back for tables of
the new block. -/
def Action.IsCalm {α : Type} (i : Insertion) (ix : LinkIndex) (above : List Occurrence)
    (x : Action α) : Prop :=
  ∀ c, c.references.index = ix → c.ancestors = above →
    ∃ a rows, x c = (.ok a, { c with heldRows := rows }) ∧
      ∀ es, i.Relocates es c.heldRows → i.Relocates es rows

namespace Action.IsCalm

variable {α β : Type} {x : Action α}

theorem bindOfResult {k : α → Action β} (hx : IsCalm i ix above x)
    (hk : ∀ c a, c.references.index = ix → c.ancestors = above → (x c).1 = .ok a →
      IsCalm i ix above (k a)) : IsCalm i ix above (x >>= k) := by
  intro c hindex habove
  obtain ⟨a, rows, ha, hrows⟩ := hx c hindex habove
  obtain ⟨b, rows', hb, hrows'⟩ := hk c a hindex habove (by rw [ha]) { c with heldRows := rows }
    hindex habove
  exact ⟨b, rows', by rw [bind_of_ok ha, hb], fun es hes ↦ hrows' es (hrows es hes)⟩

theorem bind {k : α → Action β} (hx : IsCalm i ix above x) (hk : ∀ a, IsCalm i ix above (k a)) :
    IsCalm i ix above (x >>= k) := hx.bindOfResult fun _ a _ _ _ ↦ hk a

theorem read {f : Context → Except Failure α}
    (h : ∀ c, c.references.index = ix → c.ancestors = above → ∃ a, f c = .ok a) :
    IsCalm i ix above fun c ↦ (f c, c) := by
  intro c hindex habove
  obtain ⟨a, ha⟩ := h c hindex habove
  exact ⟨a, c.heldRows, congrArg (·, c) ha, fun _ hes ↦ hes⟩

theorem pure (a : α) : IsCalm i ix above (Pure.pure a : Action α) :=
  read (f := fun _ ↦ .ok a) fun _ _ _ ↦ ⟨a, rfl⟩

theorem ask (f : Context → α) : IsCalm i ix above (Action.ask f) :=
  read (f := fun c ↦ .ok (f c)) fun c _ _ ↦ ⟨f c, rfl⟩

theorem ofExcept {r : Except Failure α} (h : ∃ a, r = .ok a) :
    IsCalm i ix above (Action.ofExcept r) := read fun _ _ _ ↦ h

theorem check {fault : Option Failure} (h : fault = none) :
    IsCalm i ix above (Action.check fault) := by
  subst h
  exact pure ()

/-- Calm actions stay calm one after the other. -/
theorem lasting (i : Insertion) (ix : LinkIndex) (above : List Occurrence) :
    Lasting fun _ x ↦ IsCalm i ix above x where
  pure := pure
  bind := bind

theorem map (f : α → β) (hx : IsCalm i ix above x) : IsCalm i ix above (f <$> x) :=
  (lasting i ix above).map f hx

theorem ite {p : Prop} [Decidable p] {x y : Action α} (hx : p → IsCalm i ix above x)
    (hy : ¬ p → IsCalm i ix above y) : IsCalm i ix above (if p then x else y) := by
  split
  · next h => exact hx h
  · next h => exact hy h

theorem within (o : Occurrence) (hx : IsCalm i ix (o :: above) x) :
    IsCalm i ix above (Context.within o x) := by
  intro c hindex habove
  obtain ⟨a, rows, ha, hrows⟩ := hx { c with ancestors := o :: c.ancestors } hindex
    (congrArg (o :: ·) habove)
  refine ⟨a, rows, ?_, hrows⟩
  rw [Context.within, bind_of_ok (x := push o) rfl, bind_of_ok ha]
  rfl

theorem hold {p : Place} (hp : i.Covers p) (row : String) :
    IsCalm i ix above (Context.hold p row) :=
  fun _ _ _ ↦ ⟨(), _, rfl, fun _ hes ↦ hes.put_new hp _⟩

theorem release {p : Place} (hp : i.Covers p) : IsCalm i ix above (Context.release p) :=
  fun _ _ _ ↦ ⟨_, _, rfl, fun _ hes ↦ hes.remove_new hp⟩

/-- A node without a name and a caption has no label. -/
theorem label? (ho : o.node.isProper = true) (hkey : o.node.explicitKey = none)
    (hcaption : o.node.hasCaption = false) : IsCalm i ix above (Context.label? o) := by
  rw [Context.label?, labelWith_eq ho, labelFromKey, hkey, hcaption]
  exact pure none

/-- A node with a key has its label by it. -/
theorem label (ho : o.node.isProper = true) (hkey : o.node.explicitKey.any (!·.isEmpty) = true) :
    IsCalm i ix above (Context.label o) := by
  obtain ⟨key, hkey, hempty⟩ := (Option.any_eq_true _ _).mp hkey
  rw [Context.label, labelWith_eq ho, labelFromKey, hkey]
  dsimp only
  rw [if_neg (by simpa using hempty)]
  exact (pure _).bind fun _ ↦ pure _

end Action.IsCalm

/-! ## Where quiet nodes are printed -/

/-- The occurrence is one of the new block's, printed below some nodes. Rows stand right below
tables of the new block, and cells right below rows of these. -/
structure Occurrence.SitsIn (i : Insertion) (above : List Occurrence) (o : Occurrence) : Prop where
  covers : i.Covers o.place
  parent : ∀ u ∈ above.head?, u.node.isWellTyped = true
  row : o.node.kind = .tableRow → ∃ table rest, above = table :: rest ∧
    table.node.kind = .table ∧ i.Covers table.place
  cell : o.node.kind = .tableCell → ∃ row table rest, above = row :: table :: rest ∧
    row.node.kind = .tableRow ∧ (o.place.childIndex? row.place).isSome = true ∧
      table.node.kind = .table ∧ table.node.isWellTyped = true

theorem Insertion.Covers.down {p : Place} (h : i.Covers p) (b : Branch) (k : Nat) :
    i.Covers (p.down b k) := h.trans (List.suffix_cons _ _)

theorem Context.table?_of_head {c : Context} {table : Occurrence} {rest : List Occurrence}
    (hc : c.ancestors = table :: rest) (htable : table.node.kind = .table) :
    c.table? = some table := by
  rw [Context.table?, hc, List.find?_cons_of_pos (by simp [htable])]

/-- What holds for one node in a quiet definition, printed in its place. -/
structure Occurrence.IsQuiet (config : Config) (i : Insertion) (ix : LinkIndex)
    (above : List Occurrence) (o : Occurrence) : Prop where
  sits : o.SitsIn i above
  quiet : o.node.IsQuiet config ix
  isWellTyped : o.node.isWellTyped = true

namespace Occurrence.IsQuiet

variable (h : o.IsQuiet config i ix above)

include h

theorem isProper : o.node.isProper = true := isProper_of_isWellTyped h.isWellTyped

theorem areTexts_attributes : o.node.attributes.areTexts = true :=
  NodeInfo.areTexts_attributes (info_isWellTyped h.isWellTyped)

theorem isWellTyped_element : o.node.element.isWellTyped = true :=
  NodeInfo.isWellTyped_element (info_isWellTyped h.isWellTyped)

/-- No kind of node that may have a label has a key besides its name. -/
theorem label? (hlabelled : o.node.mayBeLabelled = true) :
    IsCalm i ix above (Context.label? o) := by
  refine .label? h.isProper ?_ (h.quiet.caption hlabelled)
  have hname := h.quiet.name
  have hquiet := h.quiet.element
  unfold Node.explicitKey
  split
  · next he =>
    rw [he] at hquiet
    cases hquiet
  · next he =>
    simp [Node.mayBeLabelled, Node.isFigure, Node.kind, he, Element.kind] at hlabelled
  · exact hname

/-! ### Blocks -/

theorem paragraph (parts : Parts) : IsCalm i ix above (Render.paragraph config o parts) := by
  refine .bind (.check (Node.figureFault?_eq_none h.isProper)) fun _ ↦ ?_
  refine .ite (fun hfigure ↦ ?_) fun _ ↦ .pure _
  refine .bind (h.label? (by simp [Node.mayBeLabelled, hfigure])) fun _ ↦ ?_
  exact .bind (.check (figureFloatFault?_eq_none h.areTexts_attributes)) fun _ ↦ .pure _

theorem plainList {kind : ListKind} (he : o.node.element = .plainList kind) (contents : String) :
    IsCalm i ix above (Render.plainList o kind contents) := by
  have hdeclared := h.isWellTyped_element
  rw [he] at hdeclared
  refine .bind (.check (by simp [Node.listKindFault?, h.isProper])) fun _ ↦ ?_
  exact .ofExcept (exists_listText hdeclared _ _)

theorem item (checkbox : Option Checkbox) (counter : Option Int) (parts : Parts) :
    IsCalm i ix above (Render.item o checkbox counter parts) := by
  refine .bind (.ask _) fun depth ↦ .bind (.check ?_) fun _ ↦ ?_
  · simp [Node.counterFault?, h.isProper]
  · exact .bind (.check (by simp [Node.keyFieldFault?, h.isProper])) fun _ ↦ .pure _

theorem table (hconfig : config.IsWellTyped) (hkind : o.node.kind = .table) (parts : Parts) :
    IsCalm i ix above (Render.table config o parts) := by
  have hattributes := h.areTexts_attributes
  refine .bind (.ofExcept ⟨_, Table.geometry?_of_isProper h.isProper config⟩) fun g ↦ ?_
  refine .bind (.check (tableOpeningFault?_eq_none hconfig h.isProper hattributes)) fun _ ↦ ?_
  refine .bind (.check (tableFloatFault?_eq_none hconfig hattributes)) fun _ ↦ ?_
  refine .bind (h.label? (by simp [Node.mayBeLabelled, hkind])) fun _ ↦ ?_
  exact .ite (fun _ ↦ .bind (.release h.sits.covers) fun _ ↦ .pure _) fun _ ↦ .pure _

theorem tableRow (hkind : o.node.kind = .tableRow) (contents : String) :
    IsCalm i ix above (Render.tableRow config o contents) := by
  obtain ⟨table, rest, rfl, htable, hcovers⟩ := h.sits.row hkind
  have hgeometry := Table.geometry?_of_isProper
    (isProper_of_isWellTyped (h.sits.parent table rfl)) config
  refine .bindOfResult (.ask _) fun c table? _ hc htable? ↦ ?_
  obtain rfl : some table = table? :=
    (Context.table?_of_head hc htable).symm.trans (Except.ok.inj htable?)
  refine .bind (.ofExcept ⟨_, hgeometry⟩) fun g ↦ ?_
  dsimp only
  split
  · exact .pure _
  · exact .ite (fun _ ↦ .bind (.hold hcovers _) fun _ ↦ .pure _) fun _ ↦ .pure _

theorem tableCell (hconfig : config.IsWellTyped) (hkind : o.node.kind = .tableCell)
    (contents : String) : IsCalm i ix above (Render.tableCell config o contents) := by
  obtain ⟨row, table, rest, rfl, hrow, hcolumn, htable, htyped⟩ := h.sits.cell hkind
  have hgeometry := Table.geometry?_of_isProper (isProper_of_isWellTyped htyped) config
  have hattributes := NodeInfo.areTexts_attributes (info_isWellTyped htyped)
  refine .bindOfResult (.ask _) fun c row? _ hc hrow? ↦ ?_
  refine .bindOfResult (.ask _) fun c' table? _ hc' htable? ↦ ?_
  obtain rfl : some row = row? := by
    rw [← Except.ok.inj hrow?, Context.parent?, hc]
    rfl
  obtain rfl : some table = table? := by
    rw [← Except.ok.inj htable?, Context.table?, hc', List.find?_cons_of_neg (by simp [hrow]),
      List.find?_cons_of_pos (by simp [htable])]
  dsimp only
  rw [if_neg (not_not_intro hrow)]
  refine .bind (.ofExcept ⟨_, hgeometry⟩) fun g ↦ ?_
  split
  · exact .pure _
  · split
    · next hnone =>
      rw [hnone] at hcolumn
      cases hcolumn
    · exact .bind (.check (cellFault?_eq_none hconfig hattributes _ _)) fun _ ↦ .pure _

/-! ### Inline objects -/

omit h in
theorem markup (hconfig : config.IsWellTyped) {kind : String}
    (hformat : (config.textMarkup.lookup kind).isSome = true) (text : String) :
    IsCalm i ix above (Render.markup config kind text) := by
  obtain ⟨format, hformat⟩ := Option.isSome_iff_exists.mp hformat
  refine .bind (.check ?_) fun _ ↦ ?_
  · rw [hconfig.loose?_eq_none]
    rfl
  · rw [hformat]
    exact .pure _

theorem code (hconfig : config.IsWellTyped) {kind : String}
    (hformat : (config.textMarkup.lookup kind).isSome = true) (value : String) :
    IsCalm i ix above (Render.code config o kind value) :=
  .bind (.check (by simp [Node.textFieldFault?, h.isProper])) fun _ ↦ markup hconfig hformat _

theorem text {content : String} (he : o.node.element = .text content) :
    IsCalm i ix above (Render.text config o content) := by
  have hquiet := h.quiet.element
  rw [he, Element.isQuiet] at hquiet
  refine .bind (.ask _) fun _ ↦ .ite (fun _ ↦ .pure _) fun _ ↦ ?_
  refine .bind (.check (by simp [Node.textFieldFault?, h.isProper])) fun _ ↦ ?_
  refine .ite (fun hsmart ↦ ?_) fun _ ↦ .pure _
  rw [hsmart, Bool.not_true, Bool.false_or] at hquiet
  unfold Render.quotes
  cases hwritten : Quotes.typographic? (Quotes.tableFor config.language config.quotes)
    (Latex.escapeText content) with
  | ok written => exact .pure _
  | error e =>
    rw [hwritten] at hquiet
    cases hquiet

omit h in
theorem image {attributes : Attributes} (hattributes : attributes.areTexts = true) (path : String) :
    IsCalm i ix above (Render.image config path attributes) :=
  .bind (.check (imageFault?_eq_none hattributes)) fun _ ↦ .pure _

theorem areTexts_imageAttributes {c : Context} (hc : c.ancestors = above) :
    (imageAttributes c).areTexts = true := by
  unfold imageAttributes
  split
  · next u hu =>
    have htyped := h.sits.parent u (hc ▸ hu)
    split
    · exact NodeInfo.areTexts_attributes (info_isWellTyped htyped)
    · rfl
  · rfl

theorem link (hix : ∀ kind path target, ix.target? kind path = some target →
      target.node.isProper = true) {kind path : String} (he : o.node.element = .link kind path)
    (contents : String) : IsCalm i ix above (Render.link config o kind path contents) := by
  have hquiet := h.quiet.element
  rw [he, Element.isQuiet] at hquiet
  unfold Render.link
  dsimp only
  rw [Node.loose?_eq_none h.isProper, Option.getD_none]
  refine .ite (fun hkind ↦ ?_) fun hkind ↦ .ite (fun hinternal ↦ ?_) fun _ ↦ ?_
  · rw [if_pos hkind] at hquiet
    refine .bind (.read fun c hindex _ ↦ ?_) fun _ ↦ .pure _
    rw [hindex]
    cases hline : ix.codeLine (.str path) (some o.node.origin) with
    | ok line => exact ⟨line, rfl⟩
    | error e =>
      rw [hline] at hquiet
      cases hquiet
  · rw [if_neg hkind, hinternal, Bool.not_true, Bool.false_or] at hquiet
    obtain ⟨target, htarget, hkey⟩ := (Option.any_eq_true _ _).mp hquiet
    refine .bindOfResult (.read fun c hindex _ ↦ ?_) fun c t hindex _ ht ↦ ?_
    · rw [hindex]
      exact ⟨target, by rw [LinkIndex.resolveDatum, LinkIndex.resolve, htarget]; rfl⟩
    · have ht : c.references.index.resolveDatum kind (.str path) (some o.node.origin) = .ok t := ht
      rw [hindex, LinkIndex.resolveDatum, LinkIndex.resolve, htarget] at ht
      obtain rfl := Except.ok.inj ht
      exact .bind (.label (hix kind path _ htarget) hkey) fun _ ↦ .pure _
  · refine .bind (.check (Node.imageLinkFault?_eq_none h.isProper)) fun _ ↦ ?_
    refine .ite (fun _ ↦ ?_) fun _ ↦ .bind (.check rfl) fun _ ↦ .pure _
    refine .bindOfResult (.ask _) fun c attributes _ hc hattributes ↦ ?_
    obtain rfl := Except.ok.inj hattributes
    exact image (h.areTexts_imageAttributes hc) path

theorem timestamp (value kind : String) :
    IsCalm i ix above (Render.timestamp config o value kind) :=
  .bind (.check (by simp [Node.textFieldFault?, h.isProper])) fun _ ↦ .pure _

/-- Whatever the parts of a quiet node are, printing it is calm. -/
theorem transcribeElement (hconfig : config.IsWellTyped)
    (hix : ∀ kind path target, ix.target? kind path = some target → target.node.isProper = true)
    (expand : Occurrence → Action String) (parts : Parts) :
    IsCalm i ix above (Render.transcribeElement config expand o parts) := by
  have hquiet := h.quiet.element
  have htyped := h.isWellTyped_element
  unfold Render.transcribeElement
  cases he : o.node.element with
  | paragraph => exact h.paragraph parts
  | plainList kind => exact .map _ (h.plainList he _)
  | item checkbox counter => exact .map _ (h.item checkbox counter parts)
  | table => exact .map _ (h.table hconfig (by rw [Node.kind, he, Element.kind]) parts)
  | tableRow kind => exact h.tableRow (by rw [Node.kind, he, Element.kind]) _
  | tableCell width => exact h.tableCell hconfig (by rw [Node.kind, he, Element.kind]) _
  | specialBlock | latexEnvironment =>
    refine .bind (h.label? ?_) fun _ ↦ .pure _
    simp [Node.mayBeLabelled, Node.kind, he, Element.kind]
  | text content => exact .map _ (h.text he)
  | bold | italic | underline | strikeThrough =>
    rw [he] at hquiet
    exact .map _ (markup hconfig hquiet _)
  | code | verbatim =>
    rw [he] at hquiet
    exact .map _ (h.code hconfig hquiet _)
  | link kind path => exact .map _ (h.link hix he _)
  | image path attributes =>
    rw [he] at htyped
    exact .map _ (image htyped path)
  | timestamp value kind => exact .map _ (h.timestamp value kind)
  | latexFragment | entity | subscript | superscript | mathRun => exact .map _ (.ask _)
  | heading | codeBlock | target | radioTarget | footnoteDefinition | footnoteReference =>
    rw [he] at hquiet
    cases hquiet
  | bareNode | bareBlock | bareInline | foreign =>
    rw [he] at htyped
    cases htyped
  | _ => exact .pure _

/-! ### Below a quiet node -/

/-- What stands in a branch of a quiet node is quiet wherever it is printed as one of its nodes. -/
theorem of_branch {b : Branch} {k : Nat} {m : Node} {around : List Occurrence}
    (hm : (o.node.branch b)[k]? = some m) (hquiet : m.IsQuiet config ix)
    (hparent : ∀ u ∈ around.head?, u.node.isWellTyped = true)
    (hrow : m.kind = .tableRow → ∃ table rest, around = table :: rest ∧
      table.node.kind = .table ∧ i.Covers table.place)
    (hcell : m.kind = .tableCell → ∃ row table rest, around = row :: table :: rest ∧
      row.node.kind = .tableRow ∧ ((o.place.down b k).childIndex? row.place).isSome = true ∧
        table.node.kind = .table ∧ table.node.isWellTyped = true) :
    IsQuiet config i ix around ⟨o.place.down b k, m⟩ where
  sits := ⟨h.sits.covers.down b k, hparent, hrow, hcell⟩
  quiet := hquiet
  isWellTyped := (isWellTyped_of_mem_branch h.isWellTyped (List.mem_of_getElem? hm)).2

theorem child {k : Nat} {m : Node} (hm : o.node.children[k]? = some m)
    (hquiet : m.IsQuiet config ix) :
    IsQuiet config i ix (o :: above) ⟨o.place.down .children k, m⟩ := by
  have hmem : m ∈ o.node.branch .children := List.mem_of_getElem? hm
  have hadmits := (isWellTyped_of_mem_branch h.isWellTyped hmem).1
  have hblocks := fun hcontent ↦ h.quiet.blocks hcontent m hmem
  refine h.of_branch (b := .children) hm hquiet ?_ (fun hrow ↦ ?_) fun hcell ↦ ?_
  · rintro u ⟨⟩
    exact h.isWellTyped
  · refine ⟨o, above, rfl, ?_, h.sits.covers⟩
    rw [hrow] at hadmits hblocks
    cases hk : o.node.kind <;>
      simp_all [Kind.content, Kind.childContent, Content.admits, Kind.isBlock]
  · rw [hcell] at hadmits hblocks
    have hrow : o.node.kind = .tableRow := by
      cases hk : o.node.kind <;>
        simp_all [Kind.content, Kind.childContent, Content.admits, Kind.isBlock]
    obtain ⟨table, rest, rfl, htable, -⟩ := h.sits.row hrow
    refine ⟨o, table, rest, rfl, hrow, ?_, htable, h.sits.parent table rfl⟩
    rw [Place.childIndex?_down]
    rfl

/-- What a node holds besides its children are inline objects. -/
theorem beside {b : Branch} (hb : b ≠ .children) {k : Nat} {m : Node}
    (hm : (o.node.branch b)[k]? = some m) (hquiet : m.IsQuiet config ix) :
    IsQuiet config i ix above ⟨o.place.down b k, m⟩ := by
  have hinline := isBlock_eq_false_of_mem_branch h.isWellTyped (.inr hb) (List.mem_of_getElem? hm)
  refine h.of_branch hm hquiet h.sits.parent (fun hrow ↦ ?_) fun hcell ↦ ?_
  · rw [hrow] at hinline
    cases hinline
  · rw [hcell] at hinline
    cases hinline

end Occurrence.IsQuiet

/-! ## Walks -/

theorem Node.IsQuiet.zone_eq_body {n : Node} (h : n.IsQuiet config ix) : n.zone = .body := by
  have hquiet := h.element
  unfold Node.zone
  split
  · next g hg =>
    rw [show n.element = .heading g from hg] at hquiet
    cases hquiet
  · rfl

section

variable (hconfig : config.IsWellTyped)
  (hix : ∀ kind path target, ix.target? kind path = some target → target.node.isProper = true)

include hconfig hix

/-- Printing a quiet tree is calm. -/
theorem Action.IsCalm.node (expand : Occurrence → Action String) {n : Node} {p : Place}
    (h : Occurrence.IsQuiet config i ix above ⟨p, n⟩) (hquiet : ∀ k ∈ n.visit, k.IsQuiet config ix) :
    IsCalm i ix above (Render.node config expand p n) := by
  induction n using Node.induction generalizing p above with
  | step n ih =>
    have hproper := h.isProper
    have hbelow := ((Node.isProper_iff n).mp hproper).2
    have hquiet := (forall_mem_visit_iff.mp hquiet).2
    rw [node_eq hproper]
    refine .bind ?_ fun _ ↦ .bind ?_ fun parts ↦ .bind (.within _ ?_) fun _ ↦ ?_
    · rw [reserveSlot, if_pos h.quiet.zone_eq_body]
      exact .pure ()
    · refine (lasting i ix above).secondaryParts config ⟨p, n⟩ fun b hb _ ↦ ?_
      refine (lasting i ix above).all config (hbelow b) fun k m hm ↦ ?_
      have hmem := List.mem_of_getElem? hm
      rw [Nat.zero_add]
      exact ih b m hmem (h.beside hb hm (hquiet b m hmem m (mem_visit_self m))) (hquiet b m hmem)
    · refine (lasting i ix (⟨p, n⟩ :: above)).all config (hbelow .children) fun k m hm ↦ ?_
      have hmem : m ∈ n.branch .children := List.mem_of_getElem? hm
      rw [Nat.zero_add]
      exact ih .children m hmem (h.child hm (hquiet .children m hmem m (mem_visit_self m)))
        (hquiet .children m hmem)
    · exact h.transcribeElement hconfig hix expand _

/-- A quiet definition prints nothing, and changes nothing that is told of any other place. -/
theorem Node.IsQuietNote.isSilent {label : String} {ix₀ : LinkIndex}
    (h : i.tree.IsQuietNote config ix label) : i.IsSilent config ix₀ ix := by
  intro expand p hp c d hcd
  have hkind : i.tree.kind = .footnoteDefinition := by rw [Node.kind, h.element]; rfl
  have hzone : i.tree.zone = .body := by rw [Node.zone, h.element]
  have hproper := isProper_of_isWellTyped h.isWellTyped
  have hsteps : ((i.move p).down .children i.index).steps = ⟨.children, i.index⟩ :: i.host := by
    rw [Place.down, Insertion.move,
      Insertion.moveSteps_eq_self (Nat.le_of_eq (congrArg List.length hp)), hp]
  have hcovers : i.Covers ((i.move p).down .children i.index) := by
    unfold Insertion.Covers
    exact hsteps ▸ List.suffix_rfl
  have hcalm : IsCalm i ix d.ancestors
      (Context.within ⟨(i.move p).down .children i.index, i.tree⟩
        (Render.all config expand ((i.move p).down .children i.index) .children 0
          i.tree.children)) := by
    refine .within _ ((IsCalm.lasting i ix _).all config
      (((Node.isProper_iff i.tree).mp hproper).2 .children) fun k m hm ↦ ?_)
    have hmem : m ∈ i.tree.branch .children := List.mem_of_getElem? hm
    have hblocks := h.blocks m hmem
    have hinside := h.inside .children m hmem
    rw [Nat.zero_add]
    refine .node hconfig hix expand ⟨⟨hcovers.down _ k, ?_, ?_, ?_⟩, hinside m (mem_visit_self m),
      (isWellTyped_of_mem_branch h.isWellTyped hmem).2⟩ hinside
    · rintro u ⟨⟩
      exact h.isWellTyped
    · exact fun hrow ↦ absurd hrow hblocks.1
    · exact fun hcell ↦ absurd hcell hblocks.2
  obtain ⟨outputs, rows, hrun, hrows⟩ := hcalm d hcd.index' rfl
  refine ⟨{ d with heldRows := rows }, ?_, { hcd with heldRows := hrows _ hcd.heldRows }⟩
  have hcaption : printsCaption i.tree = false := by
    rw [printsCaption, Node.isFigure, hkind]
    rfl
  rw [node_eq_of_children h.isWellTyped (by rw [hkind]; rfl) (by rw [hkind]; rfl) hcaption hzone,
    bind_of_ok hrun]
  unfold Render.transcribeElement
  rw [h.element]
  rfl

end

end Typeset

import Typeset.Proofs.Render.Safe

/-!
# What each node can fail with

Each node of a printable document is printed with documented failures only. What it needs of the
nodes around is that a row has none but its own cells below it. A footnote's definition is printed
wherever the footnote is first used, which is never right below a row.
-/

namespace Typeset

open Action Context Latex Render Text

variable {config : Config} {doc : Node} {above : List Occurrence} {o : Occurrence}
  {expand : Occurrence → Action String}

/-- An occurrence of a document may be printed right below others. A row has only its own cells
below it. -/
structure Occurrence.Fits (doc : Node) (above : List Occurrence) (o : Occurrence) : Prop where
  mem : o ∈ doc.occurrences (.ofRoot 0)
  around : ∀ u ∈ above, u ∈ doc.occurrences (.ofRoot 0)
  cell : ∀ row ∈ above.head?, row.node.kind = .tableRow →
    o.node.kind = .tableCell ∧ (o.place.childIndex? row.place).isSome = true

/-- Definitions of footnotes can be printed below all nodes but rows. -/
def ExpandsSafely (doc : Node) (expand : Occurrence → Action String) : Prop :=
  ∀ above, (∀ u ∈ above, u ∈ doc.occurrences (.ofRoot 0)) →
    (∀ row ∈ above.head?, row.node.kind ≠ .tableRow) →
      ∀ e ∈ doc.index.footnotes, IsSafe doc above (expand e.2)

/-! ## Labels and links -/

theorem Render.eq_of_checkLabels_eq_error {b : CodeBlock} (ho : o.node.isProper = true)
    (hformat : LabelFormat.isPlain b.labelFormat = true) {origin : Origin} {labels : List String}
    {e : Failure} (h : checkLabels origin (.ofOccurrence o b) (labels.map .str) = .error e) :
    ∃ label, e = .unresolvedCode label origin := by
  induction labels with
  | nil => cases h
  | cons label labels ih =>
    rw [List.map_cons, checkLabels, lineOf?_ofOccurrence ho hformat] at h
    cases hfind : (lines b.value).findIdx? (b.isMarked label) with
    | none =>
      rw [hfind] at h
      exact ⟨_, (Except.error.inj h).symm⟩
    | some k =>
      rw [hfind] at h
      exact ih h

theorem LinkIndex.eq_of_codeLine_eq_error (hdoc : doc.IsPrintable) {label : String}
    {origin : Option Origin} {e : Failure}
    (h : doc.index.codeLine (.str label) origin = .error e) :
    e = .unresolvedCode (.str label) origin := by
  rw [LinkIndex.codeLine, LinkIndex.codeBlocks_add] at h
  exact eq_of_codeLineIn_eq_error _ origin (fun o ho ↦ hdoc.isProper_node ho)
    (fun o ho ↦ hdoc.formats o.node (List.mem_map_of_mem ho)) h

theorem LinkIndex.eq_of_orUnresolved_eq_error {kind : String} {path : Datum}
    {origin : Option Origin} {target? : Option Occurrence} {e : Failure}
    (h : orUnresolved kind path origin target? = .error e) :
    e = .unresolvedLink kind path origin := by
  cases target? with
  | none => exact (Except.error.inj h).symm
  | some target => cases h

namespace Occurrence.Fits

variable (h : o.Fits doc above) (hdoc : doc.IsPrintable)

include h hdoc

theorem isProper : o.node.isProper = true := hdoc.isProper_node h.mem

/-- A failure that tells where the occurrence comes from is documented. -/
theorem isDocumented {e : Failure} (horigin : e.origin? = some o.node.origin) :
    e.isDocumented = true :=
  Failure.isDocumented_of_origin? (hdoc.isWellTyped_node h.mem) horigin

/-! ## Blocks -/

theorem paragraph (parts : Parts) : IsSafe doc above (Render.paragraph config o parts) := by
  have hproper := h.isProper hdoc
  have hfloat := figureFloatFault?_eq_none (hdoc.areTexts_attributes h.mem)
  refine .bind (.check (Node.figureFault?_eq_none hproper)) fun _ ↦ ?_
  refine .ite (fun _ ↦ ?_) fun _ ↦ .pure _
  exact .bind (.label? hproper) fun _ ↦ .bind (.check hfloat) fun _ ↦ .pure _

theorem plainList {kind : ListKind} (he : o.node.element = .plainList kind) (contents : String) :
    IsSafe doc above (Render.plainList o kind contents) := by
  have hkind : o.node.listKindFault? = none := by
    simp [Node.listKindFault?, h.isProper hdoc]
  have hdeclared := hdoc.isWellTyped_element h.mem
  rw [he] at hdeclared
  exact .bind (.check hkind) fun _ ↦ .ofExcept (exists_listText hdeclared _ _)

theorem item (checkbox : Option Checkbox) (counter : Option Int) (parts : Parts) :
    IsSafe doc above (Render.item o checkbox counter parts) := by
  have hcounter : o.node.counterFault? = none := by
    simp [Node.counterFault?, h.isProper hdoc]
  have hcheckbox : o.node.keyFieldFault? "checkbox" = none := by
    simp [Node.keyFieldFault?, h.isProper hdoc]
  refine .bind (.ask _) fun depth ↦ .bind (.check ?_) fun _ ↦ ?_
  · rw [hcounter, ite_self]
  · exact .bind (.check hcheckbox) fun _ ↦ .pure _

omit h hdoc in
theorem languageOf (b : CodeBlock) : IsSafe doc above (Render.languageOf config b) := by
  unfold Render.languageOf
  split
  · exact .pure _
  · exact .pure _
  · exact .bind (.nameOfLanguage config _) fun _ ↦ .pure _

theorem codeBlock (hconfig : config.IsWellTyped) {b : CodeBlock}
    (he : o.node.element = .codeBlock b) (caption : String) :
    IsSafe doc above (Render.codeBlock config o b caption) := by
  have hproper := h.isProper hdoc
  have hformat := hdoc.formats o.node (List.mem_map_of_mem h.mem) b he
  have hreferences : o.node.referencesFault? = none := by
    simp [Node.referencesFault?, hproper]
  have hlanguage : o.node.keyFieldFault? "language" = none := by
    simp [Node.keyFieldFault?, hproper]
  have hlabels : o.node.declaredLabels b.references = b.references.map .str := by
    simp [Node.declaredLabels, hproper]
  refine .bind (.check hreferences) fun _ ↦ .bind (.read fun _ _ e hfails ↦ ?_) fun _ ↦ ?_
  · rw [hlabels] at hfails
    obtain ⟨label, rfl⟩ := eq_of_checkLabels_eq_error hproper hformat hfails
    exact h.isDocumented hdoc rfl
  · refine .bind (.ask _) fun _ ↦ .bind (.check hlanguage) fun _ ↦ ?_
    refine .bind (languageOf b) fun _ ↦ .bind (.label? hproper) fun _ ↦ ?_
    exact .bind (.check (Listing.fault?_eq_none hconfig)) fun _ ↦ .pure _

theorem heading (hconfig : config.IsWellTyped) {g : Heading} (he : o.node.element = .heading g)
    (parts : Parts) : IsSafe doc above (Render.heading config o g parts) := by
  have hlevel := hdoc.levels o.node (List.mem_map_of_mem h.mem) g he
  have hfault : sectionFault? config g ((o.node.loose? "level").getD (.int g.level)) = none := by
    rw [Node.loose?_eq_none (h.isProper hdoc)]
    exact sectionFault?_eq_none hconfig g
  refine .bind (.label (h.isProper hdoc)) fun label ↦ .bind (.check hfault) fun _ ↦ ?_
  refine .bind (.ofExcept (exists_sectionText hlevel _ _ _)) fun text ↦ ?_
  refine .ite (fun _ ↦ .pure _) fun hzone ↦ ?_
  exact .bind (.route h.mem hzone text) fun _ ↦ .pure _

/-! ## Tables -/

theorem table (hconfig : config.IsWellTyped) (parts : Parts) :
    IsSafe doc above (Render.table config o parts) := by
  have hproper := h.isProper hdoc
  have hattributes := hdoc.areTexts_attributes h.mem
  refine .bind (.ofExcept ⟨_, Table.geometry?_of_isProper hproper config⟩) fun g ↦ ?_
  refine .bind (.check (tableOpeningFault?_eq_none hconfig hproper hattributes)) fun _ ↦ ?_
  refine .bind (.check (tableFloatFault?_eq_none hconfig hattributes)) fun _ ↦ ?_
  refine .bind (.label? hproper) fun label ↦ .ite (fun _ ↦ ?_) fun _ ↦ .pure _
  exact .bind (.release h.mem) fun _ ↦ .pure _

omit hdoc in
/-- The table around is one of the document. -/
theorem mem_of_table? {c : Context} (hc : c.StandsIn doc above) {table : Occurrence}
    (htable : c.table? = some table) : table ∈ doc.occurrences (.ofRoot 0) := by
  have hmem := List.mem_of_find?_eq_some htable
  rw [hc.ancestors] at hmem
  exact h.around table hmem

theorem tableRow (contents : String) : IsSafe doc above (Render.tableRow config o contents) := by
  refine .bindOfResult (.ask _) fun c table? hc htable? ↦ ?_
  cases table? with
  | none => exact .fail (h.isDocumented hdoc rfl)
  | some table =>
    have htable := h.mem_of_table? hc (Except.ok.inj htable?)
    have hgeometry := Table.geometry?_of_isProper (hdoc.isProper_node htable) config
    refine .bind (.ofExcept ⟨_, hgeometry⟩) fun g ↦ ?_
    dsimp only
    split
    · exact .pure _
    · exact .ite (fun _ ↦ .bind (.hold _ _) fun _ ↦ .pure _) fun _ ↦ .pure _

theorem tableCell (hconfig : config.IsWellTyped) (contents : String) :
    IsSafe doc above (Render.tableCell config o contents) := by
  have hstray : IsSafe doc above (fail (.strayCell o.node.origin) : Action (Option String)) :=
    .fail (h.isDocumented hdoc rfl)
  refine .bindOfResult (.ask _) fun c row? hc hrow? ↦ ?_
  refine .bindOfResult (.ask _) fun c' table? hc' htable? ↦ ?_
  split
  · next row table =>
    have htable := h.mem_of_table? hc' (Except.ok.inj htable?)
    have hgeometry := Table.geometry?_of_isProper (hdoc.isProper_node htable) config
    have hattributes := hdoc.areTexts_attributes htable
    refine .ite (fun _ ↦ hstray) fun hrow ↦ ?_
    have hhead : above.head? = some row := by
      rw [← hc.ancestors]
      exact Except.ok.inj hrow?
    -- a cell below a row is one of its children
    have hcolumn := (h.cell row hhead (not_not.mp hrow)).2
    refine .bind (.ofExcept ⟨_, hgeometry⟩) fun g ↦ ?_
    split
    · exact .pure _
    · split
      · next hnone =>
        rw [hnone] at hcolumn
        cases hcolumn
      · exact .bind (.check (cellFault?_eq_none hconfig hattributes _ _)) fun _ ↦ .pure _
  · exact hstray

/-! ## Inline objects -/

omit h hdoc in
theorem markup (hconfig : config.IsWellTyped) (hcomplete : config.IsComplete) {kind : String}
    (hkind : kind ∈ Config.markupKinds) (text : String) :
    IsSafe doc above (Render.markup config kind text) := by
  obtain ⟨format, hformat⟩ := Option.isSome_iff_exists.mp (hcomplete.markup kind hkind)
  refine .bind (.check ?_) fun _ ↦ ?_
  · rw [hconfig.loose?_eq_none]
    rfl
  · rw [hformat]
    exact .pure _

theorem code (hconfig : config.IsWellTyped) (hcomplete : config.IsComplete) {kind : String}
    (hkind : kind ∈ Config.markupKinds) (value : String) :
    IsSafe doc above (Render.code config o kind value) := by
  refine .bind (.check ?_) fun _ ↦ markup hconfig hcomplete hkind _
  simp [Node.textFieldFault?, h.isProper hdoc]

omit h hdoc in
/-- Quotes that do not balance are a warning. -/
theorem quotes (hconfig : config.IsWellTyped) (hcomplete : config.IsComplete) (origin : Origin)
    (text : String) : IsSafe doc above (Render.quotes config origin text) := by
  have hfull := Quotes.isFull_tableFor hconfig hcomplete config.language
  unfold Render.quotes
  rcases hfull.typographic?_cases text with ⟨written, hwritten⟩ | ⟨position, hposition⟩
  · rw [hwritten]
    exact .pure _
  · rw [hposition]
    exact .bind (.warn _) fun _ ↦ .pure _

theorem text (hconfig : config.IsWellTyped) (hcomplete : config.IsComplete) (content : String) :
    IsSafe doc above (Render.text config o content) := by
  have hfault : o.node.textFieldFault? "content" = none := by
    simp [Node.textFieldFault?, h.isProper hdoc]
  refine .bind (.ask _) fun _ ↦ .ite (fun _ ↦ .pure _) fun _ ↦ .bind (.check hfault) fun _ ↦ ?_
  exact .ite (fun _ ↦ quotes hconfig hcomplete _ _) fun _ ↦ .pure _

theorem labelOf : IsSafe doc above (Render.labelOf o) :=
  .bind (.label (h.isProper hdoc)) fun _ ↦ .pure _

omit h hdoc in
theorem image {attributes : Attributes} (hattributes : attributes.areTexts = true) (path : String) :
    IsSafe doc above (Render.image config path attributes) :=
  .bind (.check (imageFault?_eq_none hattributes)) fun _ ↦ .pure _

/-- An image link takes its attributes from a paragraph of the document. -/
theorem areTexts_imageAttributes {c : Context} (hc : c.StandsIn doc above) :
    (imageAttributes c).areTexts = true := by
  unfold imageAttributes
  split
  · next u hu =>
    have hmem : u ∈ above := by
      rw [← hc.ancestors]
      exact List.mem_of_head? hu
    split
    · exact hdoc.areTexts_attributes (h.around u hmem)
    · rfl
  · rfl

theorem link (kind path contents : String) :
    IsSafe doc above (Render.link config o kind path contents) := by
  have hproper := h.isProper hdoc
  unfold Render.link
  dsimp only
  rw [Node.loose?_eq_none hproper, Option.getD_none]
  refine .ite (fun _ ↦ ?_) fun _ ↦ .ite (fun _ ↦ ?_) fun _ ↦ ?_
  · refine .bind (.read fun c hc e hfails ↦ ?_) fun _ ↦ .pure _
    rw [hc.index] at hfails
    obtain rfl := LinkIndex.eq_of_codeLine_eq_error hdoc hfails
    exact h.isDocumented hdoc rfl
  · refine .bindOfResult (.read fun c _ e hfails ↦ ?_) fun c target hc htarget ↦ ?_
    · obtain rfl := LinkIndex.eq_of_orUnresolved_eq_error hfails
      exact h.isDocumented hdoc rfl
    · have hresolve : c.references.index.resolve kind path (some o.node.origin) = .ok target :=
        htarget
      rw [hc.index] at hresolve
      have hmem := mem_of_firstMatch? (firstMatch?_of_resolve hdoc.isProper hresolve)
      exact .bind (.label (hdoc.isProper_node hmem)) fun _ ↦ .pure _
  · refine .bind (.check (Node.imageLinkFault?_eq_none hproper)) fun _ ↦ .ite (fun _ ↦ ?_) fun _ ↦ ?_
    · refine .bindOfResult (.ask _) fun c attributes hc hattributes ↦ ?_
      obtain rfl := Except.ok.inj hattributes
      exact image (h.areTexts_imageAttributes hdoc hc) path
    · exact .bind (.check rfl) fun _ ↦ .pure _

/-- A reference stands in no row, so the definition can be printed in its place. -/
theorem footnoteReference (hexpand : ExpandsSafely doc expand) {label : Option String}
    (he : o.node.element = .footnoteReference label) (contents : String) :
    IsSafe doc above (Render.footnoteReference expand o label contents) := by
  have hhead : ∀ row ∈ above.head?, row.node.kind ≠ .tableRow := by
    intro row hrow hkind
    have hcell := (h.cell row hrow hkind).1
    rw [Node.kind, he] at hcell
    cases hcell
  unfold Render.footnoteReference
  rw [Node.loose?_eq_none (h.isProper hdoc), Option.none_or]
  cases label with
  | none => exact .bind (.reference _) fun _ ↦ .bind (.nextFootnote _) fun _ ↦ .pure _
  | some label =>
    refine .bind (.check rfl) fun _ ↦ .bind (.nextFootnote _) fun _ ↦ ?_
    refine .ite (fun _ ↦ .pure _) fun _ ↦ .ite (fun _ ↦ ?_) fun _ ↦ .pure _
    refine .bindOfResult (.read fun c _ e hfails ↦ ?_) fun c definition hc hdefinition ↦ ?_
    · obtain rfl := LinkIndex.eq_of_orUnresolved_eq_error hfails
      exact h.isDocumented hdoc rfl
    · have hfound : c.references.index.footnote (.str label) (some o.node.origin) =
          .ok definition := hdefinition
      rw [hc.index] at hfound
      have hmem := LinkIndex.mem_footnotes_of_footnote hfound
      exact .bind (hexpand above h.around hhead _ hmem) fun _ ↦ .pure _

theorem timestamp (value kind : String) :
    IsSafe doc above (Render.timestamp config o value kind) := by
  refine .bind (.check ?_) fun _ ↦ .pure _
  simp [Node.textFieldFault?, h.isProper hdoc]

/-- What an occurrence prints, given its parts. -/
theorem transcribeElement (hconfig : config.IsWellTyped) (hcomplete : config.IsComplete)
    (hexpand : ExpandsSafely doc expand) (parts : Parts) :
    IsSafe doc above (Render.transcribeElement config expand o parts) := by
  have hproper := h.isProper hdoc
  unfold Render.transcribeElement
  cases he : o.node.element with
  | heading g => exact h.heading hdoc hconfig he parts
  | paragraph => exact h.paragraph hdoc parts
  | plainList kind => exact .map _ (h.plainList hdoc he _)
  | item checkbox counter => exact .map _ (h.item hdoc checkbox counter parts)
  | table => exact .map _ (h.table hdoc hconfig parts)
  | tableRow kind => exact h.tableRow hdoc _
  | tableCell width => exact h.tableCell hdoc hconfig _
  | codeBlock b => exact .map _ (h.codeBlock hdoc hconfig he _)
  | specialBlock | latexEnvironment => exact .bind (.label? hproper) fun _ ↦ .pure _
  | text content => exact .map _ (h.text hdoc hconfig hcomplete content)
  | bold | italic | underline | strikeThrough =>
    exact .map _ (markup hconfig hcomplete (by decide) _)
  | code | verbatim => exact .map _ (h.code hdoc hconfig hcomplete (by decide) _)
  | link kind path => exact .map _ (h.link hdoc kind path _)
  | image path attributes =>
    have hattributes := hdoc.isWellTyped_element h.mem
    rw [he] at hattributes
    exact .map _ (image hattributes path)
  | footnoteReference label => exact .map _ (h.footnoteReference hdoc hexpand he _)
  | timestamp value kind => exact .map _ (h.timestamp hdoc value kind)
  | target => exact .map _ (h.labelOf hdoc)
  | radioTarget => exact .bind (h.labelOf hdoc) fun _ ↦ .pure _
  | latexFragment | entity | subscript | superscript | mathRun => exact .map _ (.ask _)
  | bareNode | bareBlock | bareInline | foreign => exact .fail (h.isDocumented hdoc rfl)
  | _ => exact .pure _

/-! ## Below an occurrence -/

omit h hdoc in
theorem of_head (hmem : o ∈ doc.occurrences (.ofRoot 0))
    (haround : ∀ u ∈ above, u ∈ doc.occurrences (.ofRoot 0))
    (hhead : ∀ row ∈ above.head?, row.node.kind ≠ .tableRow) : o.Fits doc above where
  mem := hmem
  around := haround
  cell row hrow hkind := absurd hkind (hhead row hrow)

/-- A child is printed below its parent. -/
theorem child {k : Nat} {m : Node} (hm : o.node.children[k]? = some m) :
    Fits doc (o :: above) ⟨o.place.down .children k, m⟩ where
  mem := Node.mem_occurrences_of_getElem? (b := .children) h.mem hm
  around := List.forall_mem_cons.mpr ⟨h.mem, h.around⟩
  cell row hrow hkind := by
    obtain rfl := Option.some.inj hrow
    have hmem : m ∈ o.node.branch .children := List.mem_of_getElem? hm
    have hadmits := (Node.isWellTyped_of_mem_branch (hdoc.isWellTyped_node h.mem) hmem).1
    rw [hkind] at hadmits
    refine ⟨beq_iff_eq.mp hadmits, ?_⟩
    rw [Place.childIndex?_down]
    rfl

/-- What is printed of a node besides its children stands beside it. No cell has anything there. -/
theorem beside {b : Branch} (hb : b ≠ .children) (hcaption : b = .caption → printsCaption o.node)
    {k : Nat} {m : Node} (hm : (o.node.branch b)[k]? = some m) :
    Fits doc above ⟨o.place.down b k, m⟩ where
  mem := Node.mem_occurrences_of_getElem? h.mem hm
  around := h.around
  cell row hrow hkind := by
    have hcell := (h.cell row hrow hkind).1
    have hmem := List.mem_of_getElem? hm
    have hadmits := (Node.isWellTyped_of_mem_branch (hdoc.isWellTyped_node h.mem) hmem).1
    rw [hcell] at hadmits
    cases b with
    | children => exact absurd rfl hb
    | title | tag => cases hadmits
    | caption =>
      have hprints := hcaption rfl
      rw [printsCaption, Node.isFigure, hcell] at hprints
      cases hprints

end Occurrence.Fits

/-! ## Walks -/

section

variable (hconfig : config.IsWellTyped) (hcomplete : config.IsComplete) (hdoc : doc.IsPrintable)

include hconfig hcomplete hdoc

theorem Action.IsSafe.node (hexpand : ExpandsSafely doc expand) {n : Node} {p : Place}
    (h : Occurrence.Fits doc above ⟨p, n⟩) : IsSafe doc above (Render.node config expand p n) := by
  induction n using Node.induction generalizing p above with
  | step n ih =>
    have hbelow := ((Node.isProper_iff n).mp (h.isProper hdoc)).2
    rw [node_eq (h.isProper hdoc)]
    refine .bind (.reserveSlot h.mem) fun _ ↦ .bind ?_ fun parts ↦ .bind (.within _ ?_) fun _ ↦ ?_
    · refine (lasting doc above).secondaryParts config ⟨p, n⟩ fun b hb hcaption ↦ ?_
      refine (lasting doc above).all config (hbelow b) fun k m hm ↦ ?_
      rw [Nat.zero_add]
      exact ih b m (List.mem_of_getElem? hm) (h.beside hdoc hb hcaption hm)
    · refine (lasting doc (⟨p, n⟩ :: above)).all config (hbelow .children) fun k m hm ↦ ?_
      rw [Nat.zero_add]
      exact ih .children m (List.mem_of_getElem? hm) (h.child hdoc hm)
    · exact h.transcribeElement hdoc hconfig hcomplete hexpand _

/-- Definitions of footnotes are safely printed, however many may be inside of each other. -/
theorem expandsSafely_definitionText (depth : Nat) :
    ExpandsSafely doc (definitionText config depth) := by
  induction depth with
  | zero => exact fun _ _ _ _ _ ↦ .pure _
  | succ depth ih =>
    intro above haround hhead e he
    obtain ⟨hmem, hproper, -⟩ := Node.footnotes_index hdoc.isProper he
    have hbelow := ((Node.isProper_iff e.2.node).mp hproper).2 .children
    rw [definitionText_succ hproper]
    refine .bind ((IsSafe.lasting doc above).all config hbelow fun k m hm ↦ ?_) fun _ ↦ .pure _
    refine .node hconfig hcomplete hdoc ih (.of_head ?_ haround hhead)
    rw [Nat.zero_add]
    exact Node.mem_occurrences_of_getElem? (b := .children) hmem hm

/-- A printable document is printed, or printing fails in a documented way. -/
theorem isSafe_occurrence : IsSafe doc [] (occurrence config ⟨.ofRoot 0, doc⟩) := by
  refine .bind (.ask _) fun depth ↦ .node hconfig hcomplete hdoc ?_ ?_
  · exact expandsSafely_definitionText hconfig hcomplete hdoc depth
  · exact .of_head (Node.self_mem_occurrences _ _) (fun _ hu ↦ absurd hu List.not_mem_nil) nofun

end

end Typeset

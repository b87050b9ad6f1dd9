import Typeset.Proofs.Render.PassedOn

/-!
# What is shown comes out

What the target prints is followed from node to node: it stands in the output, or in a row that is
held back for its table, or rests in the buffer of a zone until the whole document is printed.
-/

namespace Typeset

open Action Context Latex Render Text

/-! ## Occurrences of a document -/

namespace Node

theorem zone_bne_body {n : Node} (h : ∀ g, n.element ≠ .heading g) :
    (n.zone != .body) = false := by
  unfold zone
  split
  · next g hg => exact absurd hg (h g)
  · rfl

/-- The zone of the node at a place. -/
def zoneAt (doc : Node) (p : Place) : Zone := ((doc.at? p.steps).map zone).getD .body

theorem zoneAt_of_mem_occurrences {doc : Node} {o : Occurrence}
    (ho : o ∈ doc.occurrences (.ofRoot 0)) : doc.zoneAt o.place = o.node.zone := by
  rw [zoneAt, at?_of_mem_occurrences (n := doc) rfl ho]
  rfl

theorem isInNote_of_isBelow {doc : Node} {p q : Place} (h : doc.isInNote q = true)
    (hp : p.IsBelow q) : doc.isInNote p = true := by
  obtain ⟨d, hd, h⟩ := List.any_eq_true.mp h
  obtain ⟨hkind, hsuffix⟩ := Bool.and_eq_true_iff.mp h
  refine List.any_eq_true.mpr ⟨d, hd, Bool.and_eq_true_iff.mpr ⟨hkind, ?_⟩⟩
  rw [List.isSuffixOf_iff_suffix] at hsuffix ⊢
  exact hsuffix.trans hp.2

theorem isInNote_of_kind {doc : Node} {d : Occurrence} (hd : d ∈ doc.occurrences (.ofRoot 0))
    (hkind : d.node.kind = .footnoteDefinition) : doc.isInNote d.place = true := by
  refine List.any_eq_true.mpr ⟨d, hd, Bool.and_eq_true_iff.mpr ⟨by simp [hkind], ?_⟩⟩
  exact List.isSuffixOf_iff_suffix.mpr List.suffix_rfl

end Node

/-! ## Scopes of a document -/

section

variable {doc : Node} (hdoc : doc.isProper = true)

/-- The scope of a document, given the places that are printed. -/
def Node.scope (doc : Node) (done : Place → Prop) : Scope := ⟨doc.zoneAt, done⟩

theorem Node.scope_admits {done : Place → Prop} {o : Occurrence}
    (ho : o ∈ doc.occurrences (.ofRoot 0)) (hdone : done o.place) : (doc.scope done).Admits o where
  zone := zoneAt_of_mem_occurrences ho
  done := hdone

include hdoc

theorem Node.footnotes_index {e : Datum × Occurrence} (he : e ∈ doc.index.footnotes) :
    e.2 ∈ doc.occurrences (.ofRoot 0) ∧ e.2.node.isProper = true ∧
      e.2.node.kind = .footnoteDefinition := by
  obtain ⟨hmem, hkind⟩ := (LinkIndex.mem_footnotes_add he).resolve_left List.not_mem_nil
  exact ⟨hmem, isProper_of_mem_occurrences hdoc hmem, hkind⟩

theorem Node.scope_admitsNotes {done : Place → Prop}
    (hdone : ∀ p, doc.isInNote p = true → done p) : (doc.scope done).AdmitsNotes doc.index := by
  intro e he
  obtain ⟨hmem, hproper, hkind⟩ := footnotes_index hdoc he
  refine ⟨hproper, fun o ho ↦ ?_⟩
  have ho : o ∈ e.2.node.occurrences e.2.place :=
    mem_occurrences_of_mem_printed (mem_printed_iff.mpr (.inr ⟨_, ho⟩))
  have hnote : doc.isInNote o.place = true :=
    isInNote_of_isBelow (isInNote_of_kind hmem hkind) (isBelow_of_mem_occurrences ho)
  exact scope_admits (mem_occurrences_trans hmem ho) (hdone _ hnote)

end

/-! ## What comes out of a node -/

section

variable {config : Config} {doc : Node} {s : String} {o : Occurrence} {parts : Parts}
  {above : List Occurrence} {output : Option String} {c d : Context}

/-- A text has come out of an occurrence: it stands in the output, or in a row held back for the
table around it, or rests in the buffer of a zone. -/
inductive CameOut (config : Config) (doc : Node) (s : String) (above : List Occurrence) (p : Place)
    (output : Option String) (d : Context) : Bool → Prop
  | printed {t : String} :
    output = some t → Occurs s t → CameOut config doc s above p output d false
  | held {table : Occurrence} {rest : List Occurrence} {row : String} :
    above = table :: rest → table.node.kind = .table → (p.childIndex? table.place).isSome = true →
      isLong config table.node = true → row ∈ d.rowsOf table.place → Occurs s row →
        CameOut config doc s above p output d false
  | routed {z : Zone} {k : Nat} {t : String} :
    d.slots.Rests doc.zoneAt z k t → z ≠ .body → Occurs s t →
      CameOut config doc s above p output d true

theorem CameOut.of_exists {p : Place} (h : ∃ t, output = some t ∧ Occurs s t) :
    CameOut config doc s above p output d false := by
  obtain ⟨t, ht, hs⟩ := h
  exact .printed ht hs

theorem CameOut.of_carries {p : Place} {ws : List String} (hs : IsCompact s)
    (h : Carries ws (output.getD "").toList) (hw : s ∈ ws) :
    CameOut config doc s above p output d false := by
  have hoccurs := h.occurs hw
  cases output with
  | none => exact absurd (hoccurs.ne_empty hs) (by decide)
  | some t => exact .printed rfl hoccurs

theorem CameOut.of_map {p : Place} {x : Action String}
    (hrun : (some <$> x) c = (.ok output, d)) (h : ∀ t, x c = (.ok t, d) → Occurs s t) :
    CameOut config doc s above p output d false := by
  obtain ⟨t, hx, rfl⟩ := ok_of_map hrun
  exact .printed rfl (h t hx)

/-- The section text of a heading is printed in its place or routed. -/
theorem cameOut_of_heading {S : Scope} {ix : LinkIndex} {h : Heading} (ho : S.Admits o)
    (hS : S.zoneAt = doc.zoneAt) (hindex : c.references.index = ix)
    (hsound : c.slots.IsSound S.zoneAt)
    (hsection : ∀ t c', sectionOf config o h parts c = (.ok t, c') →
      c'.references.places <+: d.references.places → Occurs s t)
    (hrun : heading config o h parts c = (.ok output, d)) :
    CameOut config doc s above o.place output d (o.node.zone != .body) := by
  rw [heading_eq] at hrun
  obtain ⟨t, c₁, ht, hrun⟩ := ok_of_bind hrun
  split at hrun
  · next hbody =>
    cases hrun
    rw [hbody]
    exact .printed rfl (hsection t d ht List.prefix_rfl)
  · next hbody =>
    obtain ⟨_, c₂, hroute, hrun⟩ := ok_of_bind hrun
    cases hrun
    have hpassage : Passage S c c₁ :=
      passage_of_passing ((Passing.closed S ix).sectionOf config o h parts) hindex ht
    have hrouted : Passage S c₁ d :=
      passage_of_passing ((Passing.admits ho).route hbody t) (hpassage.index.trans hindex) hroute
    obtain ⟨k, hrests⟩ := rests_of_route (hpassage.sound hsound) hbody ho.zone hroute
    rw [show (o.node.zone != .body) = true by simpa using hbody]
    exact .routed (hS ▸ hrests) hbody (hsection t c₁ ht hrouted.places)

theorem occurs_of_footnoteReference {expand : Occurrence → Action String}
    {label : Option String} {contents t : String} (hs : IsWhole s)
    (hproper : o.node.isProper = true)
    (hfirst : ∀ l, label = some l → c.footnotes.lookup (.str l) = none)
    (hchildren : o.node.children ≠ []) (hpart : Occurs s contents)
    (hrun : footnoteReference expand o label contents c = (.ok t, d)) : Occurs s t := by
  have htext := occurs_footnoteText hs.toIsCompact hpart
  cases refers_of_footnoteReference hproper hrun with
  | unnamed => exact htext
  | again hnext =>
    rw [nextFootnote_of_unused (hfirst _ rfl)] at hnext
    cases hnext
  | first => exact htext
  | defined _ hempty => exact absurd hempty hchildren

/-- The first use of a footnote without a text of its own prints the text of its definition. -/
theorem ok_of_footnoteReference {expand : Occurrence → Action String} {label contents t : String}
    {number : Nat} {c' : Context} (hproper : o.node.isProper = true)
    (hchildren : o.node.children = [])
    (hnext : nextFootnote (.str label) c = (.ok (number, true), c'))
    (hrun : footnoteReference expand o (some label) contents c = (.ok t, d)) :
    ∃ definition text,
      c'.references.index.footnote (.str label) (some o.node.origin) = .ok definition ∧
        expand definition c' = (.ok text, d) ∧ t = footnoteText text := by
  cases refers_of_footnoteReference hproper hrun with
  | again hnext' =>
    rw [hnext] at hnext'
    cases hnext'
  | first _ hchildren' => exact absurd hchildren hchildren'
  | defined hnext' _ hfound hexpand =>
    rw [hnext] at hnext'
    cases hnext'
    exact ⟨_, _, hfound, hexpand, rfl⟩

/-- One word that is looked for on one branch. -/
def wordOn (b : Branch) (s : String) (b' : Branch) : List String := if b' = b then [s] else []

theorem areCompact_wordOn (hs : IsCompact s) (b b' : Branch) : AreCompact (wordOn b s b') := by
  intro w hw
  simp only [wordOn, List.mem_ite_nil_right, List.mem_singleton] at hw
  exact hw.2 ▸ hs

theorem carries_wordOn {b : Branch} (hs : IsCompact s) (h : Occurs s (parts.on b)) (b' : Branch) :
    Carries (wordOn b s b') (parts.on b').toList := by
  by_cases hb : b' = b
  · rw [hb]
    simpa [wordOn] using Carries.of_occurs hs h
  · simpa [wordOn, hb] using Carries.nil (parts.on b').toList

/-- A row with its cells is printed, or held back for the foot of its table. -/
theorem cameOut_of_tableRow {contents : String} (hs : IsWhole s)
    (hpass : o.passesCells config c.ancestors = true) (hpart : Occurs s contents)
    (hrun : tableRow config o contents c = (.ok output, d)) :
    CameOut config doc s c.ancestors o.place output d false := by
  have hcarries := Carries.of_occurs hs.toIsCompact hpart
  rcases carries_of_tableRow hcarries hrun with ⟨table, text, hheld, hhold, -, htext⟩ | ⟨-, rfl, h⟩
  · unfold Occurrence.passesCells at hpass
    split at hpass
    · next table' rest habove =>
      rw [Bool.and_eq_true, beq_iff_eq] at hpass
      rw [Occurrence.heldFor?, table?_of_ancestors habove hpass.1, Option.bind_some] at hheld
      obtain ⟨index, hindex, hheld⟩ := Option.bind_eq_some_iff.mp hheld
      obtain ⟨i, hi, -⟩ := Option.bind_eq_some_iff.mp hindex
      split at hheld
      · next hfoot =>
        obtain rfl := Option.some.inj hheld
        cases hhold
        refine .held habove hpass.1 (by rw [hi]; rfl) (Bool.and_eq_true_iff.mp hfoot).1 ?_
          (htext.occurs List.mem_cons_self)
        simp [rowsOf]
      · cases hheld
    · cases hpass
  · exact .of_carries hs.toIsCompact (h hpass) List.mem_cons_self

variable (hs : IsWhole s) (ho : o ∈ doc.occurrences (.ofRoot 0)) (hproper : o.node.isProper = true)
  (hindex : c.references.index = doc.index) (hsound : c.slots.IsSound doc.zoneAt)
  {expand : Occurrence → Action String}

include hs ho hproper hindex hsound

omit hs hproper in
/-- The label of an occurrence comes out of it where its kind prints labels. -/
theorem cameOut_of_printsLabel {r : References} (hlabel : o.node.printsLabel = true)
    (hkey : o.node.forcesLabel = true ∨ o.node.explicitKey.isSome = true)
    (hne : r.labelText o ≠ "") (hd : d.references.places <+: r.places)
    (hrun : transcribeElement config expand o parts c = (.ok output, d)) :
    CameOut config doc (o.definition config r) c.ancestors o.place output d
      (o.node.zone != .body) := by
  cases he : o.node.element with
  | heading h =>
    simp only [transcribeElement, he] at hrun
    have hadmits : (doc.scope fun _ ↦ True).Admits o :=
      Node.scope_admits ho trivial
    rw [Occurrence.definition, he]
    refine cameOut_of_heading hadmits rfl hindex hsound (fun t c' ht hc' ↦ ?_) hrun
    exact label_of_sectionOf ht (hc'.trans hd)
  | paragraph =>
    have hfigure : o.node.isFigure = true := by simpa [Node.printsLabel, he] using hlabel
    have hkey := hkey.resolve_left (by simp [Node.forcesLabel, he])
    rw [Node.zone_bne_body (by simp [he]), Occurrence.definition, he]
    simp only [transcribeElement, he] at hrun
    exact .of_exists (label_of_figure hd hkey hne hfigure hrun)
  | table =>
    have hkey := hkey.resolve_left (by simp [Node.forcesLabel, he])
    rw [Node.zone_bne_body (by simp [he]), Occurrence.definition, he]
    simp only [transcribeElement, he] at hrun
    exact .of_map hrun fun t ht ↦ label_of_table hd hkey hne ht
  | specialBlock type =>
    have hkey := hkey.resolve_left (by simp [Node.forcesLabel, he])
    rw [Node.zone_bne_body (by simp [he]), Occurrence.definition, he]
    simp only [transcribeElement, he] at hrun
    obtain ⟨label, c₁, hask, hrun⟩ := ok_of_bind hrun
    cases hrun
    obtain rfl := label?_eq hask hd hkey
    exact .printed rfl (occurs_specialText_label hne config type _ _)
  | codeBlock b =>
    have hkey := hkey.resolve_left (by simp [Node.forcesLabel, he])
    rw [Node.zone_bne_body (by simp [he]), Occurrence.definition, he]
    simp only [transcribeElement, he] at hrun
    exact .of_map hrun fun t ht ↦ label_of_codeBlock hd hkey hne ht
  | latexEnvironment value =>
    have hkey := hkey.resolve_left (by simp [Node.forcesLabel, he])
    rw [Node.zone_bne_body (by simp [he]), Occurrence.definition, he]
    simp only [transcribeElement, he] at hrun
    obtain ⟨label, c₁, hask, hrun⟩ := ok_of_bind hrun
    cases hrun
    obtain rfl := label?_eq hask hd hkey
    exact .printed rfl (occurs_displayText_label hne value)
  | target value =>
    rw [Node.zone_bne_body (by simp [he]), Occurrence.definition, he]
    simp only [transcribeElement, he] at hrun
    refine .of_map hrun fun t ht ↦ ?_
    rw [label_of_labelOf ht hd]
    exact .refl _
  | radioTarget value =>
    rw [Node.zone_bne_body (by simp [he]), Occurrence.definition, he]
    simp only [transcribeElement, he] at hrun
    obtain ⟨t, c₁, ht, hrun⟩ := ok_of_bind hrun
    cases hrun
    rw [label_of_labelOf ht hd]
    exact .printed rfl ((Occurs.refl _).append_right _)
  | _ => simp [Node.printsLabel, he] at hlabel

omit ho hindex hsound in
/-- What occurs in a part that an occurrence of the body passes on comes out of it. -/
theorem cameOut_of_passes_body {b : Branch} (hzone : o.node.zone = .body)
    (hpass : o.passes config c b = true) (hbranch : o.node.branch b ≠ [])
    (hpart : Occurs s (parts.on b))
    (hrun : transcribeElement config expand o parts c = (.ok output, d)) :
    CameOut config doc s c.ancestors o.place output d false := by
  have hplain : o.node.kind ≠ .tableRow →
      (o.node.kind = .table → isLong config o.node = false) → o.node.kind ≠ .footnoteReference →
        CameOut config doc s c.ancestors o.place output d false := by
    intro hrow htable hreference
    have hmem : s ∈ o.passed config c (wordOn b s) := o.mem_passed (b := b) (by simp [wordOn]) hpass
    refine .of_carries hs.toIsCompact (carries_of_transcribeElement hzone hrow htable hreference
      (areCompact_wordOn hs.toIsCompact b) (carries_wordOn hs.toIsCompact hpart)
      (fun hchildren ↦ if_neg ?_) hrun) hmem
    rintro rfl
    exact hbranch hchildren
  cases he : o.node.element with
  | tableRow kind =>
    simp only [transcribeElement, he] at hrun
    cases b with
    | children =>
      simp only [Occurrence.passes, he] at hpass
      exact cameOut_of_tableRow hs hpass hpart hrun
    | _ =>
      simp [Occurrence.passes, he, printsCaption, Node.isFigure, Node.kind, Element.kind] at hpass
  | footnoteReference label =>
    simp only [transcribeElement, he] at hrun
    cases b with
    | children =>
      refine .of_map hrun fun t ht ↦ ?_
      refine occurs_of_footnoteReference hs hproper (fun l hl ↦ ?_) hbranch hpart ht
      subst hl
      simpa [Occurrence.passes, he] using hpass
    | _ =>
      simp [Occurrence.passes, he, printsCaption, Node.isFigure, Node.kind, Element.kind] at hpass
  | table =>
    by_cases hlong : isLong config o.node = true
    · simp only [transcribeElement, he] at hrun
      cases b with
      | caption =>
        exact .of_map hrun fun t ht ↦ occurs_of_longTable hs hlong (.inl hpart) ht
      | children =>
        exact .of_map hrun fun t ht ↦ occurs_of_longTable hs hlong (.inr (.inl hpart)) ht
      | title | tag => simp [Occurrence.passes, Node.kind, he, Element.kind] at hpass
    · exact hplain (by simp [Node.kind, he, Element.kind])
        (fun _ ↦ Bool.eq_false_iff.mpr hlong) (by simp [Node.kind, he, Element.kind])
  | _ =>
    exact hplain (by simp [Node.kind, he, Element.kind])
      (fun h ↦ absurd h (by simp [Node.kind, he, Element.kind]))
      (by simp [Node.kind, he, Element.kind])

/-- What occurs in a part that an occurrence passes on comes out of it. -/
theorem cameOut_of_passes {b : Branch} (hpass : o.passes config c b = true)
    (hbranch : o.node.branch b ≠ []) (hpart : Occurs s (parts.on b))
    (hrun : transcribeElement config expand o parts c = (.ok output, d)) :
    CameOut config doc s c.ancestors o.place output d (o.node.zone != .body) := by
  by_cases hzone : o.node.zone = .body
  · have hbody : (o.node.zone != .body) = false := by rw [hzone]; rfl
    rw [hbody]
    exact cameOut_of_passes_body hs hproper hzone hpass hbranch hpart hrun
  · cases he : o.node.element with
    | heading h =>
      simp only [transcribeElement, he] at hrun
      have hadmits : (doc.scope fun _ ↦ True).Admits o := Node.scope_admits ho trivial
      refine cameOut_of_heading hadmits rfl hindex hsound (fun t c' ht _ ↦ ?_) hrun
      have hparts := carries_wordOn hs.toIsCompact hpart
      have htext := carries_of_sectionOf (hparts .title) (hparts .children) ht
      refine htext.occurs ?_
      cases b with
      | title => simp_all [Occurrence.passes, wordOn]
      | children => simp [wordOn]
      | _ =>
        simp [Occurrence.passes, printsCaption, Node.isFigure, Node.kind, he, Element.kind] at hpass
    | _ => exact absurd (by simp [Node.zone, he]) hzone

end

end Typeset

import Typeset.Proofs.Latex.Enumerations
import Typeset.Proofs.Render.Arrival

/-!
# Enumerations that are printed

What a tree prints opens and closes the enumerations that its nodes open and close, and sets the
counters of their items, in the order of the text. What goes into the buffer of a zone, or is held
back for the foot of a table, has its marks there.
-/

namespace Typeset

open Action Context Latex Render Text

/-! ## Marks -/

namespace Occurrence

/-- What an occurrence prints in a context stands where the occurrence stands. It does not if it is
the section of a zone other than the body or a row that is held back for the foot of its table. -/
def staysInPlace (config : Config) (c : Context) (o : Occurrence) : Bool :=
  o.node.zone == .body && (o.node.kind != .tableRow || (o.heldFor? config c).isNone)

/-- The marks of a reference to a footnote, which prints its contents or the text of a definition
where the footnote is new. -/
def referenceMarks (inNote : Occurrence → Context → List EnumMark) (c : Context) (o : Occurrence)
    (label : Option String) (contents : List EnumMark) : List EnumMark :=
  match label with
  | none => contents
  | some label =>
    match nextFootnote (.str label) c with
    | (.ok (_, true), d) =>
      if o.node.children.isEmpty then
        match d.references.index.footnote (.str label) (some o.node.origin) with
        | .ok definition => inNote definition d
        | .error _ => []
      else contents
    | _ => []

/-- The marks in what an occurrence prints in a context, given those on its branches. -/
def elementMarks (config : Config) (inNote : Occurrence → Context → List EnumMark) (c : Context)
    (o : Occurrence) (on : Branch → List EnumMark) : List EnumMark :=
  match o.node.element with
  | .heading h => sectionMarks config h (on .title) (on .children)
  | .plainList kind => listMarks kind o.node.attributes (on .children)
  | .item _ counter => itemMarks counter (itemDepth? c) (on .tag) (on .children)
  | .specialBlock type => specialMarks config type (on .children)
  | .table =>
    if isLong config o.node then on .caption ++ on .children
    else tableMarks config o.node (on .caption) (on .children)
  | .footnoteReference label => referenceMarks inNote c o label (on .children)
  | _ => o.passed config c on

end Occurrence

namespace EnumMark

mutual

/-- The marks in what a tree prints at a place, if the printing comes to it in the context. -/
def inNode (config : Config) (expand : Occurrence → Action String)
    (inNote : Occurrence → Context → List EnumMark) (p : Place) (c : Context) :
    Node → List EnumMark
  | ⟨info, children, title, tag, caption⟩ =>
    let o : Occurrence := ⟨p, ⟨info, children, title, tag, caption⟩⟩
    let on : Branch → List EnumMark
      | .title => inAll config expand inNote p .title (arrival config expand o .title · c) 0 title
      | .tag => inAll? config expand inNote p .tag (arrival config expand o .tag · c) tag
      | .caption =>
        if printsCaption o.node then
          inAll? config expand inNote p .caption (arrival config expand o .caption · c) caption
        else []
      | .children =>
        inAll config expand inNote p .children (arrival config expand o .children · c) 0 children
    o.elementMarks config inNote (departure config expand o c) on
termination_by structural n => n

/-- The marks in what the trees of a branch print in their place from an index on. -/
def inAll (config : Config) (expand : Occurrence → Action String)
    (inNote : Occurrence → Context → List EnumMark) (p : Place) (b : Branch)
    (arrivals : Nat → Context) (i : Nat) : List Node → List EnumMark
  | [] => []
  | n :: ns =>
    let o : Occurrence := ⟨p.down b i, n⟩
    (if o.staysInPlace config (departure config expand o (arrivals i)) then
      inNode config expand inNote o.place (arrivals i) n
    else []) ++ inAll config expand inNote p b arrivals (i + 1) ns
termination_by structural ns => ns

/-- The marks in what the trees of a branch that may be missing print in their place. -/
def inAll? (config : Config) (expand : Occurrence → Action String)
    (inNote : Occurrence → Context → List EnumMark) (p : Place) (b : Branch)
    (arrivals : Nat → Context) : Option (List Node) → List EnumMark
  | none => []
  | some ns => inAll config expand inNote p b arrivals 0 ns
termination_by structural ns => ns

end

/-- The marks in the text of a footnote's definition, with at most so many others inside. -/
def inNote (config : Config) : Nat → Occurrence → Context → List EnumMark
  | 0, _, _ => []
  | depth + 1, d, c =>
    inAll config (definitionText config depth) (inNote config depth) d.place .children
      (arrivalInNote config (definitionText config depth) d · c) 0 d.node.children

end EnumMark

namespace Occurrence

/-- The marks in what an occurrence prints if the printing comes to it in a context, where at most
so many footnotes follow inside each other. -/
def enumMarks (config : Config) (depth : Nat) (o : Occurrence) (c : Context) : List EnumMark :=
  EnumMark.inNode config (definitionText config depth) (EnumMark.inNote config depth) o.place c
    o.node

/-- The marks in what is printed on a branch of an occurrence. -/
def branchMarks (config : Config) (depth : Nat) (o : Occurrence) (c : Context) (b : Branch) :
    List EnumMark :=
  if b = .caption ∧ printsCaption o.node = false then []
  else EnumMark.inAll config (definitionText config depth) (EnumMark.inNote config depth) o.place b
    (arrival config (definitionText config depth) o b · c) 0 (o.node.branch b)

theorem enumMarks_eq (config : Config) (depth : Nat) (o : Occurrence) (c : Context) :
    o.enumMarks config depth c =
      o.elementMarks config (EnumMark.inNote config depth)
        (departure config (definitionText config depth) o c) (o.branchMarks config depth c) := by
  obtain ⟨p, ⟨info, children, title, tag, caption⟩⟩ := o
  rw [enumMarks, EnumMark.inNode]
  congr 1
  funext b
  cases b with
  | title | children => rfl
  | tag => cases tag <;> rfl
  | caption =>
    unfold branchMarks
    cases printsCaption ⟨info, children, title, tag, caption⟩ with
    | true => cases caption <;> rfl
    | false => rfl

end Occurrence

/-! ## What is delivered -/

/-- The text that an occurrence delivers when it has been printed in a context: its output, a
section for the buffer of a zone, or a row for the foot of a table. -/
inductive Delivers (config : Config) (o : Occurrence) (c : Context) (output : Option String)
    (d : Context) : String → Prop
  | inPlace : o.staysInPlace config c = true → Delivers config o c output d (output.getD "")
  | routed {t : String} {c' : Context} : o.node.zone ≠ .body →
    route o.node.zone t (some o.place) c' = (.ok (), d) → Delivers config o c output d t
  | held {t : String} {table : Place} : o.node.kind = .tableRow →
    o.heldFor? config c = some table → hold table t c = (.ok (), d) →
      Delivers config o c output d t

section

variable {config : Config} {o : Occurrence} {parts : Parts} {c d : Context}
  {output : Option String} {on : Branch → List EnumMark} {expand : Occurrence → Action String}
  {inNote : Occurrence → Context → List EnumMark}

theorem Delivers.of_kind {t : String} (hheading : ∀ h, o.node.element ≠ .heading h)
    (hrow : o.node.kind ≠ .tableRow) (hout : output.getD "" = t) :
    Delivers config o c output d t := by
  subst hout
  refine .inPlace ?_
  have hzone : o.node.zone = .body := by simpa using Node.zone_bne_body hheading
  simp [Occurrence.staysInPlace, hzone, hrow]

section

variable {ms ns : List EnumMark}

theorem carries_of_listMarks {kind : ListKind} {contents t : String}
    (hcontents : Carries (EnumMark.texts ms) contents.toList)
    (hrun : plainList o kind contents c = (.ok t, d)) :
    Carries (EnumMark.texts (listMarks kind o.node.attributes ms)) t.toList := by
  obtain ⟨_, c₁, -, hrun⟩ := ok_of_bind hrun
  exact carries_listMarks hcontents (Prod.mk.inj hrun).1

theorem carries_of_itemMarks {checkbox : Option Checkbox} {counter : Option Int} {t : String}
    (htag : Carries (EnumMark.texts ms) parts.tag.toList)
    (hcontents : Carries (EnumMark.texts ns) parts.contents.toList)
    (hrun : item o checkbox counter parts c = (.ok t, d)) :
    Carries (EnumMark.texts (itemMarks counter (itemDepth? c) ms ns)) t.toList := by
  obtain ⟨depth, c₁, hask, hrun⟩ := ok_of_bind hrun
  obtain rfl : itemDepth? c = depth := Except.ok.inj (Prod.mk.inj hask).1
  obtain ⟨_, c₂, -, hrun⟩ := ok_of_bind hrun
  obtain ⟨_, c₃, -, hrun⟩ := ok_of_bind hrun
  obtain ⟨rfl, rfl⟩ := ok_of_pure hrun
  exact carries_itemMarks htag hcontents

theorem carries_of_tableMarks {t : String}
    (hcaption : Carries (EnumMark.texts ms) parts.caption.toList)
    (hcontents : Carries (EnumMark.texts ns) parts.contents.toList)
    (hrun : table config o parts c = (.ok t, d)) :
    Carries (EnumMark.texts (if isLong config o.node then ms ++ ns
      else tableMarks config o.node ms ns)) t.toList := by
  split
  · next hlong =>
    have hwhole : ∀ w ∈ EnumMark.texts ns, IsUncut headEnd w := by
      intro w hw
      obtain ⟨m, -, rfl⟩ := List.mem_map.mp hw
      exact m.isWhole_word.uncut
    have htext := carries_of_longTable hlong hcaption hcontents (.none _) (fun _ ↦ hwhole) hrun
    rw [List.append_nil, List.take_append_drop] at htext
    rwa [EnumMark.texts, List.map_append]
  · next hshort =>
    obtain ⟨label, c', -, hrun⟩ := ok_of_table hrun
    rw [if_neg hshort] at hrun
    obtain ⟨rfl, rfl⟩ := hrun
    exact carries_tableMarks (fun float ↦ carries_captionText hcaption float label) hcontents

/-- A reference to a footnote has the marks of its contents, or of the definition that it prints. -/
theorem carries_of_referenceMarks {label : Option String} {contents t : String}
    (hproper : o.node.isProper = true) (hcontents : Carries (EnumMark.texts ms) contents.toList)
    (hnote : ∀ name number definition e text, label = some name →
      nextFootnote (.str name) c = (.ok (number, true), e) →
        e.references.index.footnote (.str name) (some o.node.origin) = .ok definition →
          expand definition e = (.ok text, d) →
            Carries (EnumMark.texts (inNote definition e)) text.toList)
    (hrun : footnoteReference expand o label contents c = (.ok t, d)) :
    Carries (EnumMark.texts (o.referenceMarks inNote c label ms)) t.toList := by
  have hcompact := EnumMark.areCompact_texts
  cases refers_of_footnoteReference hproper hrun with
  | unnamed => exact carries_footnoteText (hcompact ms) hcontents
  | again hnext =>
    simp only [Occurrence.referenceMarks, hnext]
    exact .nil _
  | first hnext hchildren =>
    simp only [Occurrence.referenceMarks, hnext, List.isEmpty_iff, hchildren]
    exact carries_footnoteText (hcompact ms) hcontents
  | defined hnext hempty hfound hexpand =>
    simp only [Occurrence.referenceMarks, hnext, hempty, List.isEmpty_nil, if_true, hfound]
    exact carries_footnoteText (hcompact _) (hnote _ _ _ _ _ rfl hnext hfound hexpand)

theorem exists_delivered_heading {h : Heading} (helement : o.node.element = .heading h)
    (htitle : Carries (EnumMark.texts ms) parts.title.toList)
    (hcontents : Carries (EnumMark.texts ns) parts.contents.toList)
    (hrun : heading config o h parts c = (.ok output, d)) :
    ∃ t, Delivers config o c output d t ∧
      Carries (EnumMark.texts (sectionMarks config h ms ns)) t.toList := by
  rw [heading_eq] at hrun
  obtain ⟨t, c₁, ht, hrun⟩ := ok_of_bind hrun
  obtain ⟨label, c₂, -, ht⟩ := ok_of_bind ht
  obtain ⟨_, c₃, -, ht⟩ := ok_of_bind ht
  refine ⟨t, ?_, carries_sectionMarks htitle hcontents (Prod.mk.inj ht).1⟩
  split at hrun
  · next hbody =>
    obtain ⟨rfl, rfl⟩ := ok_of_pure hrun
    refine .inPlace ?_
    simp [Occurrence.staysInPlace, hbody, Node.kind, helement, Element.kind]
  · next hzone =>
    obtain ⟨_, c₄, hroute, hrun⟩ := ok_of_bind hrun
    obtain ⟨rfl, rfl⟩ := ok_of_pure hrun
    exact .routed hzone hroute

/-- A row passes on what its cells print, if it prints them. -/
theorem passed_eq_of_tableRow {kind : RowKind} (helement : o.node.element = .tableRow kind) :
    o.passed config c on = if o.passesCells config c.ancestors then on .children else [] := by
  rw [Occurrence.passed_eq_contents on (by simp [Node.kind, helement, Element.kind])
    (by simp [Node.kind, helement, Element.kind])
    (by simp [printsCaption, Node.isFigure, Node.kind, helement, Element.kind])]
  simp only [Occurrence.passes, helement]

theorem exists_delivered_tableRow {kind : RowKind} (helement : o.node.element = .tableRow kind)
    (hcontents : Carries (EnumMark.texts ms) parts.contents.toList)
    (hrun : tableRow config o parts.contents c = (.ok output, d)) :
    ∃ t, Delivers config o c output d t ∧ Carries
      (EnumMark.texts (if o.passesCells config c.ancestors then ms else [])) t.toList := by
  rcases carries_of_tableRow hcontents hrun with ⟨table, t, hheld, hhold, -, ht⟩ | ⟨hheld, -, hprinted⟩
  · refine ⟨t, .held (by rw [Node.kind, helement, Element.kind]) hheld hhold, ?_⟩
    split
    · exact ht
    · exact .nil _
  · refine ⟨_, .inPlace ?_, ?_⟩
    · have hzone : o.node.zone = .body := by simpa using Node.zone_bne_body (by simp [helement])
      simp [Occurrence.staysInPlace, hzone, hheld]
    · split
      · next hpass => exact hprinted hpass
      · exact .nil _

end

/-- What an occurrence delivers has its marks, if its parts have theirs and the texts of definitions
have their own. -/
theorem exists_delivered (hproper : o.node.isProper = true)
    (hparts : ∀ b, Carries (EnumMark.texts (on b)) (parts.on b).toList)
    (hchildren : o.node.children = [] → on .children = [])
    (hnote : ∀ name number definition e text, o.node.element = .footnoteReference (some name) →
      nextFootnote (.str name) c = (.ok (number, true), e) →
        e.references.index.footnote (.str name) (some o.node.origin) = .ok definition →
          expand definition e = (.ok text, d) →
            Carries (EnumMark.texts (inNote definition e)) text.toList)
    (hrun : transcribeElement config expand o parts c = (.ok output, d)) :
    ∃ t, Delivers config o c output d t ∧
      Carries (EnumMark.texts (o.elementMarks config inNote c on)) t.toList := by
  have htitle : Carries (EnumMark.texts (on .title)) parts.title.toList := hparts .title
  have htag : Carries (EnumMark.texts (on .tag)) parts.tag.toList := hparts .tag
  have hcaption : Carries (EnumMark.texts (on .caption)) parts.caption.toList := hparts .caption
  have hcontents : Carries (EnumMark.texts (on .children)) parts.contents.toList := hparts .children
  cases he : o.node.element with
  | heading h =>
    simp only [transcribeElement, he] at hrun
    simp only [Occurrence.elementMarks, he]
    exact exists_delivered_heading he htitle hcontents hrun
  | tableRow kind =>
    simp only [transcribeElement, he] at hrun
    simp only [Occurrence.elementMarks, he, passed_eq_of_tableRow he]
    exact exists_delivered_tableRow he hcontents hrun
  | plainList kind =>
    simp only [transcribeElement, he] at hrun
    obtain ⟨t, ht, rfl⟩ := ok_of_map hrun
    refine ⟨t, .of_kind (by simp [he]) (by simp [Node.kind, he, Element.kind]) rfl, ?_⟩
    simp only [Occurrence.elementMarks, he]
    exact carries_of_listMarks hcontents ht
  | item checkbox counter =>
    simp only [transcribeElement, he] at hrun
    obtain ⟨t, ht, rfl⟩ := ok_of_map hrun
    refine ⟨t, .of_kind (by simp [he]) (by simp [Node.kind, he, Element.kind]) rfl, ?_⟩
    simp only [Occurrence.elementMarks, he]
    exact carries_of_itemMarks htag hcontents ht
  | specialBlock type =>
    simp only [transcribeElement, he] at hrun
    obtain ⟨label, c₁, -, hrun⟩ := ok_of_bind hrun
    cases hrun
    refine ⟨_, .of_kind (by simp [he]) (by simp [Node.kind, he, Element.kind]) rfl, ?_⟩
    simp only [Occurrence.elementMarks, he]
    exact carries_specialMarks hcontents config type _ label
  | table =>
    simp only [transcribeElement, he] at hrun
    obtain ⟨t, ht, rfl⟩ := ok_of_map hrun
    refine ⟨t, .of_kind (by simp [he]) (by simp [Node.kind, he, Element.kind]) rfl, ?_⟩
    simp only [Occurrence.elementMarks, he]
    exact carries_of_tableMarks hcaption hcontents ht
  | footnoteReference label =>
    simp only [transcribeElement, he] at hrun
    obtain ⟨t, ht, rfl⟩ := ok_of_map hrun
    refine ⟨t, .of_kind (by simp [he]) (by simp [Node.kind, he, Element.kind]) rfl, ?_⟩
    simp only [Occurrence.elementMarks, he]
    exact carries_of_referenceMarks hproper hcontents
      (fun name number definition e text hname ↦
        hnote name number definition e text (hname ▸ he)) ht
  | _ =>
    refine ⟨_, .of_kind (by simp [he]) (by simp [Node.kind, he, Element.kind]) rfl, ?_⟩
    simp only [Occurrence.elementMarks, he]
    rw [EnumMark.texts, ← Occurrence.passed_map]
    have hzone : o.node.zone = .body := by simpa using Node.zone_bne_body (by simp [he])
    exact carries_of_transcribeElement hzone (by simp [Node.kind, he, Element.kind])
      (by simp [Node.kind, he, Element.kind]) (by simp [Node.kind, he, Element.kind])
      (fun b ↦ EnumMark.areCompact_texts (on b)) hparts (fun h ↦ by rw [hchildren h]; rfl) hrun

/-- The output of what stays in its place is what it delivers. -/
theorem Delivers.eq_of_staysInPlace {t : String} (h : Delivers config o c output d t)
    (hplace : o.staysInPlace config c = true) : t = output.getD "" := by
  simp only [Occurrence.staysInPlace, Bool.and_eq_true, beq_iff_eq, Bool.or_eq_true, bne_iff_ne,
    ne_eq, Option.isNone_iff_eq_none] at hplace
  cases h with
  | inPlace => rfl
  | routed hzone => exact absurd hplace.1 hzone
  | held hrow hheld =>
    rcases hplace.2 with hkind | hnone
    · exact absurd hrow hkind
    · rw [hnone] at hheld
      cases hheld

/-! ## Nesting -/

theorem Occurrence.areNested_passed {depth : Nat} (hon : ∀ b, EnumMark.AreNested depth (on b)) :
    EnumMark.AreNested depth (o.passed config c on) := by
  have hpassed : ∀ b, EnumMark.AreNested depth (o.passedOn config c on b) := by
    intro b
    unfold passedOn
    split
    · exact hon b
    · exact .nil depth
  unfold passed
  refine ((hpassed .title).append (hpassed .tag)).append ?_
  split
  · exact (hpassed .caption).append (hpassed .children)
  · exact (hpassed .children).append (hpassed .caption)

/-- The marks of an occurrence are nested if those on its branches are, where the children of an
ordered list have one more list around. -/
theorem Occurrence.areNested_elementMarks
    (hlist : ∀ kind, o.node.element = .plainList kind →
      o.node.attributes.shown? "environment" = none)
    (hothers : ∀ b, b ≠ .children → EnumMark.AreNested c.orderedDepth (on b))
    (hchildren : EnumMark.AreNested (c.orderedDepth + o.node.isOrderedList.toNat) (on .children))
    (hnote : ∀ name number definition e, o.node.element = .footnoteReference (some name) →
      o.node.children = [] → nextFootnote (.str name) c = (.ok (number, true), e) →
        e.references.index.footnote (.str name) (some o.node.origin) = .ok definition →
          EnumMark.AreNested c.orderedDepth (inNote definition e)) :
    EnumMark.AreNested c.orderedDepth (o.elementMarks config inNote c on) := by
  have htitle := hothers .title (by decide)
  have htag := hothers .tag (by decide)
  have hcaption := hothers .caption (by decide)
  have hplain : (∀ kind, o.node.element ≠ .plainList kind) →
      EnumMark.AreNested c.orderedDepth (on .children) := by
    intro hnot
    have hnone : o.node.isOrderedList = false := by simpa [Node.isOrderedList] using hnot .ordered
    simpa [hnone] using hchildren
  cases he : o.node.element with
  | heading h =>
    simp only [elementMarks, he]
    exact areNested_sectionMarks config h htitle (hplain (by simp [he]))
  | plainList kind =>
    simp only [elementMarks, he]
    have hordered : o.node.isOrderedList = decide (kind = .ordered) := by
      rw [Node.isOrderedList, he]
      cases kind <;> rfl
    exact areNested_listMarks (hlist kind he) (hordered ▸ hchildren)
  | item checkbox counter =>
    simp only [elementMarks, he]
    refine areNested_itemMarks counter (fun d hd ↦ ?_) htag (hplain (by simp [he]))
    unfold itemDepth? at hd
    split at hd
    · exact (Option.some.inj hd).symm
    · cases hd
  | specialBlock type =>
    simp only [elementMarks, he]
    exact areNested_enclosed (hplain (by simp [he]))
  | table =>
    simp only [elementMarks, he]
    split
    · exact hcaption.append (hplain (by simp [he]))
    · exact areNested_tableMarks config o.node hcaption (hplain (by simp [he]))
  | footnoteReference label =>
    simp only [elementMarks, he]
    have hcontents := hplain (by simp [he])
    unfold referenceMarks
    split
    · exact hcontents
    · next name =>
      split
      · next number e hnext =>
        split
        · next hempty =>
          split
          · next definition hfound =>
            exact hnote name number definition e he (List.isEmpty_iff.mp hempty) hnext hfound
          · exact .nil _
        · exact hcontents
      · exact .nil _
  | _ =>
    simp only [elementMarks, he]
    refine areNested_passed fun b ↦ ?_
    cases b with
    | children => exact hplain (by simp [he])
    | title | tag | caption => exact hothers _ (by decide)

end

/-! ## Whole trees -/

/-- The marks are nested among some ordered lists, and stand in the text. -/
structure EnumMark.StandIn (depth : Nat) (ms : List EnumMark) (t : String) : Prop where
  carries : Carries (EnumMark.texts ms) t.toList
  nested : EnumMark.AreNested depth ms

section

variable {config : Config} {expand : Occurrence → Action String}
  {inNote : Occurrence → Context → List EnumMark}

/-- Trees in a row have their marks in a row. -/
theorem EnumMark.standIn_inAll {p : Place} {b : Branch} {arrivals : Nat → Context} {k i : Nat}
    {ns : List Node} {outputs : List (Option String)}
    (h : ∀ j m, ns[j]? = some m → ∃ output, outputs[j]? = some output ∧
      EnumMark.StandIn k (if (⟨p.down b (i + j), m⟩ : Occurrence).staysInPlace config
          (departure config expand ⟨p.down b (i + j), m⟩ (arrivals (i + j))) then
        EnumMark.inNode config expand inNote (p.down b (i + j)) (arrivals (i + j)) m else [])
        (output.getD "")) :
    EnumMark.StandIn k (EnumMark.inAll config expand inNote p b arrivals i ns)
      (spaced ns outputs) := by
  induction ns generalizing i outputs with
  | nil => exact ⟨.nil _, .nil k⟩
  | cons n ns ih =>
    obtain ⟨output, houtput, hfirst⟩ := h 0 n rfl
    rcases outputs with _ | ⟨first, outputs⟩
    · cases houtput
    · obtain rfl := Option.some.inj houtput
      have hrest : EnumMark.StandIn k
          (EnumMark.inAll config expand inNote p b arrivals (i + 1) ns) (spaced ns outputs) := by
        refine ih fun j m hm ↦ ?_
        rw [show i + 1 + j = i + (j + 1) by omega]
        exact h (j + 1) m hm
      rw [Nat.add_zero] at hfirst
      refine ⟨?_, hfirst.nested.append hrest.nested⟩
      rw [EnumMark.inAll, EnumMark.texts, List.map_append]
      cases first with
      | none =>
        rw [List.map_eq_nil_iff.mp hfirst.carries.eq_nil]
        exact hrest.carries
      | some t =>
        rw [spaced, String.toList_append, String.toList_append]
        exact (hfirst.carries.append_right _).append hrest.carries

end

section

variable {config : Config} {doc : Node} {depth : Nat}

/-- The texts of footnotes' definitions have their marks. -/
def EnumMark.StandInNotes (config : Config) (doc : Node) (depth : Nat) : Prop :=
  ∀ definition ∈ doc.occurrences (.ofRoot 0), ∀ c text d,
    (∀ u ∈ c.ancestors, u ∈ doc.occurrences (.ofRoot 0)) → c.references.index = doc.index →
      c.slots.IsSound doc.zoneAt → definitionText config depth definition c = (.ok text, d) →
        EnumMark.StandIn c.orderedDepth (EnumMark.inNote config depth definition c) text

/-- No list of the document asks for another environment. -/
def Node.KeepsListEnvironments (doc : Node) : Prop :=
  ∀ n ∈ doc.visit, n.kind = .plainList → n.attributes.shown? "environment" = none

instance (doc : Node) : Decidable doc.KeepsListEnvironments :=
  inferInstanceAs (Decidable (∀ n ∈ doc.visit, _ → _))

/-- The number of ordered lists around what is printed on a branch of an occurrence. -/
def Occurrence.depthOn (o : Occurrence) (c : Context) (b : Branch) : Nat :=
  c.orderedDepth + if b = .children then o.node.isOrderedList.toNat else 0

theorem orderedDepth_of_above {o : Occurrence} {b : Branch} {c c' : Context}
    (h : c'.ancestors = if b = .children then o :: c.ancestors else c.ancestors) :
    c'.orderedDepth = o.depthOn c b := by
  rw [Occurrence.depthOn, Context.orderedDepth, h]
  split
  · rw [List.countP_cons]
    cases o.node.isOrderedList <;> rfl
  · rfl

/-- A branch has its marks if the trees on it have theirs. -/
theorem Occurrence.standIn_branchMarks (o : Occurrence) {b : Branch} {c : Context} {k : Nat}
    {outputs : List (Option String)}
    (hchild : ∀ j m, (b = .caption → printsCaption o.node = true) → (o.node.branch b)[j]? = some m →
      ∃ output, outputs[j]? = some output ∧ EnumMark.StandIn k
        (if (⟨o.place.down b j, m⟩ : Occurrence).staysInPlace config
            (departure config (definitionText config depth) ⟨o.place.down b j, m⟩
              (arrival config (definitionText config depth) o b j c)) then
          enumMarks config depth ⟨o.place.down b j, m⟩
            (arrival config (definitionText config depth) o b j c) else []) (output.getD "")) :
    EnumMark.StandIn k (o.branchMarks config depth c b) (spaced (o.node.branch b) outputs) := by
  unfold branchMarks
  split
  · exact ⟨.nil _, .nil _⟩
  · next hcaption =>
    refine EnumMark.standIn_inAll fun j m hm ↦ ?_
    rw [Nat.zero_add]
    exact hchild j m (by simpa using hcaption) hm

variable (hdoc : doc.isProper = true) (hlists : doc.KeepsListEnvironments)

include hdoc hlists

omit hlists in
/-- Where a reference to a footnote is printed, the text of a definition has its marks. -/
theorem standIn_note (hnotes : EnumMark.StandInNotes config doc depth) {o : Occurrence}
    {c d : Context} {output : Option String} (harrives : Arrives doc o c)
    (hrun : node config (definitionText config depth) o.place o.node c = (.ok output, d))
    (name : String) (number : Nat) (definition : Occurrence) (e : Context) (text : String)
    (d' : Context)
    (hnext : nextFootnote (.str name) (departure config (definitionText config depth) o c) =
      (.ok (number, true), e))
    (hfound : e.references.index.footnote (.str name) (some o.node.origin) = .ok definition)
    (hexpand : definitionText config depth definition e = (.ok text, d')) :
    EnumMark.StandIn c.orderedDepth (EnumMark.inNote config depth definition e) text := by
  obtain ⟨outputs, e₀, hpassage, hancestors, he₀, -⟩ := harrives.ok_of_node hdoc hrun
  rw [← he₀] at hnext
  have he := eq_of_nextFootnote hnext
  have habove : e.ancestors = c.ancestors := by
    rw [he]
    exact hancestors
  have hindex : e.references.index = doc.index := by
    rw [he]
    exact hpassage.index.trans harrives.index
  have hsound : e.slots.IsSound doc.zoneAt := by
    rw [he]
    exact hpassage.sound harrives.sound
  rw [hindex] at hfound
  have hmem := List.mem_of_find?_eq_some (find?_of_footnote hdoc hfound)
  have hstand := hnotes definition hmem e text d' (habove ▸ harrives.above) hindex hsound hexpand
  rwa [Context.orderedDepth, habove] at hstand

/-- What a tree delivers has its marks, which are nested among the ordered lists around. -/
theorem exists_delivered_standIn (hnotes : EnumMark.StandInNotes config doc depth) (n : Node) :
    ∀ p c output d, Arrives doc ⟨p, n⟩ c →
      node config (definitionText config depth) p n c = (.ok output, d) →
        ∃ t, Delivers config ⟨p, n⟩ (departure config (definitionText config depth) ⟨p, n⟩ c)
            output d t ∧
          EnumMark.StandIn c.orderedDepth (Occurrence.enumMarks config depth ⟨p, n⟩ c) t := by
  induction n using Node.induction with
  | step n ih =>
    intro p c output d harrives hrun
    have hproper : n.isProper = true := harrives.isProper hdoc
    obtain ⟨e, outputs, he, hancestors, htranscribed, hruns⟩ := exists_childRuns
      (Node.scope_admitsNotes hdoc fun _ _ ↦ trivial) hproper harrives.scope_admits harrives.index
      hrun
    let o : Occurrence := ⟨p, n⟩
    have hbranch : ∀ b, EnumMark.StandIn (o.depthOn c b) (o.branchMarks config depth c b)
        (spaced (n.branch b) (outputs b)) := by
      intro b
      refine o.standIn_branchMarks fun j m hvisit hm ↦ ?_
      obtain ⟨before, after, c', d', output', hchild⟩ := hruns b j m hvisit hm
      obtain ⟨t, hdelivers, hstand⟩ := ih b m (List.mem_of_getElem? hm) (p.down b j) c' output' d'
        (harrives.child hdoc hchild hm) hchild.run
      refine ⟨output', hchild.output, ?_⟩
      rw [← hchild.arrival, ← orderedDepth_of_above hchild.above]
      -- what is delivered elsewhere has its marks there, and none in the text of the branch
      split
      · next hplace => exact hdelivers.eq_of_staysInPlace hplace ▸ hstand
      · exact ⟨.nil _, .nil _⟩
    have hparts : ∀ b, Carries (EnumMark.texts (o.branchMarks config depth c b))
        ((Parts.ofOutputs n outputs).on b).toList := by
      intro b
      cases b with
      | children => exact (hbranch .children).carries
      | title | tag | caption => exact (hbranch _).carries.strip (EnumMark.areCompact_texts _)
    have hnote := standIn_note hdoc hnotes harrives hrun
    rw [← he] at hnote ⊢
    rw [Occurrence.enumMarks_eq, ← he]
    have hdepth : e.orderedDepth = c.orderedDepth := by
      rw [Context.orderedDepth, hancestors]
      rfl
    have hempty : n.children = [] → o.branchMarks config depth c .children = [] := by
      intro hempty
      simp [Occurrence.branchMarks, o, Node.branch, hempty, EnumMark.inAll]
    obtain ⟨t, hdelivers, hcarries⟩ := exists_delivered hproper hparts hempty
      (fun name number definition e' text _ hnext hfound hexpand ↦
        (hnote name number definition e' text d hnext hfound hexpand).carries) htranscribed
    refine ⟨t, hdelivers, hcarries, ?_⟩
    rw [← hdepth]
    refine Occurrence.areNested_elementMarks ?_ ?_ ?_ ?_
    · exact fun kind hkind ↦
        hlists n (List.mem_map_of_mem harrives.mem) (by rw [Node.kind, hkind, Element.kind])
    · intro b hb
      have hnested := (hbranch b).nested
      rwa [Occurrence.depthOn, if_neg hb, ← hdepth] at hnested
    · have hnested := (hbranch .children).nested
      rwa [Occurrence.depthOn, if_pos rfl, ← hdepth] at hnested
    · intro name number definition e' helement hempty hnext hfound
      have helement : n.element = .footnoteReference (some name) := helement
      simp only [transcribeElement, helement] at htranscribed
      obtain ⟨t, hreference, -⟩ := ok_of_map htranscribed
      obtain ⟨definition', text, hfound', hexpand, -⟩ :=
        ok_of_footnoteReference hproper hempty hnext hreference
      obtain rfl := Except.ok.inj (hfound.symm.trans hfound')
      rw [hdepth]
      exact (hnote name number definition e' text d hnext hfound hexpand).nested

omit hlists in
theorem standIn_inNote (hlists : doc.KeepsListEnvironments) :
    EnumMark.StandInNotes config doc depth := by
  induction depth with
  | zero =>
    intro definition _ c text d _ _ _ hrun
    exact ⟨.nil _, .nil _⟩
  | succ depth ih =>
    intro definition hmem c text d habove hindex hsound hrun
    obtain ⟨outputs, rfl, hruns⟩ :=
      exists_runs_of_definitionText hdoc hmem hrun habove hindex hsound
    rw [EnumMark.inNote]
    refine EnumMark.standIn_inAll fun j m hm ↦ ?_
    rw [Nat.zero_add]
    obtain ⟨c', d', output, hnote, houtput⟩ := hruns j m hm
    obtain ⟨t, hdelivers, hstand⟩ :=
      exists_delivered_standIn hdoc hlists ih m _ c' output d' hnote.arrives hnote.run
    refine ⟨output, houtput, ?_⟩
    rw [← hnote.arrival]
    split
    · next hplace =>
      rw [← hdelivers.eq_of_staysInPlace hplace, Context.orderedDepth, ← hnote.above]
      exact hstand
    · exact ⟨.nil _, .nil _⟩

/-- Whatever the printing of a document comes to delivers a text that has its marks. -/
theorem Reaches.exists_delivered {body : Option String} {r : Context}
    (hrun : occurrence config ⟨.ofRoot 0, doc⟩ doc.start = (.ok body, r)) {o : Occurrence}
    {c : Context} (h : Reaches config doc depth o c) :
    ∃ output d t, node config (definitionText config depth) o.place o.node c = (.ok output, d) ∧
      Delivers config o (departure config (definitionText config depth) o c) output d t ∧
        EnumMark.StandIn c.orderedDepth (o.enumMarks config depth c) t := by
  obtain ⟨harrives, output, d, hnode, -⟩ := h.exists_run hdoc hrun
  obtain ⟨t, hdelivers, hstand⟩ :=
    exists_delivered_standIn hdoc hlists (standIn_inNote hdoc hlists) o.node o.place c output d
      harrives hnode
  exact ⟨output, d, t, hnode, hdelivers, hstand⟩

end

end Typeset

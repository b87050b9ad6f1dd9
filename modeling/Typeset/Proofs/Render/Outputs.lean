import Typeset.Proofs.Render.Runs
import Typeset.Proofs.Table.Groups

/-!
# What nodes print of their labels and parts

A node of a kind that has labels prints its own label unless it is empty. What occurs in a part of
a node occurs in its output where the node passes this part on.
-/

namespace Typeset

open Text

namespace Action

variable {α β : Type} {c d : Context}

theorem ok_of_pure {a b : α} (h : (pure a : Action α) c = (.ok b, d)) : b = a ∧ d = c :=
  ⟨(Except.ok.inj (Prod.mk.inj h).1).symm, (Prod.mk.inj h).2.symm⟩

theorem ok_of_check {fault : Option Failure} {u : Unit} (h : check fault c = (.ok u, d)) :
    d = c := by
  cases fault with
  | none => exact (Prod.mk.inj h).2.symm
  | some e => cases h

theorem ok_of_map {f : α → β} {x : Action α} {b : β} (h : (f <$> x) c = (.ok b, d)) :
    ∃ a, x c = (.ok a, d) ∧ b = f a := by
  rw [map_eq_pure_bind] at h
  obtain ⟨a, c', hx, hpure⟩ := ok_of_bind h
  cases hpure
  exact ⟨a, hx, rfl⟩

end Action

open Action Context Render Latex

variable {config : Config} {o : Occurrence} {parts : Parts} {r : References} {c d : Context}
  {s t : String}

namespace Context

theorem label_eq {label : String} (h : Context.label o c = (.ok label, d))
    (hd : d.references.places <+: r.places) : label = r.labelText o := by
  obtain ⟨label', c', hlabel, hpure⟩ := ok_of_bind h
  cases hpure
  rw [labelText_of_labelWith hlabel hd (.inl rfl)]
  rfl

theorem label?_eq {label : Option String} (h : label? o c = (.ok label, d))
    (hd : d.references.places <+: r.places) (hkey : o.node.explicitKey.isSome = true) :
    label = some (r.labelText o) :=
  labelText_of_labelWith h hd (.inr hkey)

theorem heldRows_of_label? {label : Option String} (h : label? o c = (.ok label, d)) :
    d.heldRows = c.heldRows := by
  obtain ⟨-, rfl⟩ := ok_of_labelWith h
  rfl

/-- A label that has not been used gets its number now. -/
theorem nextFootnote_of_unused {label : String}
    (h : c.footnotes.lookup (.str label) = none) :
    nextFootnote (.str label) c = (.ok (c.footnoteCount + 1, true),
      { c with
        footnotes := c.footnotes ++ [(.str label, c.footnoteCount + 1)]
        footnoteCount := c.footnoteCount + 1 }) := by
  rw [nextFootnote, show (Datum.str label).key = .str label from rfl, h]

theorem eq_of_nextFootnote {label : Datum} {number : Nat}
    (h : nextFootnote label c = (.ok (number, true), d)) :
    d = { c with
      footnotes := c.footnotes ++ [(label.key, c.footnoteCount + 1)]
      footnoteCount := c.footnoteCount + 1 } := by
  unfold nextFootnote at h
  split at h
  · cases h
  · exact (Prod.mk.inj h).2.symm

end Context

namespace Render

/-! ## References to footnotes -/

/-- How a reference to a footnote prints: with its own text if it has no label or is the first to use
it, else as a mark. A first reference without a text of its own has that of the definition. -/
inductive Refers (expand : Occurrence → Action String) (o : Occurrence) (contents : String)
    (c : Context) : Option String → String → Context → Prop
  | unnamed {token : String} {number : Nat × Bool} {c' d : Context} :
    reference o.place c = (.ok token, c') →
      nextFootnote (.str ("anonymous:" ++ token)) c' = (.ok number, d) →
        Refers expand o contents c none (footnoteText contents) d
  | again {name : String} {number : Nat} {d : Context} :
    nextFootnote (.str name) c = (.ok (number, false), d) →
      Refers expand o contents c (some name) ("\\footnotemark[" ++ toString number ++ "]") d
  | first {name : String} {number : Nat} {d : Context} :
    nextFootnote (.str name) c = (.ok (number, true), d) → o.node.children ≠ [] →
      Refers expand o contents c (some name) (footnoteText contents) d
  | defined {name : String} {number : Nat} {definition : Occurrence} {text : String}
      {c' d : Context} :
    nextFootnote (.str name) c = (.ok (number, true), c') → o.node.children = [] →
      c'.references.index.footnote (.str name) (some o.node.origin) = .ok definition →
        expand definition c' = (.ok text, d) →
          Refers expand o contents c (some name) (footnoteText text) d

theorem refers_of_footnoteReference {expand : Occurrence → Action String} {label : Option String}
    {contents t : String} (hproper : o.node.isProper = true)
    (hrun : footnoteReference expand o label contents c = (.ok t, d)) :
    Refers expand o contents c label t d := by
  unfold footnoteReference at hrun
  rw [Node.loose?_eq_none hproper, Option.none_or] at hrun
  cases label with
  | none =>
    obtain ⟨token, c₁, htoken, hrun⟩ := ok_of_bind hrun
    obtain ⟨_, c₂, hnext, hrun⟩ := ok_of_bind hrun
    cases hrun
    exact .unnamed htoken hnext
  | some name =>
    obtain ⟨_, c₁, hcheck, hrun⟩ := ok_of_bind hrun
    rw [ok_of_check hcheck] at hrun
    obtain ⟨⟨number, isFirst⟩, c₂, hnext, hrun⟩ := ok_of_bind hrun
    cases isFirst with
    | false =>
      cases hrun
      exact .again hnext
    | true =>
      simp only [Bool.not_true, Bool.false_eq_true, if_false, List.isEmpty_iff] at hrun
      split at hrun
      · next hchildren =>
        obtain ⟨definition, c₃, hdefinition, hrun⟩ := ok_of_bind hrun
        obtain ⟨text, c₄, hexpand, hrun⟩ := ok_of_bind hrun
        cases hrun
        obtain ⟨hfound, rfl⟩ := Prod.mk.inj hdefinition
        exact .defined hnext hchildren hfound hexpand
      · next hchildren =>
        cases hrun
        exact .first hnext hchildren

/-! ## Tables and blocks of code -/

/-- A table has its label, and a long one lets go the rows that were held back for it. -/
theorem ok_of_table (hrun : table config o parts c = (.ok t, d)) :
    ∃ label c', label? o c = (.ok label, c') ∧ if isLong config o.node then
        t = longTableText config (Table.geometry config o.node) o.node parts.contents
          parts.caption label (c.rowsOf o.place) ∧ d = (release o.place c').2
      else
        t = tableText config (Table.geometry config o.node) o.node parts.contents parts.caption
          label ∧ d = c' := by
  obtain ⟨g, c₁, hgeometry, hrun⟩ := ok_of_bind hrun
  obtain ⟨hg, rfl⟩ := Prod.mk.inj hgeometry
  obtain rfl := Table.geometry_of_geometry? hg
  obtain ⟨_, c₂, hcheck, hrun⟩ := ok_of_bind hrun
  obtain ⟨_, c₃, hcheck', hrun⟩ := ok_of_bind hrun
  obtain ⟨label, c₄, hlabel, hrun⟩ := ok_of_bind hrun
  rw [ok_of_check hcheck', ok_of_check hcheck] at hlabel
  refine ⟨label, c₄, hlabel, ?_⟩
  split at hrun
  · next hlong =>
    obtain ⟨rows, c₅, hrelease, hrun⟩ := ok_of_bind hrun
    obtain ⟨rfl, rfl⟩ := ok_of_pure hrun
    cases hrelease
    rw [if_pos hlong, rowsOf, ← heldRows_of_label? hlabel]
    exact ⟨rfl, rfl⟩
  · next hlong =>
    rw [if_neg hlong]
    exact ok_of_pure hrun

/-- A data row prints its text, but in the foot of a long table it is held back. -/
theorem ok_of_tableRow {contents : String} {output : Option String}
    (hrun : tableRow config o contents c = (.ok output, d)) :
    ∃ table, c.table? = some table ∧
      match (o.place.childIndex? table.place).bind (Table.geometry config table.node).indexOf? with
      | none => output = none ∧ d = c
      | some index =>
        let text := rowText config (Table.geometry config table.node) table.node index
          o.node.children.length contents
        if isLong config table.node && (Table.geometry config table.node).part index == .foot then
          output = none ∧ hold table.place text c = (.ok (), d)
        else output = some text ∧ d = c := by
  unfold tableRow at hrun
  rw [bind_of_ok (ask_apply _ _)] at hrun
  cases htable : c.table? with
  | none =>
    rw [htable] at hrun
    cases hrun
  | some table =>
    rw [htable] at hrun
    obtain ⟨g, c₁, hgeometry, hrun⟩ := ok_of_bind hrun
    obtain ⟨hg, rfl⟩ := Prod.mk.inj hgeometry
    obtain rfl := Table.geometry_of_geometry? hg
    refine ⟨table, rfl, ?_⟩
    cases hindex : (o.place.childIndex? table.place).bind
        (Table.geometry config table.node).indexOf? with
    | none =>
      simp only [hindex] at hrun
      exact ok_of_pure hrun
    | some index =>
      simp only [hindex] at hrun
      split at hrun
      · next hfoot =>
        obtain ⟨_, c₂, hhold, hrun⟩ := ok_of_bind hrun
        obtain ⟨rfl, rfl⟩ := ok_of_pure hrun
        dsimp only
        rw [if_pos hfoot]
        exact ⟨rfl, hhold⟩
      · next hfoot =>
        dsimp only
        rw [if_neg hfoot]
        exact ok_of_pure hrun

/-- A cell of a data row prints its text, at the column where the row lists it. -/
theorem ok_of_tableCell {contents : String} {output : Option String}
    (hrun : tableCell config o contents c = (.ok output, d)) :
    d = c ∧ ∃ row table, c.parent? = some row ∧ c.table? = some table ∧
      match (row.place.childIndex? table.place).bind (Table.geometry config table.node).indexOf? with
      | none => output = none
      | some index => ∃ column, o.place.childIndex? row.place = some column ∧
        output = some (cellText config (Table.geometry config table.node) table.node index column
          contents) := by
  unfold tableCell at hrun
  rw [bind_of_ok (ask_apply _ _), bind_of_ok (ask_apply _ _)] at hrun
  cases hrow : c.parent? with
  | none =>
    rw [hrow] at hrun
    cases hrun
  | some row =>
    cases htable : c.table? with
    | none =>
      rw [hrow, htable] at hrun
      cases hrun
    | some table =>
      simp only [hrow, htable] at hrun
      split at hrun
      · cases hrun
      obtain ⟨g, c₁, hgeometry, hrun⟩ := ok_of_bind hrun
      obtain ⟨hg, rfl⟩ := Prod.mk.inj hgeometry
      obtain rfl := Table.geometry_of_geometry? hg
      cases hindex : (row.place.childIndex? table.place).bind
          (Table.geometry config table.node).indexOf? with
      | none =>
        simp only [hindex] at hrun
        obtain ⟨rfl, rfl⟩ := ok_of_pure hrun
        exact ⟨rfl, row, table, rfl, rfl, by rw [hindex]⟩
      | some index =>
        cases hcolumn : o.place.childIndex? row.place with
        | none =>
          simp only [hindex, hcolumn] at hrun
          cases hrun
        | some column =>
          simp only [hindex, hcolumn] at hrun
          obtain ⟨_, c₂, hcheck, hrun⟩ := ok_of_bind hrun
          obtain ⟨rfl, rfl⟩ := ok_of_pure hrun
          refine ⟨ok_of_check hcheck, row, table, rfl, rfl, ?_⟩
          rw [hindex]
          exact ⟨column, hcolumn, rfl⟩

/-- A block of code is listed with its label. -/
theorem ok_of_codeBlock {b : CodeBlock} {caption : String}
    (hrun : codeBlock config o b caption c = (.ok t, d)) :
    ∃ firstLine language label c', label? o c' = (.ok label, d) ∧
      t = Listing.print config ⟨Marker.strip b, firstLine, language, label, caption⟩ := by
  obtain ⟨_, c₁, -, hrun⟩ := ok_of_bind hrun
  obtain ⟨_, c₂, -, hrun⟩ := ok_of_bind hrun
  obtain ⟨firstLine, c₃, -, hrun⟩ := ok_of_bind hrun
  obtain ⟨_, c₄, -, hrun⟩ := ok_of_bind hrun
  obtain ⟨language, c₅, -, hrun⟩ := ok_of_bind hrun
  obtain ⟨label, c₆, hlabel, hrun⟩ := ok_of_bind hrun
  obtain ⟨_, c₇, hcheck, hrun⟩ := ok_of_bind hrun
  obtain ⟨rfl, rfl⟩ := ok_of_pure hrun
  obtain rfl := ok_of_check hcheck
  exact ⟨firstLine, language, label, c₅, hlabel, rfl⟩

/-! ## Labels -/

theorem label_of_sectionOf {h : Heading} (hrun : sectionOf config o h parts c = (.ok t, d))
    (hd : d.references.places <+: r.places) : Occurs (labelCommand (r.labelText o)) t := by
  obtain ⟨label, c₁, hlabel, hrun⟩ := ok_of_bind hrun
  obtain ⟨_, c₂, hcheck, hrun⟩ := ok_of_bind hrun
  obtain ⟨ht, rfl⟩ := Prod.mk.inj hrun
  obtain rfl := ok_of_check hcheck
  rw [← label_eq hlabel hd]
  exact occurs_sectionText_label ht

theorem label_of_labelOf (hrun : labelOf o c = (.ok t, d))
    (hd : d.references.places <+: r.places) : t = labelCommand (r.labelText o) := by
  obtain ⟨label, c₁, hlabel, hpure⟩ := ok_of_bind hrun
  cases hpure
  rw [label_eq hlabel hd]

section

variable (hd : d.references.places <+: r.places) (hkey : o.node.explicitKey.isSome = true)
  (hne : r.labelText o ≠ "")

include hd hkey hne

theorem label_of_figure (hfigure : o.node.isFigure = true) {output : Option String}
    (hrun : paragraph config o parts c = (.ok output, d)) :
    ∃ t, output = some t ∧ Occurs (labelCommand (r.labelText o)) t := by
  obtain ⟨_, c₁, -, hrun⟩ := ok_of_bind hrun
  rw [if_pos hfigure] at hrun
  obtain ⟨label, c₂, hlabel, hrun⟩ := ok_of_bind hrun
  obtain ⟨_, c₃, hcheck, hrun⟩ := ok_of_bind hrun
  obtain ⟨rfl, rfl⟩ := ok_of_pure hrun
  obtain rfl := ok_of_check hcheck
  obtain rfl := label?_eq hlabel hd hkey
  have hs := (isWhole_labelCommand (References.notMem_labelText r o)).toIsCompact
  have hcaption := fun float ↦ Carries.of_occurs hs
    (occurs_captionText_label hne float parts.caption)
  refine ⟨_, rfl, (carries_figureText .nil config hcaption (.nil _)).occurs ?_⟩
  exact mem_arranged.mpr (.inl List.mem_cons_self)

theorem label_of_codeBlock {b : CodeBlock} {caption : String}
    (hrun : codeBlock config o b caption c = (.ok t, d)) :
    Occurs (Listing.definition config (r.labelText o)) t := by
  obtain ⟨firstLine, language, label, c', hlabel, rfl⟩ := ok_of_codeBlock hrun
  exact occurs_listing_label hne (label?_eq hlabel hd hkey)

theorem label_of_table (hrun : table config o parts c = (.ok t, d)) :
    Occurs (labelCommand (r.labelText o)) t := by
  have hs := (isWhole_labelCommand (References.notMem_labelText r o)).toIsCompact
  have hcaption := fun float ↦ Carries.of_occurs hs
    (occurs_captionText_label hne float parts.caption)
  obtain ⟨label, c', hlabel, hrun⟩ := ok_of_table hrun
  split at hrun
  · obtain ⟨rfl, rfl⟩ := hrun
    obtain rfl := label?_eq hlabel hd hkey
    have hnone : ∀ w ∈ ([] : List String), IsUncut headEnd w :=
      fun w hw ↦ absurd hw List.not_mem_nil
    refine (carries_longTableText config (hcaption none) (.nil _) (.none _) fun _ ↦ hnone).occurs ?_
    exact List.mem_append_left _ List.mem_cons_self
  · obtain ⟨rfl, rfl⟩ := hrun
    obtain rfl := label?_eq hlabel hd hkey
    exact (carries_tableText config hcaption (.nil _)).occurs
      (mem_arranged.mpr (.inl List.mem_cons_self))

end

/-! ## Parts -/

section

variable {ws vs us : List String}

theorem carries_of_sectionOf {h : Heading} (htitle : Carries ws parts.title.toList)
    (hcontents : Carries vs parts.contents.toList)
    (hrun : sectionOf config o h parts c = (.ok t, d)) :
    Carries ((if printsTitle config h then ws else []) ++ vs) t.toList := by
  obtain ⟨label, c₁, -, hrun⟩ := ok_of_bind hrun
  obtain ⟨_, c₂, -, hrun⟩ := ok_of_bind hrun
  exact carries_sectionText htitle hcontents (Prod.mk.inj hrun).1

theorem carries_of_plainList {kind : ListKind} {contents : String}
    (hcontents : Carries ws contents.toList) (hrun : plainList o kind contents c = (.ok t, d)) :
    Carries ws t.toList := by
  obtain ⟨_, c₁, -, hrun⟩ := ok_of_bind hrun
  exact carries_listText hcontents (Prod.mk.inj hrun).1

theorem carries_of_markup {kind text : String} (htext : Carries ws text.toList)
    (hrun : markup config kind text c = (.ok t, d)) :
    Carries (if (config.textMarkup.lookup kind).any (holds · "%s") then ws else []) t.toList := by
  obtain ⟨_, c₁, -, hrun⟩ := ok_of_bind hrun
  cases hformat : config.textMarkup.lookup kind with
  | none =>
    rw [hformat] at hrun
    cases hrun
  | some format =>
    rw [hformat] at hrun
    obtain ⟨rfl, rfl⟩ := ok_of_pure hrun
    exact htext.fill

theorem carries_of_byMode {inside outside : String} (hinside : Carries ws inside.toList)
    (houtside : Carries ws outside.toList) (hrun : byMode inside outside c = (.ok t, d)) :
    Carries ws t.toList := by
  rw [byMode, ask_apply] at hrun
  rw [← Except.ok.inj (Prod.mk.inj hrun).1]
  split
  · exact hinside
  · exact houtside

/-- A paragraph that is no figure has no caption. -/
theorem carries_of_paragraph {output : Option String} (hvs : AreCompact vs)
    (hcaption : Carries ws parts.caption.toList) (hcontents : Carries vs parts.contents.toList)
    (hrun : paragraph config o parts c = (.ok output, d)) :
    Carries (arranged (captionsAbove config o.node.attributes)
        (if o.node.isFigure then ws else []) vs) (output.getD "").toList := by
  obtain ⟨_, c₁, -, hrun⟩ := ok_of_bind hrun
  split at hrun
  · next hfigure =>
    obtain ⟨label, c₂, -, hrun⟩ := ok_of_bind hrun
    obtain ⟨_, c₃, -, hrun⟩ := ok_of_bind hrun
    obtain ⟨rfl, rfl⟩ := ok_of_pure hrun
    rw [if_pos hfigure]
    exact carries_figureText hvs config (fun float ↦ carries_captionText hcaption float label)
      hcontents
  · next hfigure =>
    obtain ⟨rfl, rfl⟩ := ok_of_pure hrun
    rw [if_neg hfigure, show arranged _ [] vs = vs by unfold arranged; split <;> simp]
    have htext := hcontents.stripEnd hvs
    refine htext.of_nonempty fun hempty ↦ ?_
    simp only [hempty, Bool.false_eq_true, if_false, Option.getD_some, String.toList_append]
    exact htext.append_right _

theorem carries_of_item {checkbox : Option Checkbox} {counter : Option Int} (hvs : AreCompact vs)
    (htag : Carries ws parts.tag.toList) (hcontents : Carries vs parts.contents.toList)
    (hrun : item o checkbox counter parts c = (.ok t, d)) : Carries (ws ++ vs) t.toList := by
  obtain ⟨depth, c₁, -, hrun⟩ := ok_of_bind hrun
  obtain ⟨_, c₂, -, hrun⟩ := ok_of_bind hrun
  obtain ⟨_, c₃, -, hrun⟩ := ok_of_bind hrun
  obtain ⟨rfl, rfl⟩ := ok_of_pure hrun
  exact carries_itemText hvs htag hcontents checkbox counter depth

theorem carries_of_codeBlock {b : CodeBlock} {caption : String}
    (hcaption : Carries ws caption.toList) (hrun : codeBlock config o b caption c = (.ok t, d)) :
    Carries ws t.toList := by
  obtain ⟨firstLine, language, label, c', -, rfl⟩ := ok_of_codeBlock hrun
  exact carries_listing_caption hcaption

/-- A table on one page has its caption above or below. -/
theorem carries_of_table (hlong : isLong config o.node = false)
    (hcaption : Carries ws parts.caption.toList) (hcontents : Carries vs parts.contents.toList)
    (hrun : table config o parts c = (.ok t, d)) :
    Carries (arranged config.tableCaptionAbove ws vs) t.toList := by
  obtain ⟨label, c', -, hrun⟩ := ok_of_table hrun
  rw [if_neg (Bool.eq_false_iff.mp hlong)] at hrun
  obtain ⟨rfl, rfl⟩ := hrun
  exact carries_tableText config (fun float ↦ carries_captionText hcaption float label) hcontents

/-- A long table has its caption on top, and the rows that were held back for it in its foot. -/
theorem carries_of_longTable (hlong : isLong config o.node = true)
    (hcaption : Carries ws parts.caption.toList) (hcontents : Carries vs parts.contents.toList)
    (hrows : CarriesAll us (c.rowsOf o.place))
    (hvs : longFoot config (Table.geometry config o.node) (c.rowsOf o.place) ≠ "" →
      ∀ w ∈ vs, IsUncut headEnd w)
    (hrun : table config o parts c = (.ok t, d)) :
    Carries (ws ++ (vs.take (countBeforeFoot parts.contents vs) ++ us ++
      vs.drop (countBeforeFoot parts.contents vs))) t.toList := by
  obtain ⟨label, c', -, hrun⟩ := ok_of_table hrun
  rw [if_pos hlong] at hrun
  obtain ⟨rfl, rfl⟩ := hrun
  exact carries_longTableText config (carries_captionText hcaption none label) hcontents hrows hvs

theorem occurs_of_longTable (hs : IsWhole s) (hlong : isLong config o.node = true)
    (hpart : Occurs s parts.caption ∨ Occurs s parts.contents ∨
      ∃ row ∈ c.rowsOf o.place, Occurs s row)
    (hrun : table config o parts c = (.ok t, d)) : Occurs s t := by
  have hnil : ∀ w ∈ ([] : List String), IsUncut headEnd w := fun w hw ↦ absurd hw List.not_mem_nil
  have hself : ∀ w ∈ [s], IsUncut headEnd w := fun w hw ↦ List.mem_singleton.mp hw ▸ hs.uncut
  rcases hpart with h | h | ⟨row, hrow, h⟩
  · refine (carries_of_longTable hlong (.of_occurs hs.toIsCompact h) (.nil _) (.none _)
      (fun _ ↦ hnil) hrun).occurs (List.mem_append_left _ List.mem_cons_self)
  · refine (carries_of_longTable hlong (.nil _) (.of_occurs hs.toIsCompact h) (.none _)
      (fun _ ↦ hself) hrun).occurs ?_
    rw [List.append_nil, List.take_append_drop]
    exact List.mem_cons_self
  · refine (carries_of_longTable hlong (.nil _) (.nil _)
      (.of_mem hrow (.of_occurs hs.toIsCompact h)) (fun _ ↦ hnil) hrun).occurs ?_
    simp

/-- A link that is shown as an image has no contents. -/
theorem carries_of_link {kind path contents : String} (hws : AreCompact ws)
    (hcontents : Carries ws contents.toList) (hchildren : o.node.children = [] → ws = [])
    (hrun : link config o kind path contents c = (.ok t, d)) : Carries ws t.toList := by
  have hdescription := hcontents.strip hws
  unfold link at hrun
  split at hrun
  · obtain ⟨line, c₁, -, hrun⟩ := ok_of_bind hrun
    obtain ⟨rfl, rfl⟩ := ok_of_pure hrun
    refine hdescription.of_nonempty fun hempty ↦ ?_
    rw [hempty]
    exact hdescription
  · split at hrun
    · obtain ⟨target, c₁, -, hrun⟩ := ok_of_bind hrun
      obtain ⟨label, c₂, -, hrun⟩ := ok_of_bind hrun
      obtain ⟨rfl, rfl⟩ := ok_of_pure hrun
      exact carries_internalLink hdescription target.node label
    · obtain ⟨_, c₁, -, hrun⟩ := ok_of_bind hrun
      split at hrun
      · next himage =>
        have hnone : o.node.children = [] := by
          unfold Node.isImageLink at himage
          split at himage
          · simp only [Bool.and_eq_true, List.isEmpty_iff] at himage
            exact himage.1.1.2
          · cases himage
        rw [hchildren hnone]
        exact .nil _
      · obtain ⟨_, c₂, -, hrun⟩ := ok_of_bind hrun
        obtain ⟨rfl, rfl⟩ := ok_of_pure hrun
        exact carries_externalLink hdescription kind path

end

end Render

end Typeset

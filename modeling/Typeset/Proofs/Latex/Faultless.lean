import Typeset.Assembly
import Typeset.Config.Reading
import Typeset.Latex.Figure
import Typeset.Latex.Lists
import Typeset.Latex.Listing
import Typeset.Latex.Section
import Typeset.Latex.Tabular
import Typeset.Proofs.Table.Layout
import Typeset.Proofs.Tree.Alike

/-!
# Configurations that nothing is wrong with

In a well-typed configuration every option holds a value of its type, and in a complete one all
formats and delimiters are there that are looked up by fixed names. Where the attributes of a node
are texts as well, nothing is wrong with what is looked up and put together when it is printed.
-/

namespace Typeset

/-! ## Entries that are texts -/

namespace Entries

variable {e : Entries} (h : ∀ m ∈ e, m.2.text?.isSome = true)

include h

theorem bind_keyFault?_eq_none (name : String) : (e.lookup name).bind Json.keyFault? = none := by
  cases hlookup : e.lookup name with
  | none => rfl
  | some j =>
    obtain ⟨t, rfl⟩ := exists_str_of_lookup h hlookup
    rfl

theorem bind_containerFault?_eq_none (name : String) :
    (e.true? name).bind Json.containerFault? = none := by
  unfold true?
  cases hlookup : e.lookup name with
  | none => rfl
  | some j =>
    obtain ⟨t, rfl⟩ := exists_str_of_lookup h hlookup
    cases htrue : (Json.str t).isTrue <;> simp [Option.filter, htrue, Json.containerFault?]

end Entries

/-! ## Well-typed configurations -/

namespace Config

/-- Every option holds a value of its type. Options that are not named here can hold no other
values. -/
structure IsWellTyped (c : Config) : Prop where
  loose : c.loose = []
  template : OptionType.optionalText.fits c.template = true
  templates : ∀ m ∈ c.templates, m.2.text?.isSome = true
  useSnippets : ∀ d ∈ c.useSnippets, d.text?.isSome = true
  languageNames : ∀ m ∈ c.languageNames, m.2.text?.isSome = true
  quotes : ∀ m ∈ c.quotes, OptionType.isTable m.2 = true
  tableCellStyles : ∀ m ∈ c.tableCellStyles, m.2.text?.isSome = true

/-- The kinds of markup that are printed in a format. -/
def markupKinds : List String :=
  ["bold", "italic", "underline", "strike-through", "code", "verbatim"]

/-- Every kind of markup has a format, and every table of quotes has a delimiter for each role. -/
structure IsComplete (c : Config) : Prop where
  markup : ∀ kind ∈ markupKinds, (c.textMarkup.lookup kind).isSome = true
  quotes : ∀ m ∈ c.quotes, ∀ role : Quotes.Role, (m.2.members.lookup role.key).isSome = true

theorem isWellTyped_default : default.IsWellTyped where
  loose := rfl
  template := rfl
  templates := by decide
  useSnippets := by decide
  languageNames := by decide
  quotes := by decide
  tableCellStyles := by decide

theorem isComplete_default : default.IsComplete where
  markup := by decide
  quotes m hm role := by
    revert m
    cases role <;> decide

namespace IsWellTyped

variable {config : Config}

theorem loose?_eq_none (h : config.IsWellTyped) (name : String) : config.loose? name = none := by
  rw [loose?, h.loose]
  rfl

theorem template_cases (h : config.IsWellTyped) :
    config.template = .null ∨ ∃ name, config.template = .str name := by
  have hfits := h.template
  cases htemplate : config.template with
  | null => exact .inl rfl
  | str name => exact .inr ⟨name, rfl⟩
  | _ =>
    rw [htemplate] at hfits
    cases hfits

theorem areTexts_entries {d : Datum} (h : OptionType.texts.fits d = true) :
    ∀ m ∈ d.entries, m.2.text?.isSome = true := by
  cases d with
  | mapping members => exact List.all_eq_true.mp h
  | _ => cases h

/-- Settings of the declared types describe a well-typed configuration. -/
theorem ofSettings {s : Settings} (hnames : (s.map (·.1)).Nodup)
    (h : ∀ e ∈ types, e.2.fits (s.value e.1) = true) : (Config.ofSettings s).IsWellTyped where
  loose := by
    refine List.filter_eq_nil_iff.mpr ?_
    rintro ⟨name, value⟩ hmem
    have hvalue : s.value name = value := by
      rw [Settings.value, Assoc.lookup_of_mem hnames hmem]
      rfl
    cases htype : types.lookup name with
    | none => simp [htype]
    | some type =>
      have hfits := h _ (Assoc.mem_of_lookup htype)
      rw [hvalue] at hfits
      simp [htype, hfits]
  template := h ("template", .optionalText) (by decide)
  templates := areTexts_entries (h ("templates", .texts) (by decide))
  useSnippets := by
    have hnames := h ("use_snippets", .names) (by decide)
    show ∀ d ∈ (s.value "use_snippets").items?.getD [], d.text?.isSome = true
    cases hvalue : s.value "use_snippets" with
    | seq items =>
      rw [hvalue] at hnames
      exact List.all_eq_true.mp hnames
    | _ =>
      rw [hvalue] at hnames
      cases hnames
  languageNames := areTexts_entries (h ("language_names", .texts) (by decide))
  quotes := by
    have htables := h ("quotes", .tables) (by decide)
    show ∀ m ∈ (s.value "quotes").entries, OptionType.isTable m.2 = true
    cases hvalue : s.value "quotes" with
    | mapping members =>
      rw [hvalue] at htables
      exact List.all_eq_true.mp htables
    | _ =>
      rw [hvalue] at htables
      cases htables
  tableCellStyles := areTexts_entries (h ("table_cell_styles", .texts) (by decide))

end IsWellTyped

end Config

/-! ## What is printed -/

namespace Latex

variable {config : Config} {attributes : Attributes} {table : Node} {g : Geometry}

section

variable (h : config.IsWellTyped)

include h

theorem sectionFault?_eq_none (g : Heading) : sectionFault? config g (.int g.level) = none := by
  have hloose := h.loose?_eq_none
  simp [sectionFault?, hloose, orderFault?, Datum.number?]

omit h in
/-- A level from one on has its commands, unless it is too deep. -/
theorem exists_commandsOf {g : Heading} (hlevel : 1 ≤ g.level) (hdeep : isDeep config g = false) :
    ∃ commands, commandsOf config g.level = .ok commands := by
  have hlength : g.level ≤ config.sectioning.length := by
    rw [isDeep, Bool.or_eq_false_iff] at hdeep
    exact Int.not_lt.mp (of_decide_eq_false hdeep.2)
  have hindex : (g.level - 1).toNat < config.sectioning.length := by omega
  refine ⟨config.sectioning[(g.level - 1).toNat], ?_⟩
  rw [commandsOf, if_neg (by omega), if_neg (by omega), List.getElem?_eq_getElem hindex]

omit h in
theorem exists_sectionText {g : Heading} (hlevel : 1 ≤ g.level) (title label contents : String) :
    ∃ t, sectionText config g title label contents = .ok t := by
  unfold sectionText
  split
  · exact ⟨_, rfl⟩
  · next hdeep =>
    obtain ⟨commands, hcommands⟩ := exists_commandsOf hlevel (Bool.eq_false_iff.mpr hdeep)
    rw [hcommands]
    exact ⟨_, rfl⟩

theorem Listing.fault?_eq_none : Listing.fault? config = none := by
  have hloose := h.loose?_eq_none
  unfold Listing.fault?
  split <;> simp [hloose]

omit h in
theorem figureFloatFault?_eq_none (hattributes : attributes.areTexts = true) :
    figureFloatFault? attributes = none :=
  Entries.bind_keyFault?_eq_none ((Entries.areTexts_iff _).mp hattributes).2 "float"

omit h in
theorem imageFault?_eq_none (hattributes : attributes.areTexts = true) :
    imageFault? config attributes = none := by
  rw [imageFault?, Entries.trueLoose?_eq_none ((Entries.areTexts_iff _).mp hattributes).2]
  rfl

/-! ### Tables -/

theorem nameFault?_eq_none (hattributes : table.attributes.areTexts = true) (name option : String) :
    nameFault? config table name option = none := by
  unfold nameFault?
  split
  · next j hj =>
    obtain ⟨t, rfl⟩ := Entries.exists_str_of_lookup ((Entries.areTexts_iff _).mp hattributes).2 hj
    rfl
  · rw [h.loose?_eq_none]
    rfl

theorem tableOpeningFault?_eq_none (htable : table.isProper = true)
    (hattributes : table.attributes.areTexts = true) :
    tableOpeningFault? config g table = none := by
  rw [tableOpeningFault?, Table.columnSpecFault?_eq_none htable, nameFault?_eq_none h hattributes]
  rfl

theorem tableFloatFault?_eq_none (hattributes : table.attributes.areTexts = true) :
    tableFloatFault? config table = none := by
  rw [tableFloatFault?, nameFault?_eq_none h hattributes, ite_self]

theorem exists_str_roleStyle (index column : Nat) :
    ∃ t, Table.roleStyle config g index column = .str t := by
  unfold Table.roleStyle
  cases hlookup : config.tableCellStyles.lookup (g.cellRole index column).name with
  | none => exact ⟨_, rfl⟩
  | some j =>
    obtain ⟨t, rfl⟩ := Entries.exists_str_of_lookup h.tableCellStyles hlookup
    exact ⟨t, rfl⟩

theorem footerWrapperFault?_eq_none (table : Node) :
    Table.footerWrapperFault? config (footerStyle table) = none := by
  unfold Table.footerWrapperFault?
  split
  · next htrue =>
    unfold footerStyle at htrue ⊢
    cases hstyle : (table.attributes.text? "footer").filter fun style ↦ Text.holds style "%s" with
    | none =>
      rw [hstyle] at htrue
      cases htrue
    | some t => rfl
  · rw [h.loose?_eq_none]
    rfl

/-- Nothing is wrong with the style of a cell. -/
theorem cellFault?_eq_none (hattributes : table.attributes.areTexts = true) (index column : Nat) :
    cellFault? config g table index column = none := by
  have hfooter := Entries.bind_containerFault?_eq_none
    ((Entries.areTexts_iff _).mp hattributes).2 "footer"
  obtain ⟨t, ht⟩ := exists_str_roleStyle (g := g) h index column
  have hstyle : Table.cellStyleFault? config g (footerStyle table) index column = none := by
    simp [Table.cellStyleFault?, footerWrapperFault?_eq_none h, ht]
  rw [cellFault?, hfooter, hstyle]
  rfl

end

/-- A list of a declared kind has an environment. -/
theorem exists_listText {kind : ListKind} (hkind : (Element.plainList kind).isWellTyped = true)
    (attributes : Attributes) (contents : String) :
    ∃ t, listText kind attributes contents = .ok t := by
  cases kind with
  | undeclared name => cases hkind
  | _ => exact ⟨_, rfl⟩

end Latex

/-! ## Quotes -/

namespace Quotes

variable {config : Config} {delimiters : Delimiters} {table : Json}

theorem exists_writeAll (h : ∀ role : Role, (delimiters.lookup role.key).isSome = true)
    (marks : List Mark) : ∃ t, writeAll delimiters marks = .ok t := by
  induction marks with
  | nil => exact ⟨"", rfl⟩
  | cons mark marks ih =>
    obtain ⟨rest, hrest⟩ := ih
    obtain ⟨first, hfirst⟩ : ∃ t, write delimiters mark = .ok t := by
      cases mark with
      | plain c => exact ⟨_, rfl⟩
      | quote role =>
        obtain ⟨t, ht⟩ := Option.isSome_iff_exists.mp (h role)
        rw [write, ht]
        exact ⟨t, rfl⟩
    rw [writeAll, hfirst, hrest]
    exact ⟨first ++ rest, rfl⟩

/-- Where all delimiters are there, only quotes that do not balance are wrong. -/
theorem typographic_cases (h : ∀ role : Role, (delimiters.lookup role.key).isSome = true)
    (text : String) :
    (∃ t, typographic delimiters text = .ok t) ∨
      ∃ position, typographic delimiters text = .error (.unbalancedQuotes text position) := by
  obtain ⟨written, hwritten⟩ := exists_writeAll h (read .start text.toList).1
  unfold typographic
  dsimp only
  rw [hwritten]
  cases (read .start text.toList).2 with
  | none => exact .inl ⟨written, rfl⟩
  | some position => exact .inr ⟨position, rfl⟩

theorem lookup_delimitersOf (table : Json) (key : String) :
    (delimitersOf table).lookup key =
      (table.members.lookup key).map fun delimiter ↦ delimiter.text?.getD "" := by
  unfold delimitersOf
  induction table.members with
  | nil => rfl
  | cons m ms ih =>
    rw [List.map_cons, List.lookup_cons, List.lookup_cons, ih]
    cases key == m.1 <;> rfl

theorem delimiterFault?_eq_none (table : Json)
    (h : ∀ m ∈ table.members, m.2.text?.isSome = true) (before : Nat) (marks : List Mark) :
    delimiterFault? table before marks = none := by
  induction marks generalizing before with
  | nil => rfl
  | cons mark marks ih =>
    cases mark with
    | plain c => exact ih _
    | quote role =>
      have hfilter : (table.members.lookup role.key).filter
          (fun delimiter ↦ delimiter.text?.isNone) = none := by
        cases hlookup : table.members.lookup role.key with
        | none => rfl
        | some j =>
          obtain ⟨t, rfl⟩ := Entries.exists_str_of_lookup h hlookup
          rfl
      rw [delimiterFault?, hfilter]
      exact ih _

/-- A table of texts that has all delimiters. -/
structure IsFull (table : Json) : Prop where
  isTable : OptionType.isTable table = true
  isSome : ∀ role : Role, (table.members.lookup role.key).isSome = true

theorem isFull_english : IsFull (dataOf english) where
  isTable := by decide
  isSome role := by cases role <;> decide

/-- In a full table only quotes that do not balance are wrong. -/
theorem IsFull.typographic?_cases (h : IsFull table) (text : String) :
    (∃ t, typographic? table text = .ok t) ∨
      ∃ position, typographic? table text = .error (.unbalancedQuotes text position) := by
  obtain ⟨members, rfl⟩ : ∃ members, table = .obj members := by
    have htable := h.isTable
    cases table with
    | obj members => exact ⟨members, rfl⟩
    | _ => cases htable
  have htexts : ∀ m ∈ members, m.2.text?.isSome = true := List.all_eq_true.mp h.isTable
  have hdelimiters : ∀ role : Role,
      ((delimitersOf (.obj members)).lookup role.key).isSome = true := by
    intro role
    rw [lookup_delimitersOf, Option.isSome_map]
    exact h.isSome role
  have hfault := delimiterFault?_eq_none (.obj members) htexts 0
  have heq : typographic? (.obj members) text =
      typographic (delimitersOf (.obj members)) text := by
    unfold typographic?
    dsimp only [entriesFault?]
    rw [hfault, ite_self]
    exact bind_pure _
  rw [heq]
  exact typographic_cases hdelimiters text

/-- The table of quotes for a language is full where all tables of the configuration are. -/
theorem isFull_tableFor (h : config.IsWellTyped) (hcomplete : config.IsComplete)
    (language : String) : IsFull (tableFor language config.quotes) := by
  have hfull : ∀ name table, config.quotes.true? name = some table → IsFull table := by
    intro name table htable
    have hlookup := Option.eq_some_of_filter_eq_some htable
    have hmem := Assoc.mem_of_lookup hlookup
    exact ⟨h.quotes _ hmem, hcomplete.quotes _ hmem⟩
  unfold tableFor
  cases hfirst : config.quotes.true? (primaryTag language) with
  | some table => exact hfull _ table hfirst
  | none =>
    cases hsecond : config.quotes.true? "en" with
    | some table => exact hfull _ table hsecond
    | none => exact isFull_english

end Quotes

/-! ## Templates -/

namespace Template

/-- Where every value is a text or nothing, a template can be filled. -/
theorem valueFault?_eq_none {values : Values} (h : ∀ e ∈ values, ∀ type, e.2 ≠ .loose type)
    (before : Nat) (inRun : Bool) (ps : List Piece) :
    valueFault? values before inRun ps = none := by
  induction ps generalizing before inRun with
  | nil => rfl
  | cons p ps ih =>
    cases p with
    | literal c => exact ih _ _
    | token name =>
      unfold valueFault?
      split
      · exact ih _ _
      · exact ih _ _
      · exact ih _ _
      · next type hlookup => exact absurd rfl (h _ (Assoc.mem_of_lookup hlookup) type)

end Template

namespace Assembly

variable {config : Config} {properties : Attributes}

theorem metadataFault?_eq_none (hproperties : properties.areTexts = true) :
    metadataFault? properties = none := by
  refine List.findSome?_eq_none_iff.mpr fun key _ ↦ ?_
  rw [Entries.trueLoose?_eq_none ((Entries.areTexts_iff _).mp hproperties).2]
  rfl

variable (h : config.IsWellTyped)

include h

theorem preambleFault?_eq_none : preambleFault? config = none := by
  have hsnippets : config.useSnippets.findSome? Datum.keyFault? = none := by
    refine List.findSome?_eq_none_iff.mpr fun d hd ↦ ?_
    have htext := h.useSnippets d hd
    cases d with
    | str t => rfl
    | _ => cases htext
  rw [preambleFault?, h.loose?_eq_none, hsnippets]
  rfl

theorem values_ne_loose (zones : Zone → String) (properties : Attributes) :
    ∀ e ∈ values config zones properties, ∀ type, e.2 ≠ .loose type := by
  have hlanguage : ∀ type, languageOf config properties ≠ .loose type := by
    intro type
    rw [languageOf, h.loose?_eq_none]
    split
    · exact nofun
    · exact nofun
  intro e he type
  rcases List.mem_append.mp he with he | he
  · obtain ⟨⟨token, t⟩, -, rfl⟩ := List.mem_map.mp he
    exact nofun
  · rcases List.mem_cons.mp he with rfl | he
    · exact hlanguage type
    · rw [List.mem_singleton.mp he]
      exact nofun

theorem exists_fillTemplate (hproperties : properties.areTexts = true) (zones : Zone → String)
    (t : String) : ∃ r, fillTemplate config zones (.str t) properties = .ok r := by
  unfold fillTemplate
  rw [metadataFault?_eq_none hproperties, preambleFault?_eq_none h]
  dsimp only [Option.or, Template.fill?]
  rw [Template.valueFault?_eq_none (values_ne_loose h zones properties)]
  exact ⟨_, rfl⟩

/-- A document whose properties are texts can be put together, whatever template is asked for. -/
theorem exists_assemble (hproperties : properties.areTexts = true) (body : String)
    (chunks : Zone → List String) :
    ∃ r, assemble config body chunks config.template properties = .ok r := by
  rcases h.template_cases with htemplate | ⟨name, htemplate⟩
  · rw [htemplate]
    exact ⟨_, rfl⟩
  · rw [htemplate]
    have hfind : findTemplate config (.str name) = .error (.missingTemplate (.str name)) ∨
        ∃ t, findTemplate config (.str name) = .ok (.str t) := by
      cases hlookup : config.templates.lookup name with
      | none =>
        left
        simp [findTemplate, Datum.keyFault?, Datum.unkeyed?, Datum.text?, hlookup]
      | some j =>
        obtain ⟨t, rfl⟩ := Entries.exists_str_of_lookup h.templates hlookup
        right
        exact ⟨t, by simp [findTemplate, Datum.keyFault?, Datum.unkeyed?, Datum.text?, hlookup]⟩
    rcases hfind with hfind | ⟨t, hfind⟩
    · simp only [assemble, hfind]
      exact ⟨_, rfl⟩
    · simp only [assemble, hfind]
      exact exists_fillTemplate h hproperties _ t

end Assembly

end Typeset

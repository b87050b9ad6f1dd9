import Typeset.Proofs.Render.Marking
import Typeset.Proofs.Text.Lines

/-!
# What is printed with the built-in configuration

Where the parts of a node without attributes are texts of marked ones, so is what the built-in
configuration prints for the node: one of the marked texts that the node prints.
-/

namespace Typeset

open Latex Render

namespace Node

variable {n : Node} {u : Branch → List Sign} {title tag caption s t : List Sign} {key text : String}

/-- A format that is no more than the place of a text. -/
theorem fill_place (t : String) : Text.fill "%s" t = t := by
  apply String.toList_inj.mp
  simp [Text.fill, Text.cut?]

/-! ## Sections -/

/-- Each level that is not too deep has a sectioning command, and one without a number. -/
theorem exists_commandsOf {h : Heading} (hlevel : 1 ≤ h.level)
    (hdeep : ¬ isDeep .default h = true) :
    ∃ numbered unnumbered, numbered ∈ sectionNames ∧ unnumbered ∈ sectionNames ∧
      commandsOf .default h.level = .ok (command numbered "%s", command unnumbered "%s") := by
  have hlast : h.level ≤ 3 := by
    by_contra hlast
    refine hdeep (Bool.or_eq_true_iff.mpr (.inl (decide_eq_true ?_)))
    show (3 : Int) < h.level
    omega
  obtain hone | htwo | hthree : h.level = 1 ∨ h.level = 2 ∨ h.level = 3 := by omega
  · exact ⟨"section", "section*", by decide, by decide, by rw [hone]; rfl⟩
  · exact ⟨"subsection", "subsection*", by decide, by decide, by rw [htwo]; rfl⟩
  · exact ⟨"subsubsection", "subsubsection*", by decide, by decide, by rw [hthree]; rfl⟩

theorem exists_prints_section {h : Heading} (he : n.element = .heading h) (hlevel : 1 ≤ h.level)
    (hkey : IsKey key) (htitle : IsTrimmed (u .title) title)
    (htext : sectionText .default h (textOf title) key (textOf (u .children)) = .ok text) :
    IsTextOf (n.Prints u) text := by
  unfold sectionText at htext
  split at htext
  · have hname : (if Config.default.sectionNumbers && !h.unnumbered then "enumerate"
        else "itemize") ∈ listNames := by
      split <;> decide
    refine ⟨_, .deepSection he hname hkey htitle, ?_⟩
    have hitem : "\n\\item " = "\n" ++ ("\\item" ++ " ") := rfl
    rw [← Except.ok.inj htext, sectionItem]
    simp only [textOf_append, textOf_environmentOf, textOf_commandOf, textOf_keySigns,
      textOf_markup, labelCommand, hitem, String.append_assoc]
  · next hdeep =>
    obtain ⟨numbered, unnumbered, hnumbered, hunnumbered, hcommands⟩ :=
      exists_commandsOf hlevel hdeep
    have hplain : ∀ name ∈ sectionNames, '%' ∉ name.toList := by decide
    rw [hcommands] at htext
    have hname : ∃ name ∈ sectionNames, Text.fill
        (if h.unnumbered || !Config.default.sectionNumbers then command unnumbered "%s"
        else command numbered "%s") (textOf title) = command name (textOf title) := by
      split
      · exact ⟨_, hunnumbered, fill_command (hplain _ hunnumbered) _⟩
      · exact ⟨_, hnumbered, fill_command (hplain _ hnumbered) _⟩
    obtain ⟨name, hname, hfill⟩ := hname
    refine ⟨_, .section he hname hkey htitle, ?_⟩
    rw [← Except.ok.inj htext, hfill]
    simp only [textOf_append, textOf_commandOf, textOf_keySigns, textOf_markup, labelCommand,
      String.append_assoc]

/-! ## Lists -/

theorem exists_prints_list {kind : ListKind} (he : n.element = .plainList kind)
    (htext : listText kind [] (textOf (u .children)) = .ok text) :
    IsTextOf (n.Prints u) text := by
  have hprints : ∀ name ∈ listNames, listEnvironment kind = .ok name →
      IsTextOf (n.Prints u) text := by
    intro name hname henvironment
    rw [listText, henvironment] at htext
    refine ⟨_, .list he hname, ?_⟩
    rw [← Except.ok.inj htext]
    simp only [textOf_append, textOf_environmentOf, textOf_markup, Entries.shown?,
      List.lookup_nil, Option.map_none, Option.getD_none, String.append_empty, String.append_assoc]
  cases kind with
  | ordered => exact hprints "enumerate" (by decide) rfl
  | unordered => exact hprints "itemize" (by decide) rfl
  | descriptive => exact hprints "description" (by decide) rfl
  | undeclared name => cases htext

/-- The line that sets a counter stands before the item. -/
theorem exists_isCounter (checkbox : Option Checkbox) (counter : Option Int) (depth : Option Nat)
    (tag contents : String) : ∃ s, IsCounter s ∧ itemText checkbox counter depth tag contents =
      textOf s ++ itemText checkbox none none tag contents := by
  have hnone : IsCounter [] ∧ itemText checkbox none none tag contents =
      textOf [] ++ itemText checkbox none none tag contents :=
    ⟨.none, by rw [textOf_nil, String.empty_append]⟩
  cases counter with
  | none => exact ⟨[], hnone⟩
  | some counter =>
    cases depth with
    | none => exact ⟨[], hnone⟩
    | some depth =>
      refine ⟨_, .some depth counter, ?_⟩
      simp only [itemText, textOf_append, textOf_commandOf, textOf_group, textOf_markup,
        counterLine, String.empty_append, String.append_assoc]

theorem exists_isBox (checkbox : Option Checkbox) :
    IsTextOf IsBox ((checkbox.bind checkboxText).getD "") := by
  cases hbox : checkbox.bind checkboxText with
  | none => exact ⟨[], .none, rfl⟩
  | some t =>
    obtain ⟨box, -, ht⟩ := Option.bind_eq_some_iff.mp hbox
    exact ⟨_, .some ht, textOf_markup t⟩

theorem exists_isMarker (checkbox : Option Checkbox) (tag : List Sign) :
    IsTextOf (IsMarker tag) (itemMarker checkbox (textOf tag)) := by
  obtain ⟨box, hbox, htext⟩ := exists_isBox checkbox
  unfold itemMarker
  rw [← htext]
  dsimp only
  split
  · split
    · refine ⟨_, .tag, ?_⟩
      simp only [textOf_append, textOf_group, textOf_markup, String.append_assoc]
    · refine ⟨_, .both hbox, ?_⟩
      simp only [textOf_append, textOf_group, textOf_markup, String.append_assoc]
  · split
    · refine ⟨_, .box hbox, ?_⟩
      simp only [textOf_append, textOf_markup, String.append_assoc]
    · exact ⟨[], .none, rfl⟩

theorem exists_prints_item {checkbox : Option Checkbox} {counter : Option Int}
    (he : n.element = .item checkbox counter) (depth : Option Nat)
    (htag : IsTrimmed (u .tag) tag) :
    IsTextOf (n.Prints u)
      (itemText checkbox counter depth (textOf tag) (textOf (u .children))) := by
  obtain ⟨line, hline, hlinetext⟩ :=
    exists_isCounter checkbox counter depth (textOf tag) (textOf (u .children))
  obtain ⟨marker, hmarker, hmarkertext⟩ := exists_isMarker checkbox tag
  obtain ⟨t, ht, htext⟩ := exists_strip (u .children)
  rw [hlinetext]
  unfold itemText
  dsimp only
  rw [← htext, ← hmarkertext]
  by_cases hempty : (textOf t).isEmpty = true
  · refine ⟨_, .bareItem he hline htag hmarker, ?_⟩
    simp only [textOf_append, textOf_markup, hempty, if_true, String.empty_append,
      String.append_empty, String.append_assoc]
  · refine ⟨_, .item he hline htag hmarker ht, ?_⟩
    simp only [textOf_append, textOf_markup, if_neg hempty, String.empty_append,
      String.append_assoc]

/-! ## Tables -/

theorem isPlainText_columnWord (g : Geometry) (table : Node) :
    IsPlainText (Table.columnWord g table) := by
  have hbar : '|' ≠ '\\' ∧ '|' ≠ '{' ∧ '|' ≠ '}' := by decide
  have hbarred : ∀ (letters : List Char), (∀ c ∈ letters, c ≠ '\\' ∧ c ≠ '{' ∧ c ≠ '}') →
      ∀ column afterBar, ∀ c ∈ Table.barred g column afterBar letters,
        c ≠ '\\' ∧ c ≠ '{' ∧ c ≠ '}' := by
    intro letters hletters
    induction letters with
    | nil => exact fun _ _ c hc ↦ absurd hc List.not_mem_nil
    | cons letter letters ih =>
      intro column afterBar c hc
      simp only [Table.barred, List.mem_append, List.mem_ite_nil_right, List.mem_singleton] at hc
      rcases hc with ((⟨-, rfl⟩ | rfl) | ⟨-, rfl⟩) | hc
      · exact hbar
      · exact hletters _ List.mem_cons_self
      · exact hbar
      · exact ih (fun d hd ↦ hletters d (.tail _ hd)) _ _ c hc
  rw [IsPlainText, Table.columnWord, String.toList_ofList]
  refine hbarred _ (fun c hc ↦ ?_) 0 false
  obtain ⟨column, -, rfl⟩ := List.mem_map.mp hc
  split <;> decide

/-- The lines of a caption and a label, with their line feeds. -/
theorem exists_isCaption (caption : List Sign) {label : Option String}
    (hlabel : ∀ key ∈ label, IsKey key) : IsTextOf (IsCaption caption)
      (String.join ((lineOf (captionText none (textOf caption) label)).map (· ++ "\n"))) := by
  have hlabel : labelLine label = [] ∨
      ∃ key, IsKey key ∧ labelLine label = [labelCommand key] := by
    cases label with
    | none => exact .inl rfl
    | some key =>
      by_cases hempty : key = ""
      · exact .inl (by rw [hempty]; rfl)
      · exact .inr ⟨key, hlabel key rfl, labelLine_some hempty⟩
  unfold captionText
  dsimp only
  by_cases hcaption : (textOf caption).isEmpty = true
  · rw [if_pos hcaption, List.nil_append]
    rcases hlabel with hnone | ⟨key, hkey, hsome⟩
    · exact ⟨[], .none, by rw [hnone]; rfl⟩
    · refine ⟨_, .label hkey, ?_⟩
      simp [hsome, Text.unlines, lineOf, labelCommand, command]
  · rw [if_neg hcaption]
    rcases hlabel with hnone | ⟨key, hkey, hsome⟩
    · refine ⟨_, .caption, ?_⟩
      simp [hnone, Text.unlines, lineOf, command, String.append_assoc]
    · refine ⟨_, .both hkey, ?_⟩
      simp [hsome, Text.unlines, lineOf, labelCommand, command, String.append_assoc]

theorem exists_prints_table (he : n.element = .table) (hattributes : n.attributes = [])
    (g : Geometry) (hcaption : IsTrimmed (u .caption) caption) {label : Option String}
    (hlabel : ∀ key ∈ label, IsKey key) :
    IsTextOf (n.Prints u)
      (tableText .default g n (textOf (u .children)) (textOf caption) label) := by
  obtain ⟨lines, hlines, hlinestext⟩ := exists_isCaption caption hlabel
  refine ⟨_, .table he hcaption hlines (isPlainText_columnWord g n), ?_⟩
  have henvironment : tableEnvironment .default n = "tabular" := by
    rw [tableEnvironment, hattributes]
    rfl
  have hfloat : floatOf .default n = "table" := by
    rw [floatOf, hattributes]
    rfl
  have hcolumns : (Table.columnSpec g n).plain = Table.columnWord g n := by
    rw [Table.columnSpec, hattributes]
    rfl
  have hself : tableText .default g n (textOf (u .children)) (textOf caption) label =
      Text.unlines (([opening "table" ++ ""] ++ ["\\centering"]) ++
        (lineOf (captionText none (textOf caption) label) ++
          [opening "tabular" ++ "" ++ braced (Table.columnWord g n) ++ "\n" ++
            textOf (u .children) ++ closing "tabular"]) ++ [closing "table"]) ++ "\n" := by
    unfold tableText tableOpening
    rw [henvironment, hfloat, hcolumns, hattributes]
    rfl
  rw [hself, Text.unlines_concat (by simp)]
  simp only [List.map_append, List.map_cons, List.map_nil, String.join_append, String.join_cons,
    String.join_nil, ← hlinestext, textOf_append, textOf_environmentOf, textOf_group, textOf_markup,
    String.append_empty, String.append_assoc]

theorem isLong_eq_false {table : Node} (hattributes : table.attributes = []) :
    isLong .default table = false := by
  rw [isLong, tableEnvironment, hattributes]
  rfl

/-- A rule above or below a row is a line, or there is none. -/
theorem exists_isRule (g : Geometry) (index : Nat) {t : String}
    (h : t = (g.rules true index).1 ∨ t = (g.rules true index).2) :
    IsTextOf IsRule (String.join ((lineOf t).map (· ++ "\n"))) := by
  have hrule : ∀ name ∈ ["toprule", "midrule", "bottomrule"],
      IsTextOf IsRule (String.join ((lineOf ("\\" ++ name)).map (· ++ "\n"))) :=
    fun name hname ↦ ⟨_, .some hname, by simp [lineOf]⟩
  have hnone : IsTextOf IsRule (String.join ((lineOf "").map (· ++ "\n"))) :=
    ⟨[], .none, rfl⟩
  unfold Geometry.rules Geometry.ruleNames at h
  dsimp only at h
  rcases h with rfl | rfl
  · split
    · exact hrule "toprule" (by decide)
    · split
      · exact hrule "midrule" (by decide)
      · exact hnone
  · split
    · exact hrule "bottomrule" (by decide)
    · exact hnone

/-- The width that a cell forces: null and zero force none. -/
def forcedWidth (width : Option Int) : Option Int := width.filter (· != 0)

theorem textOf_sizingSigns (width : Option Int) :
    textOf (sizingSigns (forcedWidth width)) = Geometry.sizingCell (.ofNumber? width) := by
  cases width with
  | none => rfl
  | some w =>
    by_cases hw : w = 0
    · subst hw
      rfl
    · have htrue : (Datum.int w).isTrue = true := by simpa [Datum.isTrue] using hw
      have hforced : forcedWidth (some w) = some w := by
        rw [forcedWidth, Option.filter_some, if_pos (bne_iff_ne.mpr hw)]
      have hcell : Geometry.sizingCell (.ofNumber? (some w)) =
          command "rule" (toString w ++ "em") ++ braced "0pt" := if_pos htrue
      rw [hforced, hcell, sizingSigns, textOf_append, textOf_commandOf, textOf_group, textOf_markup,
        textOf_markup]

/-- The widths of the columns of a proper table are numbers, or there are none. -/
theorem exists_widths {table : Node} (hproper : table.isProper = true) :
    ∃ widths : List (Option Int),
      (Table.geometry .default table).widths = widths.map Datum.ofNumber? := by
  have hcell : ∀ cell : Node, cell.isProper = true →
      ∃ width : Option Int, Table.cellWidth cell = .ofNumber? width := by
    intro cell hcell
    unfold Table.cellWidth
    split
    · next width _ => exact ⟨width, by rw [loose?_eq_none hcell, Option.getD_none]⟩
    · exact ⟨none, rfl⟩
  have hcells : ∀ cells : List Node, (∀ cell ∈ cells, cell.isProper = true) →
      ∃ widths : List (Option Int), cells.map Table.cellWidth = widths.map Datum.ofNumber? := by
    intro cells hcells
    induction cells with
    | nil => exact ⟨[], rfl⟩
    | cons cell cells ih =>
      obtain ⟨width, hwidth⟩ := hcell cell (hcells cell List.mem_cons_self)
      obtain ⟨widths, hwidths⟩ := ih fun m hm ↦ hcells m (.tail _ hm)
      exact ⟨width :: widths, by rw [List.map_cons, hwidth, hwidths, List.map_cons]⟩
  show ∃ widths, (((Table.dataRows table).head?.map fun row ↦
    row.children.map Table.cellWidth).getD []) = _
  cases hrow : (Table.dataRows table).head? with
  | none => exact ⟨[], rfl⟩
  | some row =>
    have hmem : row ∈ table.children := (List.mem_filter.mp (List.mem_of_head? hrow)).1
    have hrowproper := ((isProper_iff table).mp hproper).2 .children row hmem
    exact hcells row.children (((isProper_iff row).mp hrowproper).2 .children)

/-- The row that forces widths is a line, or there is none. -/
theorem exists_isSizing {g : Geometry} {widths : List (Option Int)}
    (hwidths : g.widths = widths.map Datum.ofNumber?) {t : String}
    (h : t = "" ∨ t = g.sizingRow.getD "") :
    IsTextOf IsSizing (String.join ((lineOf t).map (· ++ "\n"))) := by
  have hnone : IsTextOf IsSizing (String.join ((lineOf "").map (· ++ "\n"))) :=
    ⟨[], .none, rfl⟩
  rcases h with rfl | rfl
  · exact hnone
  · unfold Geometry.sizingRow
    split
    · refine ⟨_, .some ((widths ++ List.replicate (g.columnCount - g.widths.length) none).map
        forcedWidth), ?_⟩
      have hcells : ((widths ++ List.replicate (g.columnCount - g.widths.length) none).map
          forcedWidth).map (textOf ∘ sizingSigns) = g.widths.map Geometry.sizingCell ++
            List.replicate (g.columnCount - g.widths.length) "" := by
        rw [hwidths, List.map_map, List.map_append, List.map_replicate, List.map_map]
        refine congrArg₂ _ (List.map_congr_left fun width _ ↦ textOf_sizingSigns width) rfl
      rw [textOf_append, textOf_intercalate, List.map_map, hcells]
      simp [lineOf, String.append_assoc]
    · exact hnone

theorem exists_prints_row {kind : RowKind} (he : n.element = .tableRow kind) {table : Node}
    (hproper : table.isProper = true) (hattributes : table.attributes = []) (index cells : Nat) :
    IsTextOf (n.Prints u) (rowText .default (Table.geometry .default table) table index cells
      (textOf (u .children))) := by
  have hbooktabs : usesBooktabs .default table = true := by
    rw [usesBooktabs, hattributes]
    rfl
  obtain ⟨widths, hwidths⟩ := exists_widths hproper
  generalize Table.geometry .default table = g at hwidths ⊢
  have hforced : (if index = g.bodyStart then g.sizingRow.getD "" else "") = "" ∨
      (if index = g.bodyStart then g.sizingRow.getD "" else "") = g.sizingRow.getD "" := by
    split
    · exact .inr rfl
    · exact .inl rfl
  obtain ⟨above, habove, habovetext⟩ := exists_isRule g index (.inl rfl)
  obtain ⟨below, hbelow, hbelowtext⟩ := exists_isRule g index (.inr rfl)
  obtain ⟨sizing, hsizing, hsizingtext⟩ := exists_isSizing hwidths hforced
  refine ⟨above ++ (sizing ++ (u .children ++
    (markup (String.join (List.replicate (g.columnCount - cells) " &")) ++
      (markup " \\\\\n" ++ below)))), .row he habove hsizing hbelow, ?_⟩
  have hself : rowText .default g table index cells (textOf (u .children)) =
      Text.unlines (lineOf (g.rules true index).1 ++
        lineOf (if index = g.bodyStart then g.sizingRow.getD "" else "") ++
          ["" ++ textOf (u .children) ++ padding g cells ++ " \\\\"] ++
            lineOf (g.rules true index).2 ++ []) ++ "\n" := by
    unfold rowText
    rw [hbooktabs, isLong_eq_false hattributes]
    rfl
  rw [hself, Text.unlines_concat (by simp)]
  simp only [List.map_append, List.map_cons, List.map_nil, String.join_append, String.join_cons,
    String.join_nil, ← habovetext, ← hbelowtext, ← hsizingtext, textOf_append, textOf_markup,
    String.append_empty, String.empty_append, String.append_assoc, padding]
  rfl

theorem exists_prints_cell {width : Option Int} (he : n.element = .tableCell width) (g : Geometry)
    {table : Node} (hattributes : table.attributes = []) (index column : Nat) :
    IsTextOf (n.Prints u) (cellText .default g table index column (textOf (u .children))) := by
  obtain ⟨t, ht, htext⟩ := exists_strip (u .children)
  have hstyle : (Table.cellStyle .default g (footerStyle table) index column).plain = "%s" := by
    have hplain : footerStyle table = .null := by
      rw [footerStyle, hattributes]
      rfl
    have hwrapper : Text.holds (Table.footerWrapper .default .null) "%s" = false := by decide
    rw [hplain, Table.cellStyle, hwrapper, Bool.and_false, if_neg Bool.false_ne_true]
    rfl
  unfold cellText
  rw [hstyle, ← htext, fill_place]
  dsimp only
  split
  · exact ⟨_, .cell he ht, rfl⟩
  · refine ⟨_, .nextCell he ht, ?_⟩
    rw [textOf_append, textOf_markup]

/-! ## Other blocks -/

theorem exists_prints_quote (he : n.element = .quoteBlock) :
    IsTextOf (n.Prints u) (quoteText (textOf (u .children))) := by
  refine ⟨_, .quote he, ?_⟩
  simp only [textOf_append, textOf_environmentOf, textOf_markup, quoteText, String.append_assoc]

theorem exists_prints_rule (he : n.element = .horizontalRule) :
    IsTextOf (n.Prints u) (ruleText []) := by
  refine ⟨_, .rule he, ?_⟩
  simp only [textOf_append, textOf_group, textOf_markup, ruleText, Entries.shown?,
    List.lookup_nil, Option.map_none, Option.getD_none]
  rfl

/-! ## Inline objects -/

theorem exists_prints_link {kind path : String} (he : n.element = .link kind path)
    (hkey : IsKey key) {target : Node} (htarget : target.kind ≠ .latexEnvironment) :
    IsTextOf (n.Prints u) (internalLink target key (Text.strip (textOf (u .children)))) := by
  obtain ⟨t, ht, htext⟩ := exists_strip (u .children)
  rw [← htext, internalLink]
  split
  · refine ⟨_, .link he hkey ht, ?_⟩
    have hcommand : "\\hyperref[" = "\\hyperref" ++ "[" := rfl
    simp only [textOf_append, textOf_group, textOf_markup, textOf_keySigns, hcommand,
      String.append_assoc]
  · refine ⟨_, .reference he hkey, ?_⟩
    split
    · next he' => exact absurd (congrArg Element.kind he') htarget
    · rw [textOf_commandOf, textOf_keySigns]

theorem exists_prints_timestamp {value kind : String} (he : n.element = .timestamp value kind) :
    IsTextOf (n.Prints u) (timestampText .default value kind) := by
  have hplain : IsTextOf (n.Prints u) (Text.fill "%s" (escapeText value)) :=
    ⟨_, .timestamp he, by rw [textOf_sourceSigns, fill_place]⟩
  have hitalic : IsTextOf (n.Prints u) (Text.fill "\\textit{%s}" (escapeText value)) := by
    refine ⟨_, .italicTimestamp he, ?_⟩
    have hfill : Text.fill (command "textit" "%s") (escapeText value) =
      command "textit" (escapeText value) := fill_command (by decide) _
    rw [textOf_commandOf, textOf_sourceSigns, ← hfill]
    rfl
  have hformat : ∀ name, (Config.default.timestampFormats.lookup name).getD "%s" = "%s" ∨
      (Config.default.timestampFormats.lookup name).getD "%s" = "\\textit{%s}" := by
    intro name
    cases hlookup : Config.default.timestampFormats.lookup name with
    | none => exact .inl rfl
    | some format =>
      have hmem := Assoc.mem_of_lookup hlookup
      simp only [Config.default, List.mem_cons, Prod.mk.injEq, List.not_mem_nil, or_false] at hmem
      rcases hmem with ⟨-, rfl⟩ | ⟨-, rfl⟩ | ⟨-, rfl⟩ <;> exact .inr rfl
  unfold timestampText
  dsimp only
  rcases hformat (Text.dropEnding kind "-range") with h | h
  · rw [h]
    exact hplain
  · rw [h]
    exact hitalic

end Node

end Typeset

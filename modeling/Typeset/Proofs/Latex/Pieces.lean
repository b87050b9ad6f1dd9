import Typeset.Latex.Display
import Typeset.Latex.Figure
import Typeset.Latex.Link
import Typeset.Latex.Lists
import Typeset.Latex.Listing
import Typeset.Latex.Section
import Typeset.Latex.Tabular
import Typeset.Proofs.Text.Carries

/-!
# What is passed on

What the parts of a command or an environment carry is carried by its text, part after part in the
order in which they are printed, if it is no word that trimming or the head of a long table takes
apart. Commands for labels and for footnotes are none.
-/

namespace Typeset.Latex

open Text

/-- What ends the head of a long table. -/
def headEnd : List Char := "\\endhead\n".toList

/-- The word is neither trimmed nor cut at the end of a table's head. -/
structure IsWhole (s : String) : Prop extends IsCompact s where
  uncut : IsUncut headEnd s

variable {ws vs us : List String}

theorem carries_braced {t : String} (h : Carries ws t.toList) : Carries ws (braced t).toList := by
  simp only [braced, String.toList_append]
  exact (h.append_left _).append_right _

theorem carries_command {t : String} (h : Carries ws t.toList) (name : String) :
    Carries ws (command name t).toList := by
  rw [command, String.toList_append]
  exact (carries_braced h).append_left _

theorem carriesAll_lineOf {t : String} (h : Carries ws t.toList) : CarriesAll ws (lineOf t) := by
  unfold lineOf
  split
  · next hempty =>
    rw [h.eq_nil_of_isEmpty hempty]
    exact .nil
  · exact .single h

theorem carriesAll_arranged {above : Bool} {caption tabular : List String}
    (hcaption : CarriesAll ws caption) (htabular : CarriesAll vs tabular) :
    CarriesAll (arranged above ws vs) (arranged above caption tabular) := by
  unfold arranged
  split
  · exact hcaption.append htabular
  · exact htabular.append hcaption

theorem mem_arranged {t : String} {above : Bool} {caption tabular : List String} :
    t ∈ arranged above caption tabular ↔ t ∈ caption ∨ t ∈ tabular := by
  unfold arranged
  split <;> simp [or_comm]

/-! ## Captions -/

theorem carries_captionText {caption : String} (h : Carries ws caption.toList)
    (float label : Option String) : Carries ws (captionText float caption label).toList := by
  refine h.of_nonempty fun hempty ↦ ?_
  unfold captionText
  rw [hempty]
  refine CarriesAll.unlines (.append_right (.single ?_) _)
  rw [String.toList_append]
  exact (carries_braced h).append_left _

/-! ## Blocks -/

/-- The title of a heading gets into its section. -/
def printsTitle (config : Config) (g : Heading) : Bool :=
  isDeep config g ||
    match commandsOf config g.level with
    | .ok (numbered, unnumbered) =>
      holds (if g.unnumbered || !config.sectionNumbers then unnumbered else numbered) "%s"
    | .error _ => false

/-- A section carries what its title carries, if the title gets into it, and then what its contents
carry. -/
theorem carries_sectionText {config : Config} {g : Heading} {title label contents t : String}
    (htitle : Carries ws title.toList) (hcontents : Carries vs contents.toList)
    (ht : sectionText config g title label contents = .ok t) :
    Carries ((if printsTitle config g then ws else []) ++ vs) t.toList := by
  unfold sectionText at ht
  unfold printsTitle
  split at ht
  · next hdeep =>
    obtain rfl := Except.ok.inj ht
    simp only [hdeep, Bool.true_or, if_true, sectionItem, String.toList_append]
    refine Carries.append_right (.append_right (.append ?_ hcontents) _) _
    exact (((htitle.append_left _).append_right _).append_right _)
  · next hdeep =>
    cases hc : commandsOf config g.level with
    | error e =>
      rw [hc] at ht
      cases ht
    | ok commands =>
      obtain ⟨numbered, unnumbered⟩ := commands
      rw [hc] at ht
      obtain rfl := Except.ok.inj ht
      simp only [Bool.eq_false_iff.mpr hdeep, Bool.false_or, String.toList_append]
      exact (((htitle.fill.append_right _).append_right _).append_right _).append hcontents

theorem carries_listText {kind : ListKind} {attributes : Attributes} {contents t : String}
    (h : Carries ws contents.toList) (ht : listText kind attributes contents = .ok t) :
    Carries ws t.toList := by
  unfold listText at ht
  cases he : listEnvironment kind with
  | error e =>
    rw [he] at ht
    cases ht
  | ok environment =>
    rw [he] at ht
    obtain rfl := Except.ok.inj ht
    simp only [String.toList_append]
    exact ((h.append_left _).append_right _).append_right _

theorem carries_itemMarker {tag : String} (h : Carries ws tag.toList)
    (checkbox : Option Checkbox) : Carries ws (itemMarker checkbox tag).toList := by
  refine h.of_nonempty fun hempty ↦ ?_
  unfold itemMarker
  simp only [hempty, Bool.not_false, if_true, String.toList_append]
  refine ((carries_braced ?_).append_left _).append_right _
  split
  · exact h
  · rw [String.toList_append]
    exact h.append_left _

/-- An item carries what its tag carries and then what its contents carry. -/
theorem carries_itemText {tag contents : String} (hvs : AreCompact vs)
    (htag : Carries ws tag.toList) (hcontents : Carries vs contents.toList)
    (checkbox : Option Checkbox) (counter : Option Int) (depth : Option Nat) :
    Carries (ws ++ vs) (itemText checkbox counter depth tag contents).toList := by
  have hbody := hcontents.strip hvs
  unfold itemText
  simp only [String.toList_append]
  refine Carries.append_right (.append ((carries_itemMarker htag checkbox).append_left _) ?_) _
  refine hbody.of_nonempty fun hempty ↦ ?_
  simp only [hempty, Bool.false_eq_true, if_false, String.toList_append]
  exact hbody.append_left _

theorem carries_specialText {contents : String} (h : Carries ws contents.toList) (config : Config)
    (type : String) (attributes : Attributes) (label : Option String) :
    Carries ws (specialText config type attributes label contents).toList := by
  unfold specialText
  simp only [String.toList_append]
  exact ((h.append_left _).append_right _).append_right _

theorem carries_quoteText {contents : String} (h : Carries ws contents.toList) :
    Carries ws (quoteText contents).toList := by
  unfold quoteText
  simp only [String.toList_append]
  exact ((h.append_left _).append_right _).append_right _

/-! ## Figures and listings -/

/-- The caption of a figure stands above its graphic. -/
def captionsAbove (config : Config) (attributes : Attributes) : Bool :=
  figureFloat attributes != "nil" && config.figureCaptionAbove

/-- A figure carries what its caption and its contents carry, in the order of both. -/
theorem carries_figureText {attributes : Attributes} {contents caption : String}
    {label : Option String} (hvs : AreCompact vs) (config : Config)
    (hcaption : ∀ float, Carries ws (captionText float caption label).toList)
    (hcontents : Carries vs contents.toList) :
    Carries (arranged (captionsAbove config attributes) ws vs)
      (figureText config attributes contents caption label).toList := by
  have hgraphic := CarriesAll.single (hcontents.strip hvs)
  have hline := fun float ↦ carriesAll_lineOf (hcaption float)
  unfold figureText captionsAbove
  by_cases hfloat : figureFloat attributes = "nil"
  · simp only [hfloat, if_pos, bne_self_eq_false, Bool.false_and, fixedFigure,
      String.toList_append]
    refine Carries.append_right (CarriesAll.unlines ?_) _
    exact (hgraphic.append_left ["\x7b\\centering"]).append (hline (some "figure"))
  · have hne : (figureFloat attributes != "nil") = true := by simpa using hfloat
    simp only [hfloat, if_false, hne, Bool.true_and, String.toList_append]
    refine Carries.append_right (CarriesAll.unlines (.append_right (.append_left _ ?_) _)) _
    exact carriesAll_arranged (hline none) hgraphic

theorem carries_stackedArguments {pairs : List (String × Option String)} {s : String}
    (key value : String) (hpair : (key, some value) ∈ pairs) (hvalue : value ≠ "")
    (h : Carries ws s.toList) (hs : key ++ "=" ++ braced value = s) :
    Carries ws (stackedArguments pairs).toList := by
  have hmem : s ∈ pairs.filterMap argument? := by
    refine List.mem_filterMap.mpr ⟨_, hpair, ?_⟩
    unfold argument?
    split <;> simp_all
  exact (CarriesAll.of_mem hmem h).intercalate _

theorem carries_listings {config : Config} {l : Listing} (key value : String)
    (hpair : (key, some value) ∈ [("label", l.label), ("caption", some l.caption)])
    (hvalue : value ≠ "") (h : Carries ws (key ++ "=" ++ braced value).toList) :
    Carries ws (l.listings config).toList := by
  unfold Listing.listings
  simp only [String.toList_append]
  refine Carries.append_right (.append_right (.append_right (.append_right ?_ _) _) _) _
  refine (((carries_command ?_ "lstset").append_right _).append_right _).append_right _
  refine carries_stackedArguments key value (List.mem_append_left _ (.tail _ ?_)) hvalue h rfl
  exact List.mem_append_left _ hpair

theorem carries_listing_caption {config : Config} {l : Listing} (h : Carries ws l.caption.toList) :
    Carries ws (l.print config).toList := by
  refine h.of_nonempty fun hempty ↦ ?_
  have hlabelled : l.isLabelled = true := by simp [Listing.isLabelled, hempty]
  have htext : ∀ label, Carries ws (captionText none l.caption label).toList :=
    carries_captionText h none
  unfold Listing.print
  split
  · have hvalue : l.caption ≠ "" := fun he ↦ by simp [he] at hempty
    refine carries_listings "caption" l.caption (by simp) hvalue ?_
    rw [String.toList_append]
    exact (carries_braced h).append_left _
  · simp only [Listing.minted, hlabelled, if_pos, String.toList_append]
    exact ((((htext _).append_left _).append_right _).append_right _).append_right _
  · simp only [Listing.verbatim, hlabelled, if_pos, String.toList_append]
    refine Carries.append_right (.append_right (.append_right (.append_right ?_ _) _) _) _
    exact (htext _).append_left _

/-! ## Tables -/

/-- A table on one page carries what its caption and its rows carry, in the order of both. -/
theorem carries_tableText {g : Geometry} {table : Node} {contents caption : String}
    {label : Option String} (config : Config)
    (hcaption : ∀ float, Carries ws (captionText float caption label).toList)
    (hcontents : Carries vs contents.toList) :
    Carries (arranged config.tableCaptionAbove ws vs)
      (tableText config g table contents caption label).toList := by
  have htabular : CarriesAll vs [tableOpening config g table ++ "\n" ++ contents ++
      closing (tableEnvironment config table)] := by
    refine .single ?_
    simp only [String.toList_append]
    exact (hcontents.append_left _).append_right _
  have hline := fun float ↦ carriesAll_lineOf (hcaption float)
  unfold tableText
  dsimp only
  split
  · rw [fixedTable, String.toList_append]
    exact (carriesAll_arranged (hline _) htabular).unlines.append_right _
  · rw [floatingTable, String.toList_append]
    refine Carries.append_right (CarriesAll.unlines (.append_right (.append_left _ ?_) _)) _
    exact carriesAll_arranged (hline none) htabular

/-- Of words that the contents of a long table carry, the number of those that stand before its
foot. -/
def countBeforeFoot (contents : String) (ws : List String) : Nat :=
  match cut? headEnd contents.toList with
  | some (before, _) => Carries.countIn before ws
  | none => 0

theorem carries_longFoot {g : Geometry} {rows : List String} (config : Config)
    (h : CarriesAll ws rows) : Carries ws (longFoot config g rows).toList := by
  unfold longFoot
  rw [String.toList_append]
  refine Carries.append_left _ ?_
  split
  · next hempty =>
    rw [List.isEmpty_iff.mp hempty] at h
    rw [h.eq_nil]
    exact .nil _
  · rw [String.toList_append]
    exact h.join.append_right _

/-- A long table carries what its caption carries, then what stands in its head, in its foot and in
the rest of its rows. -/
theorem carries_longTableText {g : Geometry} {table : Node} {contents caption : String}
    {label : Option String} {rows : List String} (config : Config)
    (hcaption : Carries ws (captionText none caption label).toList)
    (hcontents : Carries vs contents.toList) (hrows : CarriesAll us rows)
    (hvs : longFoot config g rows ≠ "" → ∀ w ∈ vs, IsUncut headEnd w) :
    Carries (ws ++ (vs.take (countBeforeFoot contents vs) ++ us ++
        vs.drop (countBeforeFoot contents vs)))
      (longTableText config g table contents caption label rows).toList := by
  have hfoot := carries_longFoot (g := g) config hrows
  unfold longTableText
  simp only [String.toList_append]
  refine Carries.append_right (.append_right (.append (.append_left _ ?_) ?_) _) _
  · refine hcaption.of_nonempty fun hempty ↦ ?_
    simp only [hempty, Bool.false_eq_true, if_false, String.toList_append]
    exact hcaption.append_right _
  · unfold countBeforeFoot headEnd
    cases hcut : cut? "\\endhead\n".toList contents.toList with
    | none => simpa using hfoot.append hcontents
    | some parts =>
      obtain ⟨before, after⟩ := parts
      have hparts := eq_append_of_cut? hcut
      simp only [String.toList_append, String.toList_ofList]
      by_cases hempty : longFoot config g rows = ""
      · rw [hempty] at hfoot ⊢
        have hus : us = [] := hfoot.eq_nil
        rw [hus, List.append_nil, List.take_append_drop, String.toList_empty, List.append_nil,
          ← hparts]
        exact hcontents
      · rw [hparts, List.append_assoc] at hcontents
        have htake := Carries.take_countIn before vs
        have hdrop := Carries.drop_countIn (hvs hempty) hcontents
        exact ((htake.append_right _).append hfoot).append hdrop

theorem carries_rowText {contents : String} (h : Carries ws contents.toList) (config : Config)
    (g : Geometry) (table : Node) (index cells : Nat) :
    Carries ws (rowText config g table index cells contents).toList := by
  unfold rowText
  simp only [String.toList_append]
  refine Carries.append_right (CarriesAll.unlines ?_) _
  refine .append_right (.append_right (.append_left _ (.single ?_)) _) _
  simp only [String.toList_append]
  exact ((h.append_left _).append_right _).append_right _

theorem carries_cellText {config : Config} {g : Geometry} {table : Node} {index column : Nat}
    {contents : String} (hws : AreCompact ws) (h : Carries ws contents.toList) :
    Carries (if holds (Table.cellStyle config g (footerStyle table) index column).plain "%s" then ws
        else [])
      (cellText config g table index column contents).toList := by
  have htext : Carries _ (fill (Table.cellStyle config g (footerStyle table) index column).plain
      (strip contents)).toList := (h.strip hws).fill
  generalize (if holds _ _ then ws else []) = vs at htext ⊢
  unfold cellText
  dsimp only
  split
  · exact htext
  · rw [String.toList_append]
    exact htext.append_left _

/-! ## Links -/

theorem carries_internalLink {description : String} (h : Carries ws description.toList)
    (target : Node) (label : String) :
    Carries ws (internalLink target label description).toList := by
  refine h.of_nonempty fun hempty ↦ ?_
  simp only [internalLink, hempty, Bool.not_false, if_true, String.toList_append]
  exact (carries_braced h).append_left _

theorem carries_externalLink {description : String} (h : Carries ws description.toList)
    (kind path : String) : Carries ws (externalLink kind path description).toList := by
  refine h.of_nonempty fun hempty ↦ ?_
  simp only [externalLink, hempty, Bool.false_eq_true, if_false, String.toList_append]
  exact (carries_braced h).append_left _

end Typeset.Latex

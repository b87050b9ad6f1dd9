import Typeset.Proofs.Latex.Labels
import Typeset.Proofs.Table.Arranged

/-!
# Enumerations

A text opens and closes enumerations and sets counters of their items. These marks are nested, and
each counter is that of the ordered lists around the item. Some enumerations are no lists: a section
that is too deep for a heading is printed as the item of one, and a block or a table can be put into
an environment of that name.
-/

namespace Typeset.Latex

open Text

/-! ## Marks -/

/-- A mark of an enumeration: the beginning of one, which can be that of an ordered list, the end of
one, or the command that gives the next item of an ordered list its number. -/
inductive EnumMark where
  | opens (ofList : Bool)
  | closes
  | sets (depth : Nat) (value : Int)
deriving DecidableEq, Repr

/-- A command with a backslash at its front only is whole if it does not begin like the end of a
table's head. -/
theorem isWhole_of_front {w : String} {cs : List Char} (hw : w.toList = '\\' :: (cs ++ ['\x7d']))
    (hcs : '\\' ∉ cs) (hlength : 5 ≤ w.toList.length)
    (htake : w.toList.take 5 ≠ headEnd.take 5) : IsWhole w := by
  have hne : ∀ ds, ¬ w.toList <+: headEnd ++ ds := by
    rintro ds ⟨rest, hrest⟩
    refine htake ?_
    rw [← List.take_append_of_le_length hlength, hrest]
    exact List.take_append_of_le_length (by decide)
  refine ⟨⟨⟨_, _, hw, by decide⟩, ⟨'\x7d', '\\' :: cs, hw, by decide⟩⟩, ?_, ?_⟩
  · intro bs ds h
    rcases List.prefix_or_prefix_of_prefix h (List.prefix_append bs _) with h' | ⟨rest, hrest⟩
    · exact h'
    · rw [← hrest] at h
      have hrest' : rest <+: headEnd ++ ds := (List.prefix_append_right_inj _).mp h
      rcases bs with _ | ⟨b, bs⟩
      · exact absurd (hrest ▸ hrest') (hne ds)
      · rcases rest with _ | ⟨r, rest⟩
        · rw [← hrest, List.append_nil]
        · -- a second backslash would stand inside of the word
          obtain rfl : r = '\\' := (List.cons_prefix_cons.mp hrest').1
          rw [hw] at hrest
          have hmem : '\\' ∈ cs ++ ['\x7d'] :=
            (List.cons.inj hrest).2 ▸ List.mem_append_right _ List.mem_cons_self
          simp [hcs] at hmem
  · intro bs ds hbs hsuffix h
    rcases bs with _ | ⟨b, bs⟩
    · exact hbs rfl
    · obtain rfl : b = '\\' := by
        rw [hw] at h
        exact (List.cons_prefix_cons.mp h).1.symm
      rcases List.suffix_cons_iff.mp hsuffix with heq | htail
      · rw [heq] at h
        exact hne ds h
      · exact absurd (htail.subset List.mem_cons_self) (by decide)

namespace EnumMark

/-- The mark as it is printed. -/
def word : EnumMark → String
  | .opens _ => opening "enumerate"
  | .closes => closing "enumerate"
  | .sets depth value => command "setcounter" (enumCounter depth) ++ braced (toString value)

/-- The marks as they are printed. -/
abbrev texts (ms : List EnumMark) : List String := ms.map word

theorem notMem_enumCounter (depth : Nat) : '\\' ∉ (enumCounter depth).toList := by
  unfold enumCounter
  split <;> decide

theorem isWhole_word (m : EnumMark) : IsWhole m.word := by
  cases m with
  | opens =>
    show IsWhole (opening "enumerate")
    have hword : (opening "enumerate").toList = '\\' :: ("begin\x7benumerate".toList ++ ['\x7d']) :=
      rfl
    exact isWhole_of_front hword (by decide) (by decide) (by decide)
  | closes =>
    have hword : (closing "enumerate").toList = '\\' :: ("end\x7benumerate".toList ++ ['\x7d']) :=
      rfl
    exact isWhole_of_front hword (by decide) (by decide) (by decide)
  | sets depth value =>
    show IsWhole (command "setcounter" (enumCounter depth) ++ braced (toString value))
    have hword : (command "setcounter" (enumCounter depth) ++ braced (toString value)).toList =
        '\\' :: ("setcounter\x7b".toList ++ (enumCounter depth).toList ++ "\x7d\x7b".toList ++
          (toString value).toList ++ ['\x7d']) := by
      simp [command, braced]
    have hvalue : '\\' ∉ (toString value).toList :=
      PrintedRow.notMem_toString_int (by decide) (by decide) value
    refine isWhole_of_front hword ?_ ?_ ?_
    · simp only [List.mem_append, notMem_enumCounter, hvalue, or_false]
      decide
    · rw [hword]
      simp
    · rw [hword]
      simp only [List.cons_append, List.take_succ_cons, List.take_zero, String.reduceToList]
      decide

theorem areCompact_texts (ms : List EnumMark) : AreCompact (texts ms) := by
  intro w hw
  obtain ⟨m, -, rfl⟩ := List.mem_map.mp hw
  exact m.isWhole_word.toIsCompact

theorem carries_word (m : EnumMark) : Carries [m.word] m.word.toList :=
  .of_occurs m.isWhole_word.toIsCompact (.refl _)

/-! ## Nesting -/

/-- What a mark does to the enumerations that are open, the innermost first. -/
def step (around : List Bool) : EnumMark → List Bool
  | .opens ofList => ofList :: around
  | .closes => around.tail
  | .sets .. => around

/-- The enumerations that some marks leave open, the innermost first. -/
def openAfter (ms : List EnumMark) : List Bool := ms.foldl step []

/-- The marks close what they open, and with some ordered lists around, each counter is that of all
lists around it. -/
inductive AreNested : Nat → List EnumMark → Prop
  | nil (depth : Nat) : AreNested depth []
  | append {depth : Nat} {ms ns : List EnumMark} :
    AreNested depth ms → AreNested depth ns → AreNested depth (ms ++ ns)
  | sets (depth : Nat) (value : Int) : AreNested depth [.sets depth value]
  | enclosed {depth : Nat} {ms : List EnumMark} (ofList : Bool) :
    AreNested (depth + ofList.toNat) ms → AreNested depth (.opens ofList :: (ms ++ [.closes]))

namespace AreNested

variable {depth d : Nat} {ms before after : List EnumMark} {value : Int}

/-- Nested marks leave open what was open before. -/
theorem foldl_step (h : AreNested depth ms) (around : List Bool) :
    ms.foldl step around = around := by
  induction h generalizing around with
  | nil | sets => rfl
  | append _ _ ih ih' => rw [List.foldl_append, ih, ih']
  | enclosed _ _ ih =>
    rw [List.foldl_cons, List.foldl_append, ih]
    rfl

theorem exists_foldl_step (h : AreNested depth ms) (hms : ms = before ++ .sets d value :: after)
    (around : List Bool) :
    ∃ inner, before.foldl step around = inner ++ around ∧ d = depth + inner.count true := by
  induction h generalizing before after around with
  | nil => simp at hms
  | sets depth value' =>
    rcases before with _ | ⟨m, before⟩
    · obtain ⟨rfl, -⟩ := EnumMark.sets.inj (List.cons.inj hms).1
      exact ⟨[], rfl, rfl⟩
    · simp at hms
  | @append _ _ ns hfirst _ ih ih' =>
    rcases List.append_eq_append_iff.mp hms with ⟨before', rfl, hrest⟩ | ⟨rest, rfl, hrest⟩
    · rw [List.foldl_append, hfirst.foldl_step]
      exact ih' hrest around
    · rcases rest with _ | ⟨m, rest⟩
      · rw [List.append_nil] at hfirst
        rw [hfirst.foldl_step]
        have hsecond : ns = [] ++ .sets d value :: after := hrest.symm
        exact ih' hsecond around
      · obtain ⟨rfl, -⟩ := List.cons.inj hrest
        exact ih rfl around
  | @enclosed depth ms ofList _ ih =>
    rcases before with _ | ⟨m, before⟩
    · simp at hms
    · obtain ⟨rfl, htail⟩ := List.cons.inj hms
      obtain ⟨rest, rfl⟩ : ∃ rest, ms = before ++ .sets d value :: rest := by
        rcases List.append_eq_append_iff.mp htail with ⟨more, rfl, hmore⟩ | ⟨rest, rfl, hrest⟩
        · rcases more with _ | ⟨m, more⟩ <;> simp at hmore
        · rcases rest with _ | ⟨m, rest⟩
          · simp at hrest
          · obtain ⟨rfl, -⟩ := List.cons.inj hrest
            exact ⟨rest, rfl⟩
      obtain ⟨inner, hinner, hd⟩ := ih rfl (ofList :: around)
      refine ⟨inner ++ [ofList], by simpa [step] using hinner, ?_⟩
      rw [hd, List.count_append]
      cases ofList <;> simp; omega

/-- A counter is that of the ordered lists around, those that are open at its place included. -/
theorem eq_of_sets (h : AreNested depth ms) (hms : ms = before ++ .sets d value :: after) :
    d = depth + (openAfter before).count true := by
  obtain ⟨inner, hinner, hd⟩ := h.exists_foldl_step hms []
  rwa [openAfter, hinner, List.append_nil]

end AreNested

end EnumMark

/-! ## Texts -/

open EnumMark

section

variable {depth : Nat} {ms ns : List EnumMark}

/-- Marks in an environment, which can be an enumeration. -/
def enclosed (environment : String) (ofList : Bool) (ms : List EnumMark) : List EnumMark :=
  if environment = "enumerate" then .opens ofList :: (ms ++ [.closes]) else ms

theorem carries_enclosed {cs : List Char} (h : Carries (texts ms) cs) (environment : String)
    (ofList : Bool) :
    Carries (texts (enclosed environment ofList ms))
      ((opening environment).toList ++ (cs ++ (closing environment).toList)) := by
  unfold enclosed
  split
  · next heq =>
    subst heq
    rw [texts, List.map_cons, List.map_append]
    exact (carries_word (.opens ofList)).append (h.append (carries_word .closes))
  · exact (h.append_right _).append_left _

theorem carriesAll_enclosed {ts : List String} (h : CarriesAll (texts ms) ts)
    (environment placement : String) (ofList : Bool) :
    CarriesAll (texts (enclosed environment ofList ms))
      ([opening environment ++ placement] ++ (ts ++ [closing environment])) := by
  unfold enclosed
  split
  · next heq =>
    subst heq
    rw [texts, List.map_cons, List.map_append]
    have hfirst : Carries [(EnumMark.opens ofList).word]
        (opening "enumerate" ++ placement).toList := by
      rw [String.toList_append]
      exact (carries_word (.opens ofList)).append_right _
    exact (CarriesAll.single hfirst).append (h.append (.single (carries_word .closes)))
  · exact (h.append_right _).append_left _

theorem areNested_enclosed {environment : String} {ofList : Bool}
    (h : EnumMark.AreNested (depth + (ofList && decide (environment = "enumerate")).toNat) ms) :
    EnumMark.AreNested depth (enclosed environment ofList ms) := by
  unfold enclosed
  split
  · next heq => exact .enclosed ofList (by simpa [heq] using h)
  · next hne => simpa [hne] using h

/-- The marks of a section. -/
def sectionMarks (config : Config) (h : Heading) (title contents : List EnumMark) : List EnumMark :=
  if isDeep config h then
    enclosed (if config.sectionNumbers && !h.unnumbered then "enumerate" else "itemize") false
      (title ++ contents)
  else (if printsTitle config h then title else []) ++ contents

theorem carries_sectionMarks {config : Config} {h : Heading} {title label contents t : String}
    (htitle : Carries (texts ms) title.toList) (hcontents : Carries (texts ns) contents.toList)
    (ht : sectionText config h title label contents = .ok t) :
    Carries (texts (sectionMarks config h ms ns)) t.toList := by
  unfold sectionMarks
  split
  · next hdeep =>
    rw [sectionText, if_pos hdeep] at ht
    obtain rfl := Except.ok.inj ht
    have hinside : Carries (texts (ms ++ ns)) ("\n\\item ".toList ++ title.toList ++
        (labelCommand label).toList ++ "\n".toList ++ contents.toList) := by
      rw [texts, List.map_append]
      exact (((htitle.append_left _).append_right _).append_right _).append hcontents
    have htext := (carries_enclosed hinside (if config.sectionNumbers && !h.unnumbered then
      "enumerate" else "itemize") false).append_right "\n".toList
    simpa only [sectionItem, String.toList_append, List.append_assoc] using htext
  · have htext := carries_sectionText htitle hcontents ht
    split <;> simp_all

theorem areNested_sectionMarks (config : Config) (h : Heading)
    (htitle : EnumMark.AreNested depth ms) (hcontents : EnumMark.AreNested depth ns) :
    EnumMark.AreNested depth (sectionMarks config h ms ns) := by
  unfold sectionMarks
  split
  · exact areNested_enclosed (htitle.append hcontents)
  · refine EnumMark.AreNested.append ?_ hcontents
    split
    · exact htitle
    · exact .nil depth

/-- The marks of a list. -/
def listMarks (kind : ListKind) (attributes : Attributes) (contents : List EnumMark) :
    List EnumMark :=
  match listEnvironment kind with
  | .ok default =>
    enclosed ((attributes.shown? "environment").getD default) (kind = .ordered) contents
  | .error _ => contents

theorem carries_listMarks {kind : ListKind} {attributes : Attributes} {contents t : String}
    (h : Carries (texts ms) contents.toList) (ht : listText kind attributes contents = .ok t) :
    Carries (texts (listMarks kind attributes ms)) t.toList := by
  unfold listText at ht
  unfold listMarks
  cases he : listEnvironment kind with
  | error e =>
    rw [he] at ht
    cases ht
  | ok environment =>
    rw [he] at ht
    obtain rfl := Except.ok.inj ht
    have hinside : Carries (texts ms) (((attributes.shown? "options").getD "").toList ++
        "\n".toList ++ contents.toList) := h.append_left _
    have htext := (carries_enclosed hinside ((attributes.shown? "environment").getD environment)
      (kind = .ordered)).append_right "\n".toList
    simpa only [String.toList_append, List.append_assoc] using htext

/-- A list in its own environment is in one more ordered list if it is ordered. -/
theorem areNested_listMarks {kind : ListKind} {attributes : Attributes}
    (hattributes : attributes.shown? "environment" = none)
    (h : EnumMark.AreNested (depth + (decide (kind = .ordered)).toNat) ms) :
    EnumMark.AreNested depth (listMarks kind attributes ms) := by
  unfold listMarks
  rw [hattributes]
  cases kind with
  | undeclared => exact h
  | ordered | unordered | descriptive => exact areNested_enclosed h

/-- The marks of an item. -/
def itemMarks (counter : Option Int) (depth : Option Nat) (tag contents : List EnumMark) :
    List EnumMark :=
  let number : List EnumMark :=
    match counter, depth with
    | some n, some d => [.sets d (n - 1)]
    | _, _ => []
  number ++ (tag ++ contents)

theorem carries_itemMarks {checkbox : Option Checkbox} {counter : Option Int} {depth : Option Nat}
    {tag contents : String} (htag : Carries (texts ms) tag.toList)
    (hcontents : Carries (texts ns) contents.toList) :
    Carries (texts (itemMarks counter depth ms ns))
      (itemText checkbox counter depth tag contents).toList := by
  have hplain : ∀ counter depth, Carries (texts (ms ++ ns))
      (itemText checkbox counter depth tag contents).toList := by
    intro counter depth
    rw [texts, List.map_append]
    exact carries_itemText (areCompact_texts ns) htag hcontents checkbox counter depth
  unfold itemMarks
  rcases counter with _ | n
  · exact hplain none depth
  · rcases depth with _ | d
    · exact hplain (some n) none
    · have htext : itemText checkbox (some n) (some d) tag contents =
          (EnumMark.sets d (n - 1)).word ++ ("\n" ++ itemText checkbox none none tag contents) := by
        simp only [itemText, counterLine, EnumMark.word, String.append_assoc, String.empty_append]
      rw [htext, String.toList_append, String.toList_append, texts, List.map_append]
      exact (carries_word _).append ((hplain none none).append_left _)

theorem areNested_itemMarks (counter : Option Int) {around : Option Nat}
    (haround : ∀ d, around = some d → d = depth) (htag : EnumMark.AreNested depth ms)
    (hcontents : EnumMark.AreNested depth ns) :
    EnumMark.AreNested depth (itemMarks counter around ms ns) := by
  refine EnumMark.AreNested.append ?_ (htag.append hcontents)
  split
  · next n d => exact haround d rfl ▸ .sets d (n - 1)
  · exact .nil depth

/-- The marks of a special block. -/
def specialMarks (config : Config) (type : String) (contents : List EnumMark) : List EnumMark :=
  enclosed ((config.environments.lookup (lower type)).getD type) false contents

theorem carries_specialMarks {contents : String} (h : Carries (texts ms) contents.toList)
    (config : Config) (type : String) (attributes : Attributes) (label : Option String) :
    Carries (texts (specialMarks config type ms))
      (specialText config type attributes label contents).toList := by
  unfold specialMarks specialText
  have hinside : Carries (texts ms) (((attributes.shown? "options").getD "").toList ++
      "\n".toList ++ (String.join ((labelLine label).map (· ++ "\n"))).toList ++ contents.toList) :=
    h.append_left _
  have htext := (carries_enclosed hinside ((config.environments.lookup (lower type)).getD type)
    false).append_right "\n".toList
  simpa only [String.toList_append, List.append_assoc] using htext

/-- The marks of a table on one page. -/
def tableMarks (config : Config) (table : Node) (caption contents : List EnumMark) :
    List EnumMark :=
  let tabular := enclosed (tableEnvironment config table) false contents
  let ms := if config.tableCaptionAbove then caption ++ tabular else tabular ++ caption
  let float := floatOf config table
  if float.isEmpty || float == "nil" then ms else enclosed (tableFloat float) false ms

theorem carries_tableMarks {config : Config} {g : Geometry} {table : Node}
    {contents caption : String} {label : Option String}
    (hcaption : ∀ float, Carries (texts ms) (captionText float caption label).toList)
    (hcontents : Carries (texts ns) contents.toList) :
    Carries (texts (tableMarks config table ms ns))
      (tableText config g table contents caption label).toList := by
  have htabular : CarriesAll (texts (enclosed (tableEnvironment config table) false ns))
      [tableOpening config g table ++ "\n" ++ contents ++
        closing (tableEnvironment config table)] := by
    have hinside : Carries (texts ns)
        ((if widthEnvironments.contains (tableEnvironment config table) then
          braced ((table.attributes.shown? "width").getD "\\linewidth") else "").toList ++
            (braced (Table.columnSpec g table).plain).toList ++ "\n".toList ++ contents.toList) :=
      hcontents.append_left _
    have htext := carries_enclosed hinside (tableEnvironment config table) false
    refine .single ?_
    simpa only [tableOpening, String.toList_append, List.append_assoc] using htext
  have hboth : ∀ float, CarriesAll (texts (if config.tableCaptionAbove then
      ms ++ enclosed (tableEnvironment config table) false ns
      else enclosed (tableEnvironment config table) false ns ++ ms))
      (arranged config.tableCaptionAbove (lineOf (captionText float caption label))
        [tableOpening config g table ++ "\n" ++ contents ++
          closing (tableEnvironment config table)]) := by
    intro float
    have hline := carriesAll_lineOf (hcaption float)
    unfold arranged
    split
    · rw [texts, List.map_append]
      exact hline.append htabular
    · rw [texts, List.map_append]
      exact htabular.append hline
  unfold tableText tableMarks
  dsimp only
  split
  · rw [fixedTable, String.toList_append]
    exact (hboth _).unlines.append_right _
  · have hlines := carriesAll_enclosed
      ((hboth none).append_left (if config.tableCentered then ["\\centering"] else []))
      (tableFloat (floatOf config table))
      ((table.attributes.shown? "placement").getD config.tablePlacement) false
    simp only [← List.append_assoc] at hlines
    rw [floatingTable, String.toList_append]
    exact hlines.unlines.append_right _

theorem areNested_tableMarks (config : Config) (table : Node)
    (hcaption : EnumMark.AreNested depth ms) (hcontents : EnumMark.AreNested depth ns) :
    EnumMark.AreNested depth (tableMarks config table ms ns) := by
  have htabular : EnumMark.AreNested depth (enclosed (tableEnvironment config table) false ns) :=
    areNested_enclosed hcontents
  have hboth : EnumMark.AreNested depth (if config.tableCaptionAbove then
      ms ++ enclosed (tableEnvironment config table) false ns
      else enclosed (tableEnvironment config table) false ns ++ ms) := by
    split
    · exact hcaption.append htabular
    · exact htabular.append hcaption
  unfold tableMarks
  dsimp only
  split
  · exact hboth
  · exact areNested_enclosed hboth

end

end Typeset.Latex

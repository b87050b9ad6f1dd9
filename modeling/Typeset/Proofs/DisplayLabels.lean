import Typeset.Document
import Typeset.Proofs.Render.Outputs
import Typeset.Proofs.Text.Marks

/-!
# Labels of displays

An environment copied from the source gets its label behind its first line. Where the source of a
numbered display has more than one line, this is inside of the environment, so that the label stands
for the number of the display. A display on one line has its label behind its end.
-/

namespace Typeset

open Action Context Latex Render Text Unicode

/-! ## Names of environments -/

namespace Unicode

/-- No character outside ASCII becomes one inside, but for the Kelvin sign. -/
theorem lowerShifts_beyond : ∀ s ∈ lowerShifts, s = ⟨0x212A, 0x212A, 1, -8383⟩ ∨
    0x80 ≤ s.first + s.distance ∧ (s.last + s.distance < 0xD800 ∨
      0xDFFF < s.first + s.distance ∧ s.last + s.distance < 0x110000) := by
  decide +kernel

/-- In lower case, what is not ASCII has a character that is not, or is a `k`. -/
theorem exists_mem_lowerOf {c : Char} (hc : ¬ c.toNat < 0x80) :
    ∃ d ∈ lowerOf c, ¬ d.toNat < 0x80 ∨ d = 'k' := by
  rw [lowerOf, if_neg hc, mapCase]
  cases hexpand : lowerExpansions.lookup c.toNat with
  | some codes =>
    obtain ⟨-, rfl⟩ : c.toNat = 0x130 ∧ codes = [0x69, 0x307] := by
      rw [lowerExpansions, List.lookup_cons] at hexpand
      split at hexpand
      · next h => exact ⟨eq_of_beq h, (Option.some.inj hexpand).symm⟩
      · cases hexpand
    exact ⟨Char.ofNat 0x307, by simp, .inl (by decide)⟩
  | none =>
    cases hshift : lowerShifts.find? fun s ↦ s.covers c.toNat with
    | none => exact ⟨c, List.mem_singleton.mpr rfl, .inl hc⟩
    | some s =>
      refine ⟨_, List.mem_singleton.mpr rfl, ?_⟩
      have hcovers := List.find?_some hshift
      simp only [Shift.covers, Bool.and_eq_true, decide_eq_true_eq] at hcovers
      rcases lowerShifts_beyond s (List.mem_of_find?_eq_some hshift) with rfl | hbeyond
      · right
        rw [show c.toNat = 0x212A by have := hcovers.1; simp only at this; omega]
        rfl
      · left
        have hvalid : (Int.toNat (c.toNat + s.distance)).isValidChar := by
          rw [Nat.isValidChar]
          omega
        have hcode : (Char.ofNat (Int.toNat (c.toNat + s.distance))).toNat =
            Int.toNat (c.toNat + s.distance) := by
          rw [Char.ofNat, dif_pos hvalid]
          rfl
        omega

theorem forall_ascii {P : Char → Prop} (h : ∀ n : Fin 128, P (Char.ofNat n)) {c : Char}
    (hc : c.toNat < 0x80) : P c := by
  have hp := h ⟨c.toNat, hc⟩
  rwa [Char.ofNat_toNat] at hp

end Unicode

namespace Text

/-- A text whose lower-case form is ASCII and has no `k` is ASCII itself, and is mapped character by
character. -/
theorem map_toLower_of_lowerAfter (before cs : List Char)
    (h : ∀ d ∈ lowerAfter before cs, d.toNat < 0x80 ∧ d ≠ 'k') :
    (∀ c ∈ cs, c.toNat < 0x80) ∧ lowerAfter before cs = cs.map Char.toLower := by
  induction cs generalizing before with
  | nil => exact ⟨fun c hc ↦ absurd hc List.not_mem_nil, rfl⟩
  | cons c cs ih =>
    rw [lowerAfter] at h
    obtain ⟨hascii, hmap⟩ := ih _ fun d hd ↦ h d (List.mem_append_right _ hd)
    have hfirst := fun d hd ↦ h d (List.mem_append_left _ hd)
    have hsigma : c ≠ 'Σ' := by
      rintro rfl
      rw [if_pos rfl] at hfirst
      have hmark := (hfirst _ (List.mem_singleton.mpr rfl)).1
      split at hmark <;> exact absurd hmark (by decide)
    rw [if_neg hsigma] at hfirst
    have hc : c.toNat < 0x80 := by
      by_contra hc
      obtain ⟨d, hd, hd'⟩ := exists_mem_lowerOf hc
      obtain ⟨hlt, hk⟩ := hfirst d hd
      exact hd'.elim (fun hge ↦ hge hlt) hk
    refine ⟨fun d hd ↦ ?_, ?_⟩
    · rcases List.mem_cons.mp hd with rfl | hd
      · exact hc
      · exact hascii d hd
    · rw [lowerAfter, if_neg hsigma, lowerOf, if_pos hc, hmap]
      rfl

end Text

namespace Latex

theorem displayEnvironments_plain : ∀ name ∈ displayEnvironments, ∀ c ∈ name.toList,
    c.isAlpha = true ∧ c.toNat < 0x80 ∧ c ≠ 'k' := by
  have hall : (displayEnvironments.all fun name ↦ name.toList.all fun c ↦
      decide (c.isAlpha = true ∧ c.toNat < 0x80 ∧ c ≠ 'k')) = true := by decide
  intro name hname c hc
  exact of_decide_eq_true (List.all_eq_true.mp (List.all_eq_true.mp hall name hname) c hc)

/-- A star at the end of a lower-case form is a star at the end of the name, if what stands before it
is plain. -/
theorem endsWith_star_of_lower {name : String} (hends : endsWith (lower name) "*" = true)
    (hplain : ∀ d ∈ (dropEnding (lower name) "*").toList, d.toNat < 0x80 ∧ d ≠ 'k') :
    endsWith name "*" = true := by
  have hlower : (lower name).toList = lowerAfter [] name.toList := String.toList_ofList
  obtain ⟨ds, hds⟩ := List.isSuffixOf_iff_suffix.mp hends
  have hdropped : (dropEnding (lower name) "*").toList = ds := by
    rw [show dropEnding (lower name) "*" = _ from if_pos hends, String.toList_ofList, ← hds,
      List.length_append, Nat.add_sub_cancel, List.take_left]
  rw [hdropped] at hplain
  have hlowered : ∀ d ∈ lowerAfter [] name.toList, d.toNat < 0x80 ∧ d ≠ 'k' := by
    rw [← hlower, ← hds]
    intro d hd
    rcases List.mem_append.mp hd with hd | hd
    · exact hplain d hd
    · rw [List.mem_singleton.mp hd]
      decide
  obtain ⟨hascii, hmap⟩ := map_toLower_of_lowerAfter [] name.toList hlowered
  rw [← hlower, ← hds] at hmap
  obtain ⟨es, fs, hname, -, hfs⟩ := List.map_eq_append_iff.mp hmap.symm
  obtain ⟨e, rfl, he⟩ := List.map_eq_singleton_iff.mp hfs
  have he : e = '*' := forall_ascii (P := fun c ↦ c.toLower = '*' → c = '*') (by decide)
    (hascii e (by rw [hname]; simp)) he
  rw [endsWith, hname, he]
  exact List.isSuffixOf_iff_suffix.mpr (List.suffix_append es ['*'])

/-- Numbered displays have names of letters. -/
theorem isLetter_of_isNumberedMath {name : String} (h : isNumberedMath (some name) = true) :
    name.toList ≠ [] ∧ ∀ c ∈ name.toList, isLetter c = true := by
  simp only [isNumberedMath, Bool.and_eq_true, Bool.not_eq_true'] at h
  obtain ⟨⟨hmath, hstar⟩, -⟩ := h
  have hne : name.toList ≠ [] := by
    intro hnil
    obtain rfl := String.toList_eq_nil_iff.mp hnil
    cases hmath
  have hmath : dropEnding (lower name) "*" ∈ displayEnvironments := by
    unfold isMathEnvironment at hmath
    split at hmath
    · cases hmath
    · cases hmath
    · next heq =>
      obtain rfl := Option.some.inj heq
      exact List.contains_iff_mem.mp hmath
  have hplain := displayEnvironments_plain _ hmath
  have hends : endsWith (lower name) "*" = false := by
    refine Bool.eq_false_iff.mpr fun hends ↦ ?_
    rw [endsWith_star_of_lower hends fun d hd ↦ (hplain d hd).2] at hstar
    cases hstar
  have hlower : (lower name).toList = lowerAfter [] name.toList := String.toList_ofList
  rw [show dropEnding (lower name) "*" = _ from if_neg (Bool.eq_false_iff.mp hends), hlower]
    at hplain
  obtain ⟨hascii, hmap⟩ := map_toLower_of_lowerAfter [] name.toList fun d hd ↦ (hplain d hd).2
  refine ⟨hne, fun c hc ↦ ?_⟩
  refine forall_ascii (P := fun c ↦ c.toLower.isAlpha = true → c.isAlpha = true) (by decide)
    (hascii c hc) (hplain _ ?_).1
  rw [hmap]
  exact List.mem_map_of_mem hc

theorem toList_opening (name : String) :
    (opening name).toList = "\\begin\x7b".toList ++ (name.toList ++ ['}']) := by
  simp only [opening, command, braced, String.toList_append, List.append_assoc]
  rfl

/-- The first environment that a text opens is the one that it begins with. -/
theorem environmentName?_opening {name : String} (hne : name.toList ≠ [])
    (hletters : ∀ c ∈ name.toList, isLetter c = true) (rest : String) :
    environmentName? (opening name ++ rest) = some name := by
  have hopened : openedAt? ("\\begin\x7b".toList ++ (name.toList ++ '}' :: rest.toList)) =
      some name.toList := by
    have hprefix : "\\begin\x7b".toList.isPrefixOf
        ("\\begin\x7b".toList ++ (name.toList ++ '}' :: rest.toList)) = true :=
      List.isPrefixOf_iff_prefix.mpr (List.prefix_append _ _)
    have hdrop : ("\\begin\x7b".toList ++ (name.toList ++ '}' :: rest.toList)).drop 7 =
        name.toList ++ '}' :: rest.toList := rfl
    have htake : (name.toList ++ '}' :: rest.toList).takeWhile isLetter = name.toList := by
      rw [List.takeWhile_append_of_pos hletters, List.takeWhile_cons_of_neg (by decide),
        List.append_nil]
    have hrest : (name.toList ++ '}' :: rest.toList).dropWhile isLetter = '}' :: rest.toList := by
      rw [List.dropWhile_append_of_pos hletters, List.dropWhile_cons_of_neg (by decide)]
    rw [openedAt?, if_pos hprefix, hdrop]
    simp only [htake, hrest]
  have hcs : (opening name ++ rest).toList =
      '\\' :: ("begin\x7b".toList ++ (name.toList ++ '}' :: rest.toList)) := by
    rw [String.toList_append, toList_opening]
    simp
  have hfirst : firstOpened? (opening name ++ rest).toList = some name.toList := by
    rw [hcs, firstOpened?, ← List.cons_append]
    simp only [show '\\' :: "begin\x7b".toList = "\\begin\x7b".toList from rfl, hopened]
  rw [environmentName?, hfirst, Option.map_some, String.ofList_toList]

/-! ## Where the label stands -/

theorem cut?_singleton {c : Char} {front : List Char} (h : c ∉ front) (back : List Char) :
    cut? [c] (front ++ c :: back) = some (front, back) := by
  induction front with
  | nil => simp [cut?]
  | cons d front ih =>
    rw [List.mem_cons, not_or] at h
    have hprefix : [c].isPrefixOf (d :: (front ++ c :: back)) = false := by
      simp [List.isPrefixOf, h.1]
    rw [List.cons_append, cut?, hprefix, if_neg Bool.false_ne_true, ih h.2]
    rfl

section

variable {source name label : String}

/-- A numbered display with a label that is not empty is printed with the label behind its first
line. -/
theorem displayText_of_isNumberedMath {inside : String}
    (hsource : dropFinalNewlines source = opening name ++ inside ++ closing name)
    (hname : isNumberedMath (some name) = true) (hlabel : label ≠ "") :
    displayText source (some label) =
      match cut? ['\n'] (dropFinalNewlines source).toList with
      | some (first, rest) =>
        .ofList first ++ "\n" ++ labelCommand label ++ "\n" ++ .ofList rest ++ "\n"
      | none => dropFinalNewlines source ++ "\n" ++ labelCommand label ++ "\n" := by
  obtain ⟨hne, hletters⟩ := isLetter_of_isNumberedMath hname
  have henvironment : environmentName? (dropFinalNewlines source) = some name := by
    rw [hsource, String.append_assoc, environmentName?_opening hne hletters]
  unfold displayText
  split
  · next h => cases h
  · next h => exact absurd (Option.some.inj h) hlabel
  · next h =>
    obtain rfl := Option.some.inj h
    simp only [henvironment, hname]
    rfl

theorem notMem_opening (hname : isNumberedMath (some name) = true) :
    '\n' ∉ (opening name).toList := by
  obtain ⟨-, hletters⟩ := isLetter_of_isNumberedMath hname
  have hnot : '\n' ∉ name.toList := fun h ↦ absurd (hletters _ h) (by decide)
  rw [toList_opening]
  simp [hnot]

theorem notMem_closing (hname : isNumberedMath (some name) = true) :
    '\n' ∉ (closing name).toList := by
  obtain ⟨-, hletters⟩ := isLetter_of_isNumberedMath hname
  have hnot : '\n' ∉ name.toList := fun h ↦ absurd (hletters _ h) (by decide)
  simp [closing, command, braced, hnot]

/-- The label stands behind the first line feed of a display. -/
theorem displayText_of_break {front back : String}
    (hsource : dropFinalNewlines source = opening name ++ (front ++ "\n" ++ back) ++ closing name)
    (hname : isNumberedMath (some name) = true) (hlabel : label ≠ "")
    (hfront : '\n' ∉ front.toList) :
    displayText source (some label) = opening name ++ front ++ "\n" ++ labelCommand label ++ "\n" ++
      back ++ closing name ++ "\n" := by
  have hfirst : '\n' ∉ (opening name ++ front).toList := by
    rw [String.toList_append, List.mem_append, not_or]
    exact ⟨notMem_opening hname, hfront⟩
  have hcut : cut? ['\n'] (dropFinalNewlines source).toList =
      some ((opening name ++ front).toList, (back ++ closing name).toList) := by
    rw [← cut?_singleton hfirst, hsource]
    simp [List.append_assoc]
  rw [displayText_of_isNumberedMath hsource hname hlabel, hcut]
  simp only [String.ofList_toList, String.append_assoc]

/-- The label of a display on one line stands behind its end. -/
theorem displayText_of_line {inside : String}
    (hsource : dropFinalNewlines source = opening name ++ inside ++ closing name)
    (hname : isNumberedMath (some name) = true) (hlabel : label ≠ "")
    (hinside : '\n' ∉ inside.toList) :
    displayText source (some label) =
      opening name ++ inside ++ closing name ++ "\n" ++ labelCommand label ++ "\n" := by
  have hcut : cut? ['\n'] (dropFinalNewlines source).toList = none := by
    refine cut?_eq_none fun hin ↦ ?_
    have hmem : '\n' ∈ (dropFinalNewlines source).toList := hin.subset List.mem_cons_self
    simp only [hsource, String.toList_append, List.mem_append] at hmem
    rcases hmem with (hmem | hmem) | hmem
    · exact notMem_opening hname hmem
    · exact hinside hmem
    · exact notMem_closing hname hmem
  rw [displayText_of_isNumberedMath hsource hname hlabel, hcut, hsource]

end

end Latex

/-! ## Displays that are printed -/

/-- An environment copied from the source is printed as it is, with the label that it has. -/
theorem Render.occurrence_latexEnvironment {config : Config} {o : Occurrence} {source : String}
    {label : Option String} {c d : Context} (ho : o.node.isWellTyped = true)
    (hsource : o.node.element = .latexEnvironment source)
    (hlabel : Context.label? o c = (.ok label, d)) :
    Render.occurrence config o c = (.ok (some (displayText source label)), d) := by
  have hkind : o.node.kind = .latexEnvironment := congrArg Element.kind hsource
  have hbare : ∀ b, b ≠ .caption → o.node.branch b = [] := by
    intro b hb
    refine List.eq_nil_iff_forall_not_mem.mpr fun m hm ↦ ?_
    have hadmits := (Node.isWellTyped_of_mem_branch ho hm).1
    rw [hkind] at hadmits
    cases b <;> first | exact hb rfl | cases hadmits
  have hcaption : printsCaption o.node = false := by simp [printsCaption, Node.isFigure, hkind]
  have hslot : reserveSlot o = pure () := by rw [reserveSlot, Node.zone, hsource, if_pos rfl]
  have htitle : o.node.title = [] := hbare .title (by decide)
  have htag : o.node.tag.getD [] = [] := hbare .tag (by decide)
  have hchildren : o.node.children = [] := hbare .children (by decide)
  rw [Render.occurrence, bind_of_ok (x := ask _) rfl, node_eq (Node.isProper_of_isWellTyped ho),
    hslot, secondaryParts]
  simp only [htitle, htag, hcaption, hchildren, all, Bool.false_eq_true, if_false, pure_bind]
  rw [bind_of_ok (x := within o (pure [])) rfl, transcribeElement, hsource]
  exact bind_of_ok hlabel

/-- The text is an environment with a label between its opening and its end, maybe on a line of its
own, and otherwise with nothing but what it has inside. -/
def Latex.HoldsLabel (name inside label text : String) : Prop :=
  ∃ front back, inside = front ++ back ∧ ∃ m n : Nat, text = opening name ++ front ++ newlines m ++
    labelCommand label ++ newlines n ++ back ++ closing name ++ "\n"

/-- In every context in which it has a label that is not empty, a numbered display prints. If it has
more than one line, its label stands between its opening and its end and it is not changed
otherwise. A display on one line has its label behind its end. -/
theorem displays_on_lines_hold_labels (config : Config) (o : Occurrence)
    (ho : o.node.isWellTyped = true) (source name inside : String)
    (helement : o.node.element = .latexEnvironment source)
    (hsource : dropFinalNewlines source = opening name ++ inside ++ closing name)
    (hname : isNumberedMath (some name) = true) (c d : Context) (label : String)
    (hlabel : Context.label? o c = (.ok (some label), d)) (hne : label ≠ "") :
    ∃ text, Render.occurrence config o c = (.ok (some text), d) ∧
      ('\n' ∈ inside.toList → HoldsLabel name inside label text) ∧
      ('\n' ∉ inside.toList →
        text = opening name ++ inside ++ closing name ++ "\n" ++ labelCommand label ++ "\n") := by
  refine ⟨_, occurrence_latexEnvironment ho helement hlabel, fun hbreak ↦ ?_,
    displayText_of_line hsource hname hne⟩
  obtain ⟨front, back, hinside, hfront⟩ := List.eq_append_cons_of_mem hbreak
  obtain rfl : inside = String.ofList front ++ "\n" ++ String.ofList back := by
    simp [← String.toList_inj, hinside]
  rw [displayText_of_break hsource hname hne (by rwa [String.toList_ofList])]
  refine ⟨.ofList front ++ "\n", .ofList back, rfl, 0, 1, ?_⟩
  simp [newlines, String.append_assoc]

/-- A document with an equation that has a name. -/
def namedEquation (inside : String) : Node :=
  ⟨⟨.unknown, 0, none, [], .document [], []⟩, [(display inside).node], [], none, none⟩
where
  source (inside : String) : String :=
    "\\begin\x7bequation\x7d" ++ inside ++ "\\end\x7bequation\x7d\n"
  display (inside : String) : Occurrence :=
    ⟨(Place.ofRoot 0).down .children 0,
      ⟨⟨.unknown, 0, some "e", [], .latexEnvironment (source inside), []⟩, [], [], none, none⟩⟩
  printedLine : String := "\\begin\x7bequation\x7dx=1\\end\x7bequation\x7d\n\\label\x7beq:e\x7d\n"

theorem equation_on_lines_holds_label :
    (namedEquation.display "\nx=1").node.isWellTyped = true ∧
      dropFinalNewlines (namedEquation.source "\nx=1") =
        opening "equation" ++ "\nx=1" ++ closing "equation" ∧
      isNumberedMath (some "equation") = true ∧
      Context.label? (namedEquation.display "\nx=1") .empty = (.ok (some "eq:e"), .empty) ∧
      ∃ text, Render.occurrence .default (namedEquation.display "\nx=1") .empty =
          (.ok (some text), .empty) ∧ HoldsLabel "equation" "\nx=1" "eq:e" text := by
  have htyped : (namedEquation.display "\nx=1").node.isWellTyped = true := by decide
  have hsource : dropFinalNewlines (namedEquation.source "\nx=1") =
      opening "equation" ++ "\nx=1" ++ closing "equation" := by rfl
  have hname : isNumberedMath (some "equation") = true := by decide
  have hlabel : Context.label? (namedEquation.display "\nx=1") .empty =
      (.ok (some "eq:e"), .empty) := by rfl
  obtain ⟨text, hrun, hholds, -⟩ :=
    displays_on_lines_hold_labels .default _ htyped _ _ _ rfl hsource hname _ _ _ hlabel (by decide)
  exact ⟨htyped, hsource, hname, hlabel, text, hrun, hholds (by decide)⟩

/-- A display on one line has its label behind its end, where it stands for another number. -/
theorem equation_on_one_line_holds_no_label :
    (namedEquation "x=1").isWellTyped = true ∧
      namedEquation.source "x=1" = opening "equation" ++ "x=1" ++ closing "equation" ++ "\n" ∧
      typeset .default (namedEquation "x=1") = .ok ⟨namedEquation.printedLine, []⟩ ∧
      ¬ HoldsLabel "equation" "x=1" "eq:e" namedEquation.printedLine := by
  refine ⟨by decide, by rfl, by rfl, ?_⟩
  rintro ⟨front, back, -, m, n, htext⟩
  have hend : (closing "equation" ++ "\n").toList <:+ namedEquation.printedLine.toList := by
    rw [htext, String.append_assoc]
    simp only [String.toList_append]
    exact List.suffix_append _ _
  exact absurd hend (by decide)

end Typeset

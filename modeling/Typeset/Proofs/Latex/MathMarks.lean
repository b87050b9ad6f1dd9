import Typeset.Latex.Math
import Typeset.Proofs.EscapeTokens

/-!
# Delimiters of formulas in a text

Formulas within a line stand between `\(` and `\)`. Two texts in a row have the delimiters of the
one and those of the other, unless the first one ends in a backslash; so what is put together from
texts that are free of delimiters and end in none is free of them.
-/

namespace Typeset.Latex

/-- A delimiter of a formula within a line. -/
inductive MathMark where
  | opening
  | closing
deriving DecidableEq, Repr

/-- The delimiter that stands at the front of a text. -/
def markAt? : List Char → Option MathMark
  | '\\' :: '(' :: _ => some .opening
  | '\\' :: ')' :: _ => some .closing
  | _ => none

/-- The delimiters of formulas within a text, in their order. -/
def mathMarks : List Char → List MathMark
  | [] => []
  | c :: cs => (markAt? (c :: cs)).toList ++ mathMarks cs

/-- The text has no delimiter of a formula within a line, nor does one begin at its end. -/
structure IsMarkFree (cs : List Char) : Prop where
  marks : mathMarks cs = []
  ending : cs.getLast? ≠ some '\\'

/-- Neither `\(` nor `\)` stands in the text, and it does not end in a backslash. -/
structure IsSelfContained (cs : List Char) : Prop where
  signs : ∀ c ∈ ['(', ')'], ¬ ['\\', c] <:+: cs
  ending : cs.getLast? ≠ some '\\'

/-- No delimiter of a formula stands in the text, of whatever kind. -/
structure IsBare (cs : List Char) : Prop where
  dollar : '$' ∉ cs
  signs : ∀ c ∈ ['(', ')', '[', ']'], ¬ ['\\', c] <:+: cs

/-- The text is a formula with its delimiters. What stands between them does not end in a backslash
and has no delimiter of its own. -/
def IsFormula (value : String) : Prop :=
  ∃ cs, IsBare cs ∧ cs.getLast? ≠ some '\\' ∧
    ∃ d ∈ mathDelimiters, value.toList = d.1 ++ cs ++ d.2

variable {c : Char} {cs as bs : List Char}

/-! ## Where delimiters stand -/

theorem markAt?_of_ne (h : c ≠ '\\') (cs : List Char) : markAt? (c :: cs) = none := by
  unfold markAt?
  split
  · next heq => exact absurd (List.cons.inj heq).1 h
  · next heq => exact absurd (List.cons.inj heq).1 h
  · rfl

/-- Two characters tell whether a delimiter stands at the front. -/
theorem markAt?_congr (c d : Char) (as bs : List Char) :
    markAt? (c :: d :: as) = markAt? (c :: d :: bs) := by
  unfold markAt?
  split <;> simp_all

theorem mathMarks_of_notMem (h : '\\' ∉ cs) : mathMarks cs = [] := by
  induction cs with
  | nil => rfl
  | cons c cs ih =>
    obtain ⟨hc, hcs⟩ := List.ne_and_not_mem_of_not_mem_cons h
    rw [mathMarks, markAt?_of_ne hc.symm, ih hcs]
    rfl

theorem mathMarks_append (h : as.getLast? ≠ some '\\') (bs : List Char) :
    mathMarks (as ++ bs) = mathMarks as ++ mathMarks bs := by
  induction as with
  | nil => rfl
  | cons c as ih =>
    cases as with
    | nil =>
      have hc : c ≠ '\\' := fun heq ↦ h (by rw [heq]; rfl)
      simp [mathMarks, markAt?_of_ne hc]
    | cons d as =>
      have hrest := ih (by rwa [List.getLast?_cons_cons] at h)
      rw [List.cons_append, mathMarks, hrest, mathMarks.eq_2 c (d :: as), List.append_assoc,
        List.cons_append, markAt?_congr c d (as ++ bs) as]

/-- Signs at the end that belong to no delimiter make no difference. -/
theorem mathMarks_append_of_forall (h : ∀ c ∈ bs, c ∉ ['\\', '(', ')']) (as : List Char) :
    mathMarks (as ++ bs) = mathMarks as := by
  have hbs : mathMarks bs = [] := mathMarks_of_notMem fun hmem ↦ h _ hmem (by decide)
  induction as with
  | nil => exact hbs
  | cons c as ih =>
    have hfront : markAt? (c :: (as ++ bs)) = markAt? (c :: as) := by
      cases as with
      | cons d as => exact markAt?_congr c d _ _
      | nil =>
        cases bs with
        | nil => rfl
        | cons b bs =>
          have hb := h b List.mem_cons_self
          unfold markAt?
          split <;> simp_all
    rw [List.cons_append, mathMarks, mathMarks, hfront, ih]

theorem mathMarks_eq_nil (h : ∀ c ∈ ['(', ')'], ¬ ['\\', c] <:+: cs) : mathMarks cs = [] := by
  induction cs with
  | nil => rfl
  | cons c cs ih =>
    have hfront : markAt? (c :: cs) = none := by
      unfold markAt?
      split
      · next rest heq => exact absurd ⟨[], rest, by rw [heq]; rfl⟩ (h '(' (by decide))
      · next rest heq => exact absurd ⟨[], rest, by rw [heq]; rfl⟩ (h ')' (by decide))
      · rfl
    rw [mathMarks, hfront, ih fun d hd hin ↦ h d hd (hin.trans (List.suffix_cons c cs).isInfix)]
    rfl

theorem getLast?_append_ne (h : as.getLast? ≠ some c) (h' : bs.getLast? ≠ some c) :
    (as ++ bs).getLast? ≠ some c := by
  rw [List.getLast?_append]
  cases hbs : bs.getLast? with
  | none => rwa [Option.none_or]
  | some b =>
    rw [Option.some_or, ← hbs]
    exact h'

/-! ## Texts at whose ends something is left out -/

theorem mathMarks_dropEndWhile {p : Char → Bool} (hbackslash : p '\\' = false)
    (hopening : p '(' = false) (hclosing : p ')' = false) (cs : List Char) : mathMarks (Text.dropEndWhile p cs) = mathMarks cs := by
  have hsplit : cs = Text.dropEndWhile p cs ++ (cs.reverse.takeWhile p).reverse := by
    rw [Text.dropEndWhile, ← List.reverse_append, List.takeWhile_append_dropWhile,
      List.reverse_reverse]
  conv_rhs => rw [hsplit]
  refine (mathMarks_append_of_forall (fun c hc hsign ↦ ?_) _).symm
  have hp := List.mem_takeWhile_imp (List.mem_reverse.mp hc)
  simp only [List.mem_cons, List.not_mem_nil, or_false] at hsign
  rcases hsign with rfl | rfl | rfl <;> simp_all

theorem mathMarks_dropWhile {p : Char → Bool} (h : p '\\' = false) (cs : List Char) :
    mathMarks (cs.dropWhile p) = mathMarks cs := by
  have hfree : '\\' ∉ cs.takeWhile p := by
    intro hmem
    have hp := List.mem_takeWhile_imp hmem
    rw [h] at hp
    cases hp
  have hsplit := List.takeWhile_append_dropWhile (p := p) (l := cs)
  conv_rhs => rw [← hsplit]
  rw [mathMarks_append fun hlast ↦ hfree (List.mem_of_getLast? hlast), mathMarks_of_notMem hfree]
  rfl

theorem mathMarks_stripEnd (t : String) :
    mathMarks (Text.stripEnd t).toList = mathMarks t.toList := by
  rw [Text.stripEnd, String.toList_ofList]
  exact mathMarks_dropEndWhile (by decide) (by decide) (by decide) _

theorem mathMarks_stripNewlines (t : String) :
    mathMarks (Text.stripNewlines t).toList = mathMarks t.toList := by
  rw [Text.stripNewlines, String.toList_ofList, Text.trim,
    mathMarks_dropEndWhile (by decide) (by decide) (by decide), mathMarks_dropWhile (by decide)]

/-! ## Texts without delimiters -/

namespace IsMarkFree

theorem nil : IsMarkFree [] := ⟨rfl, nofun⟩

theorem of_notMem (h : '\\' ∉ cs) : IsMarkFree cs :=
  ⟨mathMarks_of_notMem h, fun hlast ↦ h (List.mem_of_getLast? hlast)⟩

theorem of_isSelfContained (h : IsSelfContained cs) : IsMarkFree cs :=
  ⟨mathMarks_eq_nil h.signs, h.ending⟩

theorem append (h : IsMarkFree as) (h' : IsMarkFree bs) : IsMarkFree (as ++ bs) where
  marks := by rw [mathMarks_append h.ending, h.marks, h'.marks, List.append_nil]
  ending := getLast?_append_ne h.ending h'.ending

end IsMarkFree

/-- Escaped text has no delimiters of formulas. -/
theorem isMarkFree_escapeText (t : String) : IsMarkFree (escapeText t).toList := by
  have htokens : ∀ k ∈ textTokens, mathMarks k.written = [] ∧ k.written.getLast? ≠ some '\\' := by
    decide
  rw [escapeText, String.toList_ofList]
  have hwritten := isWritten_escapeChars t.toList
  generalize t.toList = cs, escapeChars t.toList = ds at hwritten ⊢
  induction hwritten with
  | nil => exact .nil
  | @ordinary c cs ds hc _ ih =>
    have hne : '\\' ≠ c := fun heq ↦ hc (heq ▸ List.mem_cons_self)
    have hfree : IsMarkFree [c] := .of_notMem fun hmem ↦ hne (List.mem_singleton.mp hmem)
    exact hfree.append ih
  | @token k cs ds hk _ ih =>
    obtain ⟨hmarks, hending⟩ := htokens k hk
    exact IsMarkFree.append ⟨hmarks, hending⟩ ih

/-! ## Formulas -/

theorem delimitedBy_self (opener closer cs : List Char) :
    delimitedBy opener closer (opener ++ cs ++ closer) = true := by
  rw [delimitedBy, Bool.and_eq_true, Bool.and_eq_true, decide_eq_true_iff,
    List.isPrefixOf_iff_prefix, List.isSuffixOf_iff_suffix]
  refine ⟨⟨?_, ?_⟩, List.suffix_append _ _⟩
  · simp only [List.length_append]
    omega
  · rw [List.append_assoc]
    exact List.prefix_append _ _

/-- Of a formula with its delimiters what stands between them is left, if no other delimiters
surround the formula. -/
theorem withoutDelimiters_of_find? {d : List Char × List Char}
    (h : (mathDelimiters.find? fun (opener, closer) ↦
      delimitedBy opener closer (d.1 ++ cs ++ d.2)) = some d) :
    withoutDelimiters (d.1 ++ cs ++ d.2) = cs := by
  have hlength : (d.1 ++ cs ++ d.2).length - d.2.length - d.1.length = cs.length := by
    simp only [List.length_append]
    omega
  rw [withoutDelimiters, h]
  dsimp only
  rw [hlength, List.append_assoc, List.drop_left, List.take_left]

/-- What stands between the delimiters of a formula has none of its own, and is what is left without
them. -/
theorem withoutDelimiters_eq (h : IsBare cs) {d : List Char × List Char} (hd : d ∈ mathDelimiters) :
    withoutDelimiters (d.1 ++ cs ++ d.2) = cs := by
  have hdollars : delimitedBy ['$', '$'] ['$', '$'] (['$'] ++ cs ++ ['$']) = false := by
    cases cs with
    | nil => rfl
    | cons c cs =>
      have hc : c ≠ '$' := fun heq ↦ h.dollar (heq ▸ List.mem_cons_self)
      simp [delimitedBy, hc.symm]
  refine withoutDelimiters_of_find? ?_
  simp only [mathDelimiters, List.mem_cons, List.not_mem_nil, or_false] at hd
  rcases hd with rfl | rfl | rfl | rfl
  · exact List.find?_cons_of_pos (delimitedBy_self _ _ cs)
  · refine (List.find?_cons_of_neg (by simp [delimitedBy])).trans ?_
    exact List.find?_cons_of_pos (delimitedBy_self _ _ cs)
  · refine (List.find?_cons_of_neg (by simp [delimitedBy])).trans ?_
    refine (List.find?_cons_of_neg (by simp [delimitedBy])).trans ?_
    exact List.find?_cons_of_pos (delimitedBy_self _ _ cs)
  · refine (List.find?_cons_of_neg ?_).trans ?_
    · exact Bool.eq_false_iff.mp hdollars
    refine (List.find?_cons_of_neg (by simp [delimitedBy])).trans ?_
    refine (List.find?_cons_of_neg (by simp [delimitedBy])).trans ?_
    exact List.find?_cons_of_pos (delimitedBy_self _ _ cs)

/-- A formula without its delimiters is free of any. -/
theorem isBare_stripMathDelimiters {value : String} (h : IsFormula value) :
    IsBare (stripMathDelimiters value).toList ∧
      IsMarkFree (stripMathDelimiters value).toList := by
  obtain ⟨cs, hbare, hending, d, hd, hvalue⟩ := h
  rw [stripMathDelimiters, String.toList_ofList, hvalue, withoutDelimiters_eq hbare hd]
  exact ⟨hbare, ⟨mathMarks_eq_nil fun c hc ↦ hbare.signs c (List.mem_append_left _ hc), hending⟩⟩

/-- A formula that opens no run of mathematics stands between delimiters of its own. -/
theorem isMarkFree_of_not_opensInlineMath {value : String} (h : IsFormula value)
    (hopens : opensInlineMath value.toList = false) : IsMarkFree value.toList := by
  obtain ⟨cs, hbare, hending, d, hd, hvalue⟩ := h
  have hcs : IsMarkFree cs :=
    ⟨mathMarks_eq_nil fun c hc ↦ hbare.signs c (List.mem_append_left _ hc), hending⟩
  have haround : ∀ as bs, IsMarkFree as → IsMarkFree bs → IsMarkFree (as ++ cs ++ bs) :=
    fun as bs has hbs ↦ (has.append hcs).append hbs
  rw [hvalue] at hopens ⊢
  simp only [mathDelimiters, List.mem_cons, List.not_mem_nil, or_false] at hd
  rcases hd with rfl | rfl | rfl | rfl
  · exact haround _ _ (.of_notMem (by decide)) (.of_notMem (by decide))
  · cases hopens
  · exact haround _ _ ⟨by decide, by decide⟩ ⟨by decide, by decide⟩
  · exact haround _ _ (.of_notMem (by decide)) (.of_notMem (by decide))

end Typeset.Latex

import Mathlib.Data.List.Chain
import Typeset.Proofs.TableLayout
import Typeset.Table.Columns

/-!
# Bars between letters

Each letter of a word has a bar before it or none. The letters of the columns are printed so, though
the bars are: a group of columns puts one before its first column and one behind its last, and the
second one of a pair is left out.
-/

namespace Typeset

/-- A group of columns ends before the column, or one begins with it. -/
def Geometry.dividesBefore (g : Geometry) (column : Nat) : Bool :=
  0 < column && (g.groupEnds.contains (column - 1) || g.groupStarts.contains column)

namespace Table

/-- A word with a bar before the letters that are told to have one. -/
def lined (bar : Nat → Bool) (column : Nat) : List Char → List Char
  | [] => []
  | letter :: letters =>
    (if bar column then ['|'] else []) ++ letter :: lined bar (column + 1) letters

/-- A bar stands behind so many letters of the word. -/
def HasBarAfter (word : List Char) (count : Nat) : Prop :=
  ∃ before after, word = before ++ '|' :: after ∧ (before.filter (· != '|')).length = count

/-- Two bars never follow each other. -/
def HasSingleBars (word : List Char) : Prop := word.IsChain fun c d ↦ c ≠ '|' ∨ d ≠ '|'

variable {g : Geometry} {bar : Nat → Bool} {column count : Nat} {c : Char}
  {word letters : List Char}

/-! ## Where bars stand -/

theorem filter_letter_cons (hc : c ≠ '|') :
    (c :: word).filter (· != '|') = c :: word.filter (· != '|') :=
  List.filter_cons_of_pos (bne_iff_ne.mpr hc)

theorem not_hasBarAfter_nil : ¬ HasBarAfter [] count := by
  rintro ⟨before, after, heq, -⟩
  simp at heq

theorem hasBarAfter_bar_cons :
    HasBarAfter ('|' :: word) count ↔ count = 0 ∨ HasBarAfter word count := by
  constructor
  · rintro ⟨_ | ⟨c, before⟩, after, heq, hcount⟩
    · exact .inl hcount.symm
    · obtain ⟨rfl, hword⟩ := List.cons.inj heq
      exact .inr ⟨before, after, hword, hcount⟩
  · rintro (rfl | ⟨before, after, rfl, hcount⟩)
    · exact ⟨[], word, rfl, rfl⟩
    · exact ⟨'|' :: before, after, rfl, hcount⟩

theorem hasBarAfter_cons (hc : c ≠ '|') :
    HasBarAfter (c :: word) count ↔ ∃ k, count = k + 1 ∧ HasBarAfter word k := by
  constructor
  · rintro ⟨_ | ⟨c', before⟩, after, heq, hcount⟩
    · exact absurd (List.cons.inj heq).1 hc
    · obtain ⟨rfl, hword⟩ := List.cons.inj heq
      rw [filter_letter_cons hc, List.length_cons] at hcount
      exact ⟨_, hcount.symm, before, after, hword, rfl⟩
  · rintro ⟨k, rfl, before, after, rfl, hk⟩
    refine ⟨c :: before, after, rfl, ?_⟩
    rw [filter_letter_cons hc, List.length_cons, hk]

/-- In a word with bars before some letters, they stand there and nowhere else. -/
theorem hasBarAfter_lined (hfree : '|' ∉ letters) : HasBarAfter (lined bar column letters) count ↔
    count < letters.length ∧ bar (column + count) = true := by
  induction letters generalizing column count with
  | nil => simp [lined, not_hasBarAfter_nil]
  | cons letter letters ih =>
    obtain ⟨hletter, hrest⟩ := not_or.mp (mt List.mem_cons.mpr hfree)
    have ih := fun k ↦ @ih (column + 1) k hrest
    have hself : HasBarAfter (letter :: lined bar (column + 1) letters) count ↔
        0 < count ∧ count < letters.length + 1 ∧ bar (column + count) = true := by
      rw [hasBarAfter_cons (Ne.symm hletter)]
      cases count with
      | zero => simp
      | succ k => simp [ih, Nat.add_right_comm, Nat.add_assoc]
    rw [lined, List.length_cons]
    split
    · next hbar =>
      rw [List.singleton_append, hasBarAfter_bar_cons, hself]
      constructor
      · rintro (rfl | ⟨-, h⟩)
        · exact ⟨Nat.succ_pos _, hbar⟩
        · exact h
      · intro h
        exact (Nat.eq_zero_or_pos count).imp_right fun hpos ↦ ⟨hpos, h⟩
    · next hbar =>
      rw [List.nil_append, hself, and_iff_right_iff_imp]
      rintro ⟨-, hcount⟩
      refine Nat.pos_of_ne_zero ?_
      rintro rfl
      exact hbar hcount

/-! ## Words with bars -/

/-- The letters are as they were. -/
theorem filter_lined (hfree : '|' ∉ letters) :
    (lined bar column letters).filter (· != '|') = letters := by
  induction letters generalizing column with
  | nil => rfl
  | cons letter letters ih =>
    obtain ⟨hletter, hrest⟩ := not_or.mp (mt List.mem_cons.mpr hfree)
    have hbar : (if bar column then ['|'] else []).filter (· != '|') = [] := by
      split <;> rfl
    rw [lined, List.filter_append, hbar, List.nil_append,
      filter_letter_cons (Ne.symm hletter), ih hrest]

theorem mem_lined (h : c ∈ lined bar column letters) : c = '|' ∨ c ∈ letters := by
  induction letters generalizing column with
  | nil => cases h
  | cons letter letters ih =>
    rw [lined, List.mem_append, List.mem_cons] at h
    rcases h with h | rfl | h
    · split at h
      · exact .inl (List.mem_singleton.mp h)
      · cases h
    · exact .inr List.mem_cons_self
    · exact (ih h).imp_right (.tail _)

theorem head?_lined (h : bar column = false) :
    (lined bar column letters).head? = letters.head? := by
  cases letters with
  | nil => rfl
  | cons letter letters => rw [lined, h, if_neg Bool.false_ne_true]; rfl

theorem getLast?_lined : (lined bar column letters).getLast? = letters.getLast? := by
  induction letters generalizing column with
  | nil => rfl
  | cons letter letters ih =>
    rw [lined, List.getLast?_append, List.getLast?_cons, List.getLast?_cons, ih, Option.some_or]

theorem hasSingleBars_lined (hfree : '|' ∉ letters) : HasSingleBars (lined bar column letters) := by
  induction letters generalizing column with
  | nil => exact .nil
  | cons letter letters ih =>
    obtain ⟨hletter, hrest⟩ := not_or.mp (mt List.mem_cons.mpr hfree)
    have hself : HasSingleBars (letter :: lined bar (column + 1) letters) :=
      List.isChain_cons.mpr ⟨fun _ _ ↦ .inl (Ne.symm hletter), ih hrest⟩
    rw [lined]
    split
    · refine List.isChain_cons.mpr ⟨fun c hc ↦ .inr ?_, hself⟩
      obtain rfl := Option.some.inj hc
      exact Ne.symm hletter
    · exact hself

/-! ## The columns -/

/-- A bar stands before a column where a group of columns ends or begins. The one of a group that
has ended may have been printed before. -/
theorem barred_eq {afterBar : Bool} (hcount : column + letters.length = g.columnCount)
    (hafter : afterBar = true ↔ 0 < column ∧ column < g.columnCount ∧ column - 1 ∈ g.groupEnds) :
    (if afterBar then ['|'] else []) ++ barred g column afterBar letters =
      lined g.dividesBefore column letters := by
  induction letters generalizing column afterBar with
  | nil =>
    rw [List.length_nil, Nat.add_zero] at hcount
    have hnone : afterBar = false := by
      rw [← Bool.not_eq_true, hafter]
      omega
    rw [hnone]
    rfl
  | cons letter letters ih =>
    rw [List.length_cons] at hcount
    have hrest := @ih (column + 1)
      (g.groupEnds.contains column && decide (column + 1 < g.columnCount)) (by omega)
      (by simp [and_comm])
    have hlt : column < g.columnCount := by omega
    have hbar : (if afterBar then ['|'] else []) ++
        (if g.groupStarts.contains column && decide (0 < column) && !afterBar then ['|'] else []) =
          if g.dividesBefore column then ['|'] else [] := by
      have hends : afterBar = (decide (0 < column) && g.groupEnds.contains (column - 1)) := by
        rw [Bool.eq_iff_iff, hafter]
        simp [hlt]
      rw [hends, Geometry.dividesBefore]
      cases decide (0 < column) <;> cases g.groupEnds.contains (column - 1) <;>
        cases g.groupStarts.contains column <;> rfl
    rw [barred, lined, ← hrest, ← hbar]
    simp only [List.append_assoc, List.cons_append, List.nil_append]

/-- The letters of the columns stand between bars. -/
theorem barred_zero_eq (hcount : letters.length = g.columnCount) :
    barred g 0 false letters = lined g.dividesBefore 0 letters := by
  have hself := @barred_eq g 0 letters false (by omega) (by simp)
  rwa [if_neg Bool.false_ne_true, List.nil_append] at hself

end Table

end Typeset

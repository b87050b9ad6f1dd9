import Mathlib.Data.List.Count
import Mathlib.Data.List.Infix
import Typeset.Latex.Command

/-!
# How TeX reads a text

A backslash takes the character behind it with it. The characters that are left stand for
themselves, braces among them. Environments begin and end with commands of their own.
-/

namespace Typeset.Latex

section

variable {α : Type} (char : α → Char)

/-- The signs that no backslash takes with it. -/
def bare : List α → List α
  | [] => []
  | [x] => [x]
  | x :: y :: xs => if char x = '\\' then x :: bare xs else x :: bare (y :: xs)

theorem bare_cons {x : α} (hx : char x ≠ '\\') (xs : List α) :
    bare char (x :: xs) = x :: bare char xs := by
  cases xs with
  | nil => rfl
  | cons y ys => rw [bare, if_neg hx]

theorem bare_cons_cons {x : α} (hx : char x = '\\') (y : α) (xs : List α) :
    bare char (x :: y :: xs) = x :: bare char xs := by
  rw [bare, if_pos hx]

theorem bare_append_of_plain {xs : List α} (hxs : ∀ x ∈ xs, char x ≠ '\\') (ys : List α) :
    bare char (xs ++ ys) = xs ++ bare char ys := by
  induction xs with
  | nil => rfl
  | cons x xs ih =>
    rw [List.cons_append, bare_cons char (hxs x List.mem_cons_self),
      ih fun y hy ↦ hxs y (.tail _ hy), List.cons_append]

theorem map_bare (xs : List α) : (bare char xs).map char = bare id (xs.map char) := by
  induction xs using bare.induct char with
  | case1 => rfl
  | case2 x => rfl
  | case3 x y xs hx ih =>
    rw [bare_cons_cons char hx, List.map_cons, List.map_cons, List.map_cons,
      bare_cons_cons id hx, ih]
  | case4 x y xs hx ih =>
    rw [bare_cons char hx, List.map_cons, List.map_cons, bare_cons id hx, ih]

end

/-! ## Braces -/

/-- No brace is closed that is not open, and none is left open. -/
structure IsBalanced (cs : List Char) : Prop where
  sane : ∀ before, before <+: cs → before.count '}' ≤ before.count '{'
  settled : cs.count '{' = cs.count '}'

namespace IsBalanced

variable {cs ds : List Char}

theorem nil : IsBalanced [] where
  sane before h := by
    rw [List.prefix_nil.mp h]
    exact Nat.le_refl _
  settled := rfl

theorem append (h : IsBalanced cs) (h' : IsBalanced ds) : IsBalanced (cs ++ ds) where
  sane before hbefore := by
    rcases List.prefix_or_prefix_of_prefix hbefore (List.prefix_append cs ds) with hin | ⟨rest, rfl⟩
    · exact h.sane before hin
    · have hrest := h'.sane rest ((List.prefix_append_right_inj cs).mp hbefore)
      have hcs := h.settled
      rw [List.count_append, List.count_append]
      omega
  settled := by rw [List.count_append, List.count_append, h.settled, h'.settled]

theorem of_notMem (hopen : '{' ∉ cs) (hclose : '}' ∉ cs) : IsBalanced cs where
  sane before h := by
    rw [List.count_eq_zero_of_not_mem fun hmem ↦ hclose (h.subset hmem)]
    exact Nat.zero_le _
  settled := by
    rw [List.count_eq_zero_of_not_mem hopen, List.count_eq_zero_of_not_mem hclose]

theorem group (h : IsBalanced cs) : IsBalanced ('{' :: (cs ++ ['}'])) where
  sane before hbefore := by
    rcases List.prefix_cons_iff.mp hbefore with rfl | ⟨inner, rfl, hinner⟩
    · exact Nat.le_refl _
    · rcases List.prefix_concat_iff.mp hinner with rfl | hinner
      · have hcs := h.settled
        simp only [List.count_cons, List.count_append]
        simp
        omega
      · have hin := h.sane inner hinner
        simp only [List.count_cons]
        simp
        omega
  settled := by
    have hcs := h.settled
    simp only [List.count_cons, List.count_append]
    simp
    omega

end IsBalanced

/-! ## Environments -/

/-- A command that an environment begins or ends with. -/
inductive Delimiter where
  | opening (environment : List Char)
  | closing (environment : List Char)
deriving DecidableEq, Repr

/-- What an environment's opening has between the backslash and the name. -/
def openingWord : List Char := ['b', 'e', 'g', 'i', 'n', '{']

/-- What an environment's end has between the backslash and the name. -/
def closingWord : List Char := ['e', 'n', 'd', '{']

/-- The delimiter that a backslash and some characters are. -/
def delimiter? (cs : List Char) : Option Delimiter :=
  if openingWord.isPrefixOf cs then
    some (.opening ((cs.drop openingWord.length).takeWhile (· != '}')))
  else if closingWord.isPrefixOf cs then
    some (.closing ((cs.drop closingWord.length).takeWhile (· != '}')))
  else none

/-- The delimiters of a text, in order. -/
def delimiters : List Char → List Delimiter
  | [] => []
  | [_] => []
  | c :: d :: cs =>
    if c = '\\' then (delimiter? (d :: cs)).toList ++ delimiters cs else delimiters (d :: cs)

/-- Each environment ends where no other one that began after it is open. -/
inductive AreNested : List Delimiter → Prop
  | nil : AreNested []
  | environment (name : List Char) {inner rest : List Delimiter} :
    AreNested inner → AreNested rest →
      AreNested (.opening name :: (inner ++ .closing name :: rest))

theorem AreNested.append {ds es : List Delimiter} (h : AreNested ds) (h' : AreNested es) :
    AreNested (ds ++ es) := by
  induction h with
  | nil => exact h'
  | environment name hinner _ _ ih =>
    rw [List.cons_append, List.append_assoc, List.cons_append]
    exact .environment name hinner ih

theorem delimiters_cons {c : Char} (hc : c ≠ '\\') (cs : List Char) :
    delimiters (c :: cs) = delimiters cs := by
  cases cs with
  | nil => rfl
  | cons d cs => rw [delimiters, if_neg hc]

theorem delimiters_append_of_plain {cs : List Char} (hcs : '\\' ∉ cs) (ds : List Char) :
    delimiters (cs ++ ds) = delimiters ds := by
  induction cs with
  | nil => rfl
  | cons c cs ih =>
    rw [List.mem_cons, not_or] at hcs
    rw [List.cons_append, delimiters_cons (Ne.symm hcs.1), ih hcs.2]

theorem delimiters_backslash (c : Char) (cs : List Char) :
    delimiters ('\\' :: c :: cs) = (delimiter? (c :: cs)).toList ++ delimiters cs := by
  rw [delimiters, if_pos rfl]

/-- The name of an environment is one word. -/
def IsName (name : List Char) : Prop := ∀ c ∈ name, c ≠ '\\' ∧ c ≠ '{' ∧ c ≠ '}'

instance (name : List Char) : Decidable (IsName name) := List.decidableBAll ..

section

variable {name : List Char} (hname : IsName name) (cs : List Char)

include hname

theorem takeWhile_name : (name ++ '}' :: cs).takeWhile (· != '}') = name := by
  rw [List.takeWhile_append_of_pos fun c hc ↦ bne_iff_ne.mpr (hname c hc).2.2]
  exact List.append_nil name

theorem delimiter?_opening :
    delimiter? (openingWord ++ (name ++ '}' :: cs)) = some (.opening name) := by
  have hprefix : openingWord.isPrefixOf (openingWord ++ (name ++ '}' :: cs)) = true :=
    List.isPrefixOf_iff_prefix.mpr (List.prefix_append _ _)
  rw [delimiter?, if_pos hprefix, List.drop_left, takeWhile_name hname]

theorem delimiter?_closing :
    delimiter? (closingWord ++ (name ++ '}' :: cs)) = some (.closing name) := by
  have hother : openingWord.isPrefixOf (closingWord ++ (name ++ '}' :: cs)) = false := rfl
  have hprefix : closingWord.isPrefixOf (closingWord ++ (name ++ '}' :: cs)) = true :=
    List.isPrefixOf_iff_prefix.mpr (List.prefix_append _ _)
  rw [delimiter?, hother, if_neg Bool.false_ne_true, if_pos hprefix, List.drop_left,
    takeWhile_name hname]

theorem delimiters_name : delimiters (name ++ '}' :: cs) = delimiters cs := by
  rw [delimiters_append_of_plain fun h ↦ (hname _ h).1 rfl, delimiters_cons (by decide)]

theorem delimiters_opening : delimiters ('\\' :: (openingWord ++ (name ++ '}' :: cs))) =
    .opening name :: delimiters cs := by
  have hread := delimiter?_opening hname cs
  have hrest : delimiters (openingWord.tail ++ (name ++ '}' :: cs)) = delimiters cs := by
    rw [delimiters_append_of_plain (by decide), delimiters_name hname]
  rw [openingWord, List.cons_append] at hread ⊢
  rw [delimiters_backslash, hread, ← hrest]
  rfl

theorem delimiters_closing : delimiters ('\\' :: (closingWord ++ (name ++ '}' :: cs))) =
    .closing name :: delimiters cs := by
  have hread := delimiter?_closing hname cs
  have hrest : delimiters (closingWord.tail ++ (name ++ '}' :: cs)) = delimiters cs := by
    rw [delimiters_append_of_plain (by decide), delimiters_name hname]
  rw [closingWord, List.cons_append] at hread ⊢
  rw [delimiters_backslash, hread, ← hrest]
  rfl

end

/-- The word is neither the beginning of a delimiter nor does it begin with one. -/
def IsOther (w : List Char) : Prop :=
  ¬ w <+: openingWord ∧ ¬ openingWord <+: w ∧ ¬ w <+: closingWord ∧ ¬ closingWord <+: w

instance (w : List Char) : Decidable (IsOther w) := inferInstanceAs (Decidable (_ ∧ _ ∧ _ ∧ _))

theorem IsOther.delimiter?_eq_none {w : List Char} (h : IsOther w) (cs : List Char) :
    delimiter? (w ++ cs) = none := by
  have hno : ∀ d : List Char, ¬ w <+: d → ¬ d <+: w → d.isPrefixOf (w ++ cs) = false := by
    intro d hw hd
    refine Bool.eq_false_iff.mpr fun hprefix ↦ ?_
    rcases List.prefix_or_prefix_of_prefix (List.isPrefixOf_iff_prefix.mp hprefix)
      (List.prefix_append w cs) with hin | hin
    · exact hd hin
    · exact hw hin
  rw [delimiter?, hno _ h.1 h.2.1, hno _ h.2.2.1 h.2.2.2]
  rfl

/-- Another command is no delimiter. -/
theorem delimiters_command {w : List Char} (hne : w ≠ []) (hother : IsOther w)
    (hplain : '\\' ∉ w.tail) (cs : List Char) :
    delimiters ('\\' :: (w ++ cs)) = delimiters cs := by
  obtain ⟨c, w, rfl⟩ := List.exists_cons_of_ne_nil hne
  have hread := hother.delimiter?_eq_none cs
  rw [List.cons_append] at hread ⊢
  rw [delimiters_backslash, hread]
  exact delimiters_append_of_plain hplain cs

end Typeset.Latex

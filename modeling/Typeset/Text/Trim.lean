import Typeset.Unicode.Span

/-!
# Trimming

A text without the characters of a class at its ends. `strip` trims white space and
`stripNewlines` trims line feeds only.
-/

namespace Typeset.Text

open Unicode

/-- The characters up to the last one outside the class. -/
def dropEndWhile (p : Char → Bool) (cs : List Char) : List Char :=
  (cs.reverse.dropWhile p).reverse

/-- The characters from the first to the last one outside the class. -/
def trim (p : Char → Bool) (cs : List Char) : List Char :=
  dropEndWhile p (cs.dropWhile p)

@[simp] theorem dropEndWhile_nil (p : Char → Bool) : dropEndWhile p [] = [] := rfl

@[simp] theorem trim_nil (p : Char → Bool) : trim p [] = [] := rfl

/-- A line feed. -/
def isNewline (c : Char) : Bool := c == '\n'

/-- The text without white space at its ends. -/
def strip (t : String) : String := .ofList (trim isBlank t.toList)

/-- The text without white space at its end. -/
def stripEnd (t : String) : String := .ofList (dropEndWhile isBlank t.toList)

/-- The text without line feeds at its ends. -/
def stripNewlines (t : String) : String := .ofList (trim isNewline t.toList)

/-- The text without line feeds at its end. -/
def dropFinalNewlines (t : String) : String := .ofList (dropEndWhile isNewline t.toList)

/-- The text holds nothing but white space. -/
def isBlankText (t : String) : Bool := t.toList.all isBlank

/-! ## What trimming leaves -/

variable {p : Char → Bool} {c : Char} {cs : List Char}

theorem mem_dropWhile (hc : c ∈ cs) (hp : p c = false) : c ∈ cs.dropWhile p := by
  rw [← List.takeWhile_append_dropWhile (p := p) (l := cs)] at hc
  rcases List.mem_append.mp hc with hc | hc
  · have htaken := List.all_eq_true.mp List.all_takeWhile c hc
    rw [hp] at htaken
    cases htaken
  · exact hc

/-- Nothing but characters of the class is taken off. -/
theorem mem_trim (hc : c ∈ cs) (hp : p c = false) : c ∈ trim p cs :=
  List.mem_reverse.mpr (mem_dropWhile (List.mem_reverse.mpr (mem_dropWhile hc hp)) hp)

theorem dropWhile_eq_self (h : cs.head?.any p = false) : cs.dropWhile p = cs := by
  cases cs with
  | nil => rfl
  | cons c cs => rw [List.dropWhile_cons, if_neg (by simpa using h)]

/-- A text is not trimmed if its ends are outside the class. -/
theorem trim_eq_self (hhead : cs.head?.any p = false) (hlast : cs.getLast?.any p = false) :
    trim p cs = cs := by
  rw [trim, dropWhile_eq_self hhead, dropEndWhile,
    dropWhile_eq_self (by rwa [List.head?_reverse]), List.reverse_reverse]

theorem trim_cons (hc : p c = true) (cs : List Char) : trim p (c :: cs) = trim p cs := by
  rw [trim, List.dropWhile_cons_of_pos hc, trim]

theorem trim_concat (hc : p c = true) (cs : List Char) : trim p (cs ++ [c]) = trim p cs := by
  rw [trim, trim, List.dropWhile_append]
  split
  · next hempty =>
    rw [List.isEmpty_iff.mp hempty, List.dropWhile_cons_of_pos hc, List.dropWhile_nil]
  · rw [dropEndWhile, List.reverse_append, List.reverse_singleton, List.singleton_append,
      List.dropWhile_cons_of_pos hc, dropEndWhile]

theorem any_head?_dropWhile (p : Char → Bool) (cs : List Char) :
    (cs.dropWhile p).head?.any p = false := by
  have hhead := List.head?_dropWhile_not p cs
  cases h : (cs.dropWhile p).head? with
  | none => rfl
  | some c =>
    rw [h] at hhead
    exact hhead

/-- A trimmed text ends outside of the class. -/
theorem any_getLast?_trim (p : Char → Bool) (cs : List Char) :
    (trim p cs).getLast?.any p = false := by
  rw [trim, dropEndWhile, List.getLast?_reverse]
  exact any_head?_dropWhile p _

/-- A trimmed text begins outside of the class. -/
theorem any_head?_trim (p : Char → Bool) (cs : List Char) : (trim p cs).head?.any p = false := by
  have hprefix : trim p cs <+: cs.dropWhile p := by
    rw [trim, dropEndWhile, ← List.reverse_suffix, List.reverse_reverse]
    exact List.dropWhile_suffix p
  have hhead := any_head?_dropWhile p cs
  cases htrim : trim p cs with
  | nil => rfl
  | cons c rest =>
    rw [htrim] at hprefix
    obtain ⟨more, hmore⟩ := hprefix
    rw [← hmore] at hhead
    exact hhead

theorem trim_eq_nil_iff : trim p cs = [] ↔ ∀ c ∈ cs, p c = true := by
  constructor
  · intro h c hc
    refine Bool.not_eq_false _ ▸ fun hp ↦ ?_
    have hmem := mem_trim hc hp
    rw [h] at hmem
    cases hmem
  · intro h
    cases htrim : trim p cs with
    | nil => rfl
    | cons c rest =>
      have hmem : c ∈ cs := by
        have hsub := (List.dropWhile_sublist p).trans <| List.reverse_sublist.mpr <|
          List.dropWhile_sublist (l := cs) p
        refine List.mem_reverse.mp (hsub.mem (List.mem_reverse.mp ?_))
        rw [← dropEndWhile, ← trim, htrim]
        exact List.mem_cons_self
      have hhead := any_head?_trim p cs
      rw [htrim] at hhead
      simp [h c hmem] at hhead

end Typeset.Text

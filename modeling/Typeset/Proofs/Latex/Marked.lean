import Typeset.Latex.Escape
import Typeset.Proofs.Latex.Reading
import Typeset.Unicode.Span

/-!
# Marked texts

A printed text is marked by where each of its characters is from: the printer, a text of the
document, or a key made from one. A marked text is sound if it is made of plain characters,
commands, groups and environments, and if no character of the document that TeX would take for more
than itself stands bare in it. Sound texts can be put together, and trimmed.
-/

namespace Typeset.Latex

open Unicode

/-- Where a character of a printed text is from. -/
inductive Provenance where
  | markup
  | source
  | key
deriving DecidableEq, Repr

/-- A character of a printed text, and where it is from. -/
structure Sign where
  char : Char
  provenance : Provenance
deriving DecidableEq, Repr

/-- The characters, besides braces, that TeX takes for more than themselves. -/
def specials : List Char := ['&', '%', '$', '#', '_', '^', '~', '\\']

/-- Keys hold no special characters but underscores. -/
theorem eq_underscore_of_isKeyChar {c : Char} (h : c ∈ specials) (hkey : isKeyChar c = true) :
    c = '_' := by
  have hspecials : ∀ c ∈ specials, isKeyChar c = true → c = '_' := by
    simp [specials, isKeyChar]
  exact hspecials c h hkey

namespace Sign

/-- A sign that may stand bare: of the document, no special character but in a key, where only what
keys may hold stands. -/
def IsSafe (x : Sign) : Prop :=
  (x.provenance = .source → x.char ∉ specials) ∧ (x.provenance = .key → isKeyChar x.char = true)

/-- The sign opens and closes nothing and begins no command. -/
def IsPlain (x : Sign) : Prop := x.char ≠ '\\' ∧ x.char ≠ '{' ∧ x.char ≠ '}'

end Sign

/-- Characters of the printer. -/
def marks (cs : List Char) : List Sign := cs.map (⟨·, .markup⟩)

/-- A text of the printer. -/
def markup (t : String) : List Sign := marks t.toList

/-- The characters of a marked text. -/
def chars (s : List Sign) : List Char := s.map (·.char)

/-- What is printed for a marked text. -/
def textOf (s : List Sign) : String := .ofList (chars s)

variable {s t r w : List Sign}

@[simp] theorem chars_append (s t : List Sign) : chars (s ++ t) = chars s ++ chars t :=
  List.map_append

@[simp] theorem chars_cons (x : Sign) (s : List Sign) : chars (x :: s) = x.char :: chars s := rfl

@[simp] theorem chars_nil : chars [] = [] := rfl

@[simp] theorem chars_marks (cs : List Char) : chars (marks cs) = cs := by
  rw [chars, marks, List.map_map]
  exact List.map_id cs

@[simp] theorem marks_append (cs ds : List Char) : marks (cs ++ ds) = marks cs ++ marks ds :=
  List.map_append

@[simp] theorem textOf_nil : textOf [] = "" := rfl

@[simp] theorem textOf_append (s t : List Sign) : textOf (s ++ t) = textOf s ++ textOf t := by
  simp [textOf, String.ofList_append]

@[simp] theorem textOf_markup (t : String) : textOf (markup t) = t := by
  simp [textOf, markup, String.ofList_toList]

/-- The text is that of a marked one with the property. -/
def IsTextOf (P : List Sign → Prop) (t : String) : Prop := ∃ s, P s ∧ textOf s = t

theorem toList_textOf (s : List Sign) : (textOf s).toList = chars s := String.toList_ofList

/-! ## Sound texts -/

/-- What may follow a backslash: a word that is no delimiter of an environment. The first character
of it can be any one that is visible. -/
structure IsWord (w : List Sign) : Prop where
  ne_nil : w ≠ []
  other : IsOther (chars w)
  visible : ∀ x ∈ w, isBlank x.char = false
  tail : ∀ x ∈ w.tail, x.IsPlain ∧ x.IsSafe

/-- Texts of plain characters, commands, groups and environments. -/
inductive IsSound : List Sign → Prop
  | nil : IsSound []
  | plain {x : Sign} {s : List Sign} : x.IsPlain → x.IsSafe → IsSound s → IsSound (x :: s)
  | command {w s : List Sign} : IsWord w → IsSound s → IsSound (⟨'\\', .markup⟩ :: (w ++ s))
  | group {s t : List Sign} : IsSound s → IsSound t →
    IsSound (⟨'{', .markup⟩ :: (s ++ ⟨'}', .markup⟩ :: t))
  | environment {name : String} {s t : List Sign} : IsName name.toList → IsSound s → IsSound t →
    IsSound (markup (opening name) ++ (s ++ (markup (closing name) ++ t)))

theorem markup_opening (name : String) : markup (opening name) =
    ⟨'\\', .markup⟩ :: (marks openingWord ++ (marks name.toList ++ [⟨'}', .markup⟩])) := by
  simp [markup, opening, command, braced, openingWord, marks, String.toList_append]

theorem markup_closing (name : String) : markup (closing name) =
    ⟨'\\', .markup⟩ :: (marks closingWord ++ (marks name.toList ++ [⟨'}', .markup⟩])) := by
  simp [markup, closing, command, braced, closingWord, marks, String.toList_append]

namespace IsSound

theorem append (h : IsSound s) (h' : IsSound t) : IsSound (s ++ t) := by
  induction h with
  | nil => exact h'
  | plain hplain hsafe _ ih => exact .plain hplain hsafe ih
  | command hword _ ih =>
    rw [List.cons_append, List.append_assoc]
    exact .command hword ih
  | group hinner _ _ ih =>
    rw [List.cons_append, List.append_assoc, List.cons_append]
    exact .group hinner ih
  | environment hname hinner _ _ ih =>
    rw [List.append_assoc, List.append_assoc, List.append_assoc]
    exact .environment hname hinner ih

theorem of_plain (h : ∀ x ∈ s, x.IsPlain ∧ x.IsSafe) : IsSound s := by
  induction s with
  | nil => exact .nil
  | cons x s ih =>
    obtain ⟨hplain, hsafe⟩ := h x List.mem_cons_self
    exact .plain hplain hsafe (ih fun y hy ↦ h y (.tail _ hy))

end IsSound

/-! ## Reading -/

theorem bare_command (hne : w ≠ []) (htail : ∀ x ∈ w.tail, x.char ≠ '\\') (r : List Sign) :
    bare Sign.char (⟨'\\', .markup⟩ :: (w ++ r)) =
      ⟨'\\', .markup⟩ :: (w.tail ++ bare Sign.char r) := by
  obtain ⟨x, w, rfl⟩ := List.exists_cons_of_ne_nil hne
  rw [List.cons_append, bare_cons_cons Sign.char rfl]
  exact congrArg _ (bare_append_of_plain Sign.char htail r)

/-- The delimiter of an environment but for its backslash. -/
def delimiterTail (word : List Char) (name : String) : List Sign :=
  marks word.tail ++ (marks name.toList ++ [⟨'}', .markup⟩])

theorem bare_delimiter {word : List Char} (hne : word ≠ []) (hword : '\\' ∉ word.tail)
    {name : String} (hname : IsName name.toList) (r : List Sign) :
    bare Sign.char (⟨'\\', .markup⟩ ::
      (marks word ++ (marks name.toList ++ [⟨'}', .markup⟩]) ++ r)) =
        ⟨'\\', .markup⟩ :: (delimiterTail word name ++ bare Sign.char r) := by
  obtain ⟨c, word, rfl⟩ := List.exists_cons_of_ne_nil hne
  refine bare_command (List.cons_ne_nil _ _) (fun x hx ↦ ?_) r
  have hx : x ∈ marks word ++ (marks name.toList ++ [⟨'}', .markup⟩]) := hx
  simp only [marks, List.mem_append, List.mem_map, List.mem_singleton] at hx
  rcases hx with ⟨d, hd, rfl⟩ | ⟨d, hd, rfl⟩ | rfl
  · exact fun heq ↦ hword (heq ▸ hd)
  · exact (hname d hd).1
  · exact fun heq ↦ by cases heq

namespace IsSound

theorem bare_opening {name : String} (hname : IsName name.toList) (r : List Sign) :
    bare Sign.char (markup (opening name) ++ r) =
      ⟨'\\', .markup⟩ :: (delimiterTail openingWord name ++ bare Sign.char r) := by
  rw [markup_opening, List.cons_append]
  exact bare_delimiter (by decide) (by decide) hname r

theorem bare_closing {name : String} (hname : IsName name.toList) (r : List Sign) :
    bare Sign.char (markup (closing name) ++ r) =
      ⟨'\\', .markup⟩ :: (delimiterTail closingWord name ++ bare Sign.char r) := by
  rw [markup_closing, List.cons_append]
  exact bare_delimiter (by decide) (by decide) hname r

/-- A sound text is read on its own. -/
theorem bare_append (h : IsSound s) (r : List Sign) :
    bare Sign.char (s ++ r) = bare Sign.char s ++ bare Sign.char r := by
  induction h generalizing r with
  | nil => rfl
  | plain hplain _ _ ih =>
    rw [List.cons_append, bare_cons _ hplain.1, bare_cons _ hplain.1, ih, List.cons_append]
  | command hword _ ih =>
    have htail := fun x hx ↦ (hword.tail x hx).1.1
    rw [List.cons_append, List.append_assoc, bare_command hword.ne_nil htail,
      bare_command hword.ne_nil htail, ih, List.cons_append, List.append_assoc]
  | group _ _ ih ih' =>
    rw [List.cons_append, List.append_assoc, List.cons_append, bare_cons _ (by decide), ih,
      bare_cons _ (by decide), ih', bare_cons _ (by decide), ih, bare_cons _ (by decide),
      List.cons_append, List.append_assoc, List.cons_append]
  | environment hname _ _ ih ih' =>
    rw [List.append_assoc, List.append_assoc, List.append_assoc, bare_opening hname, ih,
      bare_closing hname, ih', bare_opening hname, ih, bare_closing hname]
    simp

/-- What stands bare in a sound text may. -/
theorem isSafe_of_mem_bare (h : IsSound s) : ∀ x ∈ bare Sign.char s, x.IsSafe := by
  have hmarkup : ∀ c : Char, (⟨c, .markup⟩ : Sign).IsSafe := fun c ↦ ⟨nofun, nofun⟩
  have hdelimiter : ∀ word name, ∀ x ∈ delimiterTail word name, x.IsSafe := by
    intro word name x hx
    simp only [delimiterTail, marks, List.mem_append, List.mem_map, List.mem_singleton] at hx
    rcases hx with ⟨c, -, rfl⟩ | ⟨c, -, rfl⟩ | rfl <;> exact hmarkup _
  induction h with
  | nil => exact fun x hx ↦ absurd hx List.not_mem_nil
  | plain hplain hsafe _ ih =>
    rw [bare_cons _ hplain.1]
    exact List.forall_mem_cons.mpr ⟨hsafe, ih⟩
  | command hword _ ih =>
    rw [bare_command hword.ne_nil fun x hx ↦ (hword.tail x hx).1.1]
    refine List.forall_mem_cons.mpr ⟨hmarkup _, List.forall_mem_append.mpr ⟨?_, ih⟩⟩
    exact fun x hx ↦ (hword.tail x hx).2
  | group hinner _ ih ih' =>
    rw [bare_cons _ (by decide), hinner.bare_append, bare_cons _ (by decide)]
    refine List.forall_mem_cons.mpr ⟨hmarkup _, List.forall_mem_append.mpr ⟨ih, ?_⟩⟩
    exact List.forall_mem_cons.mpr ⟨hmarkup _, ih'⟩
  | environment hname hinner _ ih ih' =>
    rw [bare_opening hname, hinner.bare_append, bare_closing hname]
    refine List.forall_mem_cons.mpr ⟨hmarkup _, List.forall_mem_append.mpr ⟨hdelimiter _ _, ?_⟩⟩
    refine List.forall_mem_append.mpr ⟨ih, List.forall_mem_cons.mpr ⟨hmarkup _, ?_⟩⟩
    exact List.forall_mem_append.mpr ⟨hdelimiter _ _, ih'⟩

theorem isBalanced_delimiterTail {word b : List Char} (hword : word.tail = b ++ ['{'])
    (hb : '{' ∉ b ∧ '}' ∉ b) {name : String} (hname : IsName name.toList) :
    IsBalanced (chars (delimiterTail word name)) := by
  have hgroup : IsBalanced ('{' :: (name.toList ++ ['}'])) :=
    .group (.of_notMem (fun h ↦ (hname _ h).2.1 rfl) fun h ↦ (hname _ h).2.2 rfl)
  have hself := IsBalanced.append (.of_notMem hb.1 hb.2) hgroup
  rw [delimiterTail, hword]
  simpa using hself

/-- The braces of a sound text match. -/
theorem isBalanced (h : IsSound s) : IsBalanced (chars (bare Sign.char s)) := by
  have hsign : ∀ c, c ≠ '{' → c ≠ '}' → IsBalanced [c] := fun c hopen hclose ↦
    .of_notMem (by simpa using Ne.symm hopen) (by simpa using Ne.symm hclose)
  induction h with
  | nil => exact .nil
  | plain hplain _ _ ih =>
    rw [bare_cons _ hplain.1]
    exact (hsign _ hplain.2.1 hplain.2.2).append ih
  | command hword _ ih =>
    rw [bare_command hword.ne_nil fun x hx ↦ (hword.tail x hx).1.1, chars_cons, chars_append]
    refine (hsign '\\' (by decide) (by decide)).append (.append (.of_notMem ?_ ?_) ih)
    · rintro hmem
      obtain ⟨x, hx, heq⟩ := List.mem_map.mp hmem
      exact (hword.tail x hx).1.2.1 heq
    · rintro hmem
      obtain ⟨x, hx, heq⟩ := List.mem_map.mp hmem
      exact (hword.tail x hx).1.2.2 heq
  | group hinner _ ih ih' =>
    rw [bare_cons _ (by decide), hinner.bare_append, bare_cons _ (by decide)]
    have hgroup := ih.group.append ih'
    simpa using hgroup
  | environment hname hinner _ ih ih' =>
    rw [bare_opening hname, hinner.bare_append, bare_closing hname]
    have hopening : IsBalanced (chars (delimiterTail openingWord _)) :=
      isBalanced_delimiterTail (b := ['e', 'g', 'i', 'n']) rfl (by decide) hname
    have hclosing : IsBalanced (chars (delimiterTail closingWord _)) :=
      isBalanced_delimiterTail (b := ['n', 'd']) rfl (by decide) hname
    have hbackslash := hsign '\\' (by decide) (by decide)
    have hself := (hbackslash.append hopening).append (ih.append
      ((hbackslash.append hclosing).append ih'))
    simpa using hself

theorem isBalanced_bare (h : IsSound s) : IsBalanced (bare id (chars s)) := by
  have hself := h.isBalanced
  rwa [chars, map_bare] at hself

theorem chars_markup_opening (name : String) :
    chars (markup (opening name)) = '\\' :: (openingWord ++ (name.toList ++ ['}'])) := by
  rw [markup_opening]
  simp

theorem chars_markup_closing (name : String) :
    chars (markup (closing name)) = '\\' :: (closingWord ++ (name.toList ++ ['}'])) := by
  rw [markup_closing]
  simp

theorem delimiters_markup_opening {name : String} (hname : IsName name.toList) (cs : List Char) :
    delimiters (chars (markup (opening name)) ++ cs) =
      .opening name.toList :: delimiters cs := by
  rw [chars_markup_opening, List.cons_append, List.append_assoc, List.append_assoc,
    List.singleton_append]
  exact delimiters_opening hname cs

theorem delimiters_markup_closing {name : String} (hname : IsName name.toList) (cs : List Char) :
    delimiters (chars (markup (closing name)) ++ cs) =
      .closing name.toList :: delimiters cs := by
  rw [chars_markup_closing, List.cons_append, List.append_assoc, List.append_assoc,
    List.singleton_append]
  exact delimiters_closing hname cs

theorem notMem_tail (hword : IsWord w) : '\\' ∉ (chars w).tail := by
  rw [chars, ← List.map_tail]
  intro hmem
  obtain ⟨x, hx, heq⟩ := List.mem_map.mp hmem
  exact (hword.tail x hx).1.1 heq

theorem delimiters_word (hword : IsWord w) (cs : List Char) :
    delimiters ('\\' :: (chars w ++ cs)) = delimiters cs :=
  delimiters_command (by simpa [chars] using hword.ne_nil) hword.other (notMem_tail hword) cs

/-- A sound text begins and ends its environments on its own. -/
theorem delimiters_append (h : IsSound s) (cs : List Char) :
    delimiters (chars s ++ cs) = delimiters (chars s) ++ delimiters cs := by
  induction h generalizing cs with
  | nil => rfl
  | plain hplain _ _ ih =>
    rw [chars_cons, List.cons_append, delimiters_cons hplain.1, delimiters_cons hplain.1, ih]
  | command hword _ ih =>
    rw [chars_cons, chars_append, List.cons_append, List.append_assoc, delimiters_word hword,
      delimiters_word hword, ih]
  | group _ _ ih ih' =>
    rw [chars_cons, chars_append, chars_cons, List.cons_append, List.append_assoc,
      List.cons_append, delimiters_cons (by decide), delimiters_cons (by decide), ih, ih,
      delimiters_cons (by decide), delimiters_cons (by decide), ih', List.append_assoc]
  | environment hname _ _ ih ih' =>
    rw [chars_append, chars_append, chars_append, List.append_assoc, List.append_assoc,
      List.append_assoc, delimiters_markup_opening hname, delimiters_markup_opening hname, ih,
      ih, delimiters_markup_closing hname, delimiters_markup_closing hname, ih']
    simp

/-- The environments of a sound text are nested. -/
theorem areNested (h : IsSound s) : AreNested (delimiters (chars s)) := by
  induction h with
  | nil => exact .nil
  | plain hplain _ _ ih => rwa [chars_cons, delimiters_cons hplain.1]
  | command hword _ ih => rwa [chars_cons, chars_append, delimiters_word hword]
  | group hinner _ ih ih' =>
    rw [chars_cons, chars_append, chars_cons, delimiters_cons (by decide),
      hinner.delimiters_append, delimiters_cons (by decide)]
    exact ih.append ih'
  | environment hname hinner _ ih ih' =>
    rw [chars_append, chars_append, chars_append, delimiters_markup_opening hname,
      hinner.delimiters_append, delimiters_markup_closing hname]
    exact .environment _ ih ih'

end IsSound

/-! ## Trimming -/

/-- The second text is what is left of the first one when it is trimmed of white space. -/
def IsTrimmed (s t : List Sign) : Prop :=
  ∃ before after, s = before ++ (t ++ after) ∧
    (∀ x ∈ before, isBlank x.char = true) ∧ ∀ x ∈ after, isBlank x.char = true

theorem IsTrimmed.trans (h : IsTrimmed s t) (h' : IsTrimmed t r) : IsTrimmed s r := by
  obtain ⟨before, after, rfl, hbefore, hafter⟩ := h
  obtain ⟨before', after', rfl, hbefore', hafter'⟩ := h'
  refine ⟨before ++ before', after' ++ after, by simp, ?_, ?_⟩
  · exact List.forall_mem_append.mpr ⟨hbefore, hbefore'⟩
  · exact List.forall_mem_append.mpr ⟨hafter', hafter⟩

/-- A visible sign stays where white space is trimmed behind it. -/
theorem eq_append_of_visible {x : Sign} {after : List Sign} (hx : isBlank x.char = false)
    (hafter : ∀ y ∈ after, isBlank y.char = true) (h : s ++ x :: r = t ++ after) :
    ∃ u, t = s ++ x :: u ∧ r = u ++ after := by
  have hnot : ∀ v, x :: v = after → False := fun v hv ↦ by
    rw [hafter x (hv ▸ List.mem_cons_self)] at hx
    cases hx
  rcases List.append_eq_append_iff.mp h with ⟨u, rfl, hu⟩ | ⟨u, rfl, rfl⟩
  · cases u with
    | nil => exact (hnot r hu).elim
    | cons y u =>
      obtain ⟨rfl, rfl⟩ := List.cons.inj hu
      exact ⟨u, rfl, rfl⟩
  · have hmem := hafter x (List.mem_append_right u List.mem_cons_self)
    rw [hx] at hmem
    cases hmem

theorem eq_append_of_word {after : List Sign} (hw : ∀ x ∈ w, isBlank x.char = false)
    (hafter : ∀ y ∈ after, isBlank y.char = true) (h : w ++ r = t ++ after) :
    ∃ u, t = w ++ u ∧ r = u ++ after := by
  rcases List.eq_nil_or_concat w with rfl | ⟨init, x, rfl⟩
  · exact ⟨t, rfl, h⟩
  · rw [List.concat_eq_append] at hw h ⊢
    have hx := hw x (List.mem_append_right _ List.mem_cons_self)
    rw [List.append_assoc] at h
    obtain ⟨u, rfl, rfl⟩ := eq_append_of_visible hx hafter h
    exact ⟨u, by rw [List.append_assoc]; rfl, rfl⟩

namespace IsSound

/-- A text that begins with white space is sound without it. -/
theorem of_cons {x : Sign} (h : IsSound (x :: s)) (hx : isBlank x.char = true) : IsSound s := by
  generalize hs : x :: s = l at h
  cases h with
  | nil => cases hs
  | plain _ _ h =>
    obtain ⟨rfl, rfl⟩ := List.cons.inj hs
    exact h
  | command _ _ =>
    obtain ⟨rfl, -⟩ := List.cons.inj hs
    cases hx
  | group _ _ =>
    obtain ⟨rfl, -⟩ := List.cons.inj hs
    cases hx
  | environment _ _ _ =>
    rw [markup_opening, List.cons_append] at hs
    obtain ⟨rfl, -⟩ := List.cons.inj hs
    cases hx

theorem of_append_left {before : List Sign} (h : IsSound (before ++ s))
    (hbefore : ∀ x ∈ before, isBlank x.char = true) : IsSound s := by
  induction before with
  | nil => exact h
  | cons x before ih =>
    exact ih (of_cons h (hbefore x List.mem_cons_self)) fun y hy ↦ hbefore y (.tail _ hy)

/-- So is one that ends with white space: no command ends with it. -/
theorem of_append_right {after : List Sign} (h : IsSound (t ++ after))
    (hafter : ∀ x ∈ after, isBlank x.char = true) : IsSound t := by
  generalize hs : t ++ after = l at h
  induction h generalizing t with
  | nil =>
    rw [(List.append_eq_nil_iff.mp hs).1]
    exact .nil
  | @plain x s hplain hsafe _ ih =>
    cases t with
    | nil => exact .nil
    | cons y t =>
      obtain ⟨rfl, hrest⟩ := List.cons.inj hs
      exact .plain hplain hsafe (ih hrest)
  | @command w s hword _ ih =>
    have hvisible : ∀ x ∈ (⟨'\\', .markup⟩ : Sign) :: w, isBlank x.char = false :=
      List.forall_mem_cons.mpr ⟨rfl, hword.visible⟩
    obtain ⟨u, rfl, rfl⟩ := eq_append_of_word hvisible hafter hs.symm
    exact .command hword (ih rfl)
  | @group s r hinner _ _ ih =>
    have hbrace : isBlank (⟨'}', .markup⟩ : Sign).char = false := rfl
    obtain ⟨u, rfl, rfl⟩ := eq_append_of_visible (s := ⟨'{', .markup⟩ :: s) hbrace hafter hs.symm
    exact .group hinner (ih rfl)
  | @environment name s r hname hinner _ _ ih =>
    have hbrace : isBlank (⟨'}', .markup⟩ : Sign).char = false := rfl
    have hclosing : markup (closing name) ++ r =
        (⟨'\\', .markup⟩ :: (marks closingWord ++ marks name.toList)) ++ ⟨'}', .markup⟩ :: r := by
      simp [markup_closing]
    have hsplit := hs
    rw [hclosing, ← List.append_assoc, ← List.append_assoc] at hsplit
    obtain ⟨u, rfl, rfl⟩ := eq_append_of_visible hbrace hafter hsplit.symm
    have hself : IsSound (markup (opening name) ++ (s ++ (markup (closing name) ++ u))) :=
      .environment hname hinner (ih rfl)
    rw [markup_closing] at hself
    simpa using hself

theorem trimmed (h : IsSound s) (ht : IsTrimmed s t) : IsSound t := by
  obtain ⟨before, after, rfl, hbefore, hafter⟩ := ht
  exact of_append_right (of_append_left h hbefore) hafter

end IsSound

end Typeset.Latex

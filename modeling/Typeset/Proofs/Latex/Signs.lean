import Mathlib.Data.List.TakeWhile
import Typeset.Proofs.Json.Scalars
import Typeset.Proofs.Latex.Marked
import Typeset.Proofs.Render.Labels

/-!
# What marked texts are made of

Commands, environments, keys and escaped texts, each marked by where its characters are from, and
what trimming, joining and formats make of them.
-/

namespace Typeset.Latex

open Unicode Text

variable {s t : List Sign}

/-! ## The printer's own texts -/

/-- A marked text between braces. -/
def group (s : List Sign) : List Sign := ⟨'{', .markup⟩ :: (s ++ [⟨'}', .markup⟩])

/-- A command with one marked argument. -/
def commandOf (name : String) (s : List Sign) : List Sign := markup ("\\" ++ name) ++ group s

/-- An environment around a marked text. -/
def environmentOf (name : String) (s : List Sign) : List Sign :=
  markup (opening name) ++ (s ++ markup (closing name))

@[simp] theorem textOf_group (s : List Sign) : textOf (group s) = braced (textOf s) := by
  have hopen : textOf [⟨'{', .markup⟩] = "\x7b" := rfl
  have hclose : textOf [⟨'}', .markup⟩] = "\x7d" := rfl
  rw [group, ← List.singleton_append, textOf_append, textOf_append, hopen, hclose, braced,
    String.append_assoc]

@[simp] theorem textOf_commandOf (name : String) (s : List Sign) :
    textOf (commandOf name s) = command name (textOf s) := by
  rw [commandOf, textOf_append, textOf_markup, textOf_group, command]

@[simp] theorem textOf_environmentOf (name : String) (s : List Sign) :
    textOf (environmentOf name s) = opening name ++ textOf s ++ closing name := by
  rw [environmentOf, textOf_append, textOf_append, textOf_markup, textOf_markup,
    String.append_assoc]

/-- The characters may stand as they are: there are no braces and no backslash. -/
def IsPlainText (t : String) : Prop := ∀ c ∈ t.toList, c ≠ '\\' ∧ c ≠ '{' ∧ c ≠ '}'

instance (t : String) : Decidable (IsPlainText t) := List.decidableBAll ..

theorem IsPlainText.append {t u : String} (h : IsPlainText t) (h' : IsPlainText u) :
    IsPlainText (t ++ u) := by
  rw [IsPlainText, String.toList_append]
  exact List.forall_mem_append.mpr ⟨h, h'⟩

/-- Digits are plain. -/
theorem isPlain_of_isDigit {c : Char} (h : c.isDigit = true) : c ≠ '\\' ∧ c ≠ '{' ∧ c ≠ '}' := by
  refine ⟨?_, ?_, ?_⟩
  all_goals
    rintro rfl
    exact absurd h (by decide)

theorem isPlainText_nat (n : Nat) : IsPlainText (toString n) := by
  intro c hc
  have hdigit : (toString n).toList = Nat.toDigits 10 n := by simp
  exact isPlain_of_isDigit (Nat.isDigit_of_mem_toDigits (by omega) (by omega) (hdigit ▸ hc))

theorem isPlainText_int (n : Int) : IsPlainText (toString n) := by
  have hdigits : ∀ c ∈ Nat.toDigits 10 n.natAbs, c ≠ '\\' ∧ c ≠ '{' ∧ c ≠ '}' :=
    fun c hc ↦ isPlain_of_isDigit (Nat.isDigit_of_mem_toDigits (by omega) (by omega) hc)
  rw [IsPlainText, Json.toString_int]
  split
  · exact List.forall_mem_cons.mpr ⟨by decide, hdigits⟩
  · exact hdigits

/-- The word can be the name of a command that is no delimiter. -/
def IsCommand (name : String) : Prop :=
  name ≠ "" ∧ IsOther name.toList ∧ (∀ c ∈ name.toList, isBlank c = false) ∧
    ∀ c ∈ name.toList.tail, c ≠ '\\' ∧ c ≠ '{' ∧ c ≠ '}'

instance (name : String) : Decidable (IsCommand name) :=
  -- Looking at the characters of the name, not at all characters.
  have : Decidable (∀ c ∈ name.toList, isBlank c = false) := List.decidableBAll ..
  have : Decidable (∀ c ∈ name.toList.tail, c ≠ '\\' ∧ c ≠ '{' ∧ c ≠ '}') := List.decidableBAll ..
  inferInstanceAs (Decidable (_ ∧ _ ∧ _ ∧ _))

theorem isSafe_markup (c : Char) : (⟨c, .markup⟩ : Sign).IsSafe := ⟨nofun, nofun⟩

namespace IsSound

theorem markup {t : String} (h : IsPlainText t) : IsSound (Latex.markup t) := by
  refine of_plain fun x hx ↦ ?_
  obtain ⟨c, hc, rfl⟩ := List.mem_map.mp hx
  exact ⟨h c hc, isSafe_markup c⟩

theorem isWord {name : String} (h : IsCommand name) : IsWord (marks name.toList) where
  ne_nil := by
    rw [marks, ne_eq, List.map_eq_nil_iff, String.toList_eq_nil_iff]
    exact h.1
  other := by
    rw [chars_marks]
    exact h.2.1
  visible x hx := by
    obtain ⟨c, hc, rfl⟩ := List.mem_map.mp hx
    exact h.2.2.1 c hc
  tail x hx := by
    rw [marks, ← List.map_tail] at hx
    obtain ⟨c, hc, rfl⟩ := List.mem_map.mp hx
    exact ⟨h.2.2.2 c hc, isSafe_markup c⟩

theorem markup_command {name : String} (h : IsCommand name) (hs : IsSound s) :
    IsSound (Latex.markup ("\\" ++ name) ++ s) := by
  have hself := IsSound.command (isWord h) hs
  rwa [Latex.markup, String.toList_append]

theorem braces (hs : IsSound s) : IsSound (Latex.group s) := .group hs .nil

theorem commandOf {name : String} (h : IsCommand name) (hs : IsSound s) :
    IsSound (Latex.commandOf name s) :=
  markup_command h hs.braces

theorem environmentOf {name : String} (h : IsName name.toList) (hs : IsSound s) :
    IsSound (Latex.environmentOf name s) := by
  have hself := IsSound.environment h hs .nil
  rwa [List.append_nil] at hself

end IsSound

/-! ## Texts of the document -/

/-- What stands for a character of the document in running text. -/
def escapedSigns (c : Char) : List Sign :=
  if escapeChar c = [c] then [⟨c, .source⟩]
  else if escapeChar c = ['\\', c] then [⟨'\\', .markup⟩, ⟨c, .source⟩]
  else marks (escapeChar c)

/-- What stands for running text of the document. -/
def sourceSigns : List Char → List Sign
  | [] => []
  | '.' :: '.' :: '.' :: cs => markup "\\ldots\x7b\x7d" ++ sourceSigns cs
  | c :: cs => escapedSigns c ++ sourceSigns cs

/-- What stands for code of the document. -/
def codeSigns (cs : List Char) : List Sign := cs.flatMap escapedSigns

/-- The signs of a key. -/
def keySigns (key : String) : List Sign := key.toList.map (⟨·, .key⟩)

theorem chars_escapedSigns (c : Char) : chars (escapedSigns c) = escapeChar c := by
  unfold escapedSigns
  split
  · next h => exact h.symm
  · split
    · next h => exact h.symm
    · exact chars_marks _

theorem escapeChars_cons {c : Char} {cs : List Char}
    (h : ∀ ds, c = '.' → cs = '.' :: '.' :: ds → False) :
    escapeChars (c :: cs) = escapeChar c ++ escapeChars cs := by
  rw [escapeChars.eq_def]
  split
  · next heq => cases heq
  · next heq =>
    obtain ⟨rfl, rfl⟩ := List.cons.inj heq
    exact (h _ rfl rfl).elim
  · next heq =>
    obtain ⟨rfl, rfl⟩ := List.cons.inj heq
    rfl

theorem chars_sourceSigns (cs : List Char) : chars (sourceSigns cs) = escapeChars cs := by
  induction cs using sourceSigns.induct with
  | case1 => rfl
  | case2 cs ih =>
    have hdots : escapeChars ('.' :: '.' :: '.' :: cs) =
        "\\ldots\x7b\x7d".toList ++ escapeChars cs := rfl
    rw [sourceSigns, hdots, chars_append, ih, markup, chars_marks]
  | case3 c cs hdots ih =>
    rw [sourceSigns, escapeChars_cons hdots, chars_append, ih, chars_escapedSigns]
    exact hdots

theorem textOf_sourceSigns (t : String) : textOf (sourceSigns t.toList) = escapeText t := by
  rw [textOf, chars_sourceSigns, escapeText]

theorem textOf_codeSigns (t : String) : textOf (codeSigns t.toList) = escapeCode t := by
  have hchars : ∀ cs : List Char, chars (codeSigns cs) = cs.flatMap escapeChar := by
    intro cs
    induction cs with
    | nil => rfl
    | cons c cs ih =>
      rw [codeSigns, List.flatMap_cons, chars_append, chars_escapedSigns, List.flatMap_cons, ← ih]
      rfl
  rw [textOf, hchars, escapeCode]

@[simp] theorem textOf_keySigns (key : String) : textOf (keySigns key) = key := by
  have hchars : chars (keySigns key) = key.toList := by
    rw [chars, keySigns, List.map_map]
    exact List.map_id _
  rw [textOf, hchars, String.ofList_toList]

/-- A character stands for itself, stands behind a backslash, or is written as a command. -/
theorem escapeChar_cases (c : Char) :
    (escapeChar c = [c] ∧ c ∉ specials ∧ c ≠ '\\' ∧ c ≠ '{' ∧ c ≠ '}') ∨
      (escapeChar c = ['\\', c] ∧ IsOther [c] ∧ isBlank c = false) ∨
        ∃ name, escapeChar c = "\\".toList ++ (name.toList ++ ['{', '}']) ∧ IsCommand name := by
  unfold escapeChar
  split
  case h_1 => exact .inr (.inr ⟨"textbackslash", by decide, by decide⟩)
  case h_9 => exact .inr (.inr ⟨"textasciitilde", by decide, by decide⟩)
  case h_10 => exact .inr (.inr ⟨"textasciicircum", by decide, by decide⟩)
  case h_11 h₁ h₂ h₃ h₄ h₅ h₆ h₇ h₈ h₉ h₁₀ =>
    have hspecial : c ∉ specials := by
      simpa [specials] using (⟨h₅, h₇, h₄, h₆, h₈, h₁₀, h₉, h₁⟩ :
        ¬ c = '&' ∧ ¬ c = '%' ∧ ¬ c = '$' ∧ ¬ c = '#' ∧ ¬ c = '_' ∧ ¬ c = '^' ∧ ¬ c = '~' ∧
          ¬ c = '\\')
    exact .inl ⟨rfl, hspecial, h₁, h₂, h₃⟩
  all_goals exact .inr (.inl ⟨rfl, by decide, by decide⟩)

theorem isSound_escapedSigns (c : Char) : IsSound (escapedSigns c) := by
  unfold escapedSigns
  rcases escapeChar_cases c with ⟨heq, hspecial, hplain⟩ | ⟨heq, hother, hvisible⟩ |
    ⟨name, heq, hname⟩
  · rw [if_pos heq]
    exact .plain hplain ⟨fun _ ↦ hspecial, nofun⟩ .nil
  · have hword : IsWord [⟨c, .source⟩] :=
      ⟨List.cons_ne_nil _ _, hother, by simpa using hvisible, nofun⟩
    rw [if_neg (by simp [heq]), if_pos heq]
    exact .command hword .nil
  · have hlong : ∀ cs : List Char, cs.length ≤ 2 → escapeChar c ≠ cs := by
      intro cs hcs hself
      have hpos := List.length_pos_iff.mpr fun h ↦ hname.1 (String.toList_eq_nil_iff.mp h)
      have hlength := congrArg List.length (heq.symm.trans hself)
      simp only [List.length_append, List.length_cons] at hlength
      omega
    have hsound := IsSound.commandOf hname .nil
    rw [commandOf, markup, String.toList_append] at hsound
    rw [if_neg (hlong [c] (by simp)), if_neg (hlong ['\\', c] (by simp)), heq]
    simpa [group, marks] using hsound

namespace IsSound

theorem sourceSigns (cs : List Char) : IsSound (Latex.sourceSigns cs) := by
  induction cs using sourceSigns.induct with
  | case1 => exact .nil
  | case2 cs ih =>
    have hdots : IsCommand "ldots" := by decide
    rw [Latex.sourceSigns]
    exact .append (.commandOf hdots .nil) ih
  | case3 c cs hdots ih =>
    rw [Latex.sourceSigns]
    · exact (isSound_escapedSigns c).append ih
    · exact hdots

theorem codeSigns (cs : List Char) : IsSound (Latex.codeSigns cs) := by
  induction cs with
  | nil => exact .nil
  | cons c cs ih => exact (isSound_escapedSigns c).append ih

theorem keySigns {key : String} (h : IsKey key) : IsSound (Latex.keySigns key) := by
  refine of_plain fun x hx ↦ ?_
  obtain ⟨c, hc, rfl⟩ := List.mem_map.mp hx
  have hkey := h c hc
  refine ⟨⟨?_, ?_, ?_⟩, nofun, fun _ ↦ hkey⟩
  all_goals
    rintro rfl
    exact absurd hkey (by decide)

end IsSound

/-! ## Trimming and joining -/

theorem chars_dropWhile (p : Char → Bool) (s : List Sign) :
    chars (s.dropWhile fun x ↦ p x.char) = (chars s).dropWhile p :=
  List.dropWhile_map.symm

theorem chars_reverse (s : List Sign) : chars s.reverse = (chars s).reverse := List.map_reverse

section

variable {p : Char → Bool} (hp : ∀ c, p c = true → isBlank c = true)

include hp

theorem exists_dropEndWhile (s : List Sign) :
    ∃ t, IsTrimmed s t ∧ chars t = dropEndWhile p (chars s) := by
  refine ⟨(s.reverse.dropWhile fun x ↦ p x.char).reverse, ⟨[],
    (s.reverse.takeWhile fun x ↦ p x.char).reverse, ?_, nofun, fun x hx ↦ ?_⟩, ?_⟩
  · rw [List.nil_append, ← List.reverse_append, List.takeWhile_append_dropWhile,
      List.reverse_reverse]
  · have hx := List.mem_takeWhile_imp (List.mem_reverse.mp hx)
    exact hp _ hx
  · rw [chars_reverse, chars_dropWhile, chars_reverse, dropEndWhile]

theorem exists_trim (s : List Sign) : ∃ t, IsTrimmed s t ∧ chars t = trim p (chars s) := by
  obtain ⟨t, ⟨before, after, hs, hbefore, hafter⟩, ht⟩ :=
    exists_dropEndWhile hp (s.dropWhile fun x ↦ p x.char)
  refine ⟨t, ⟨(s.takeWhile fun x ↦ p x.char) ++ before, after, ?_, ?_, hafter⟩, ?_⟩
  · rw [List.append_assoc, ← hs, List.takeWhile_append_dropWhile]
  · refine List.forall_mem_append.mpr ⟨fun x hx ↦ ?_, hbefore⟩
    have hx := List.mem_takeWhile_imp hx
    exact hp _ hx
  · rw [ht, chars_dropWhile, trim]

end

theorem exists_strip (s : List Sign) : ∃ t, IsTrimmed s t ∧ textOf t = strip (textOf s) := by
  obtain ⟨t, hst, ht⟩ := exists_trim (fun _ ↦ id) s
  exact ⟨t, hst, by rw [textOf, ht, strip, toList_textOf]⟩

theorem exists_stripEnd (s : List Sign) : ∃ t, IsTrimmed s t ∧ textOf t = stripEnd (textOf s) := by
  obtain ⟨t, hst, ht⟩ := exists_dropEndWhile (fun _ ↦ id) s
  exact ⟨t, hst, by rw [textOf, ht, stripEnd, toList_textOf]⟩

theorem isBlank_of_isNewline (c : Char) (h : isNewline c = true) : isBlank c = true := by
  rw [isNewline, beq_iff_eq] at h
  rw [h]
  rfl

theorem exists_stripNewlines (s : List Sign) :
    ∃ t, IsTrimmed s t ∧ textOf t = stripNewlines (textOf s) := by
  obtain ⟨t, hst, ht⟩ := exists_trim isBlank_of_isNewline s
  exact ⟨t, hst, by rw [textOf, ht, stripNewlines, toList_textOf]⟩

theorem textOf_intercalate (separator : List Sign) (ts : List (List Sign)) :
    textOf (separator.intercalate ts) = String.intercalate (textOf separator) (ts.map textOf) := by
  induction ts with
  | nil => rfl
  | cons t ts ih =>
    cases ts with
    | nil => simp
    | cons u ts =>
      rw [List.intercalate_cons_cons, textOf_append, textOf_append, ih, List.map_cons,
        List.map_cons, List.map_cons, String.intercalate_cons_cons, String.append_assoc]

/-- The format of a command with a place for its argument. -/
theorem fill_command {name : String} (h : '%' ∉ name.toList) (t : String) :
    fill (command name "%s") t = command name t := by
  have hcut : ∀ cs : List Char, '%' ∉ cs → ∀ rest,
      cut? ['%', 's'] (cs ++ '%' :: 's' :: rest) = some (cs, rest) := by
    intro cs hcs rest
    induction cs with
    | nil => rfl
    | cons c cs ih =>
      obtain ⟨hc, hcs⟩ := List.ne_and_not_mem_of_not_mem_cons hcs
      have hno : ['%', 's'].isPrefixOf (c :: (cs ++ '%' :: 's' :: rest)) = false := by
        simp [List.isPrefixOf, hc]
      rw [List.cons_append, cut?, hno, if_neg Bool.false_ne_true, ih hcs]
      rfl
  have hself : (command name "%s").toList =
      (('\\' :: name.toList) ++ ['{']) ++ '%' :: 's' :: ['}'] := by
    simp [command, braced, String.toList_append]
  have hname : '%' ∉ ('\\' :: name.toList) ++ ['{'] := by simp [h]
  rw [fill, hself, hcut _ hname]
  apply String.toList_inj.mp
  simp [command, braced, String.toList_append]

end Typeset.Latex

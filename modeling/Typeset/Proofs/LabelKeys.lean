import Typeset.Latex.Link
import Typeset.Proofs.Latex.Marked
import Typeset.Proofs.References
import Typeset.Unicode.Alphanumeric

/-!
# Keys in labels

Labels are made of ASCII letters, digits and four signs, whatever script their keys are in. So a
label is read as it is written, wherever a command defines it or refers to it, and needs no escapes.
-/

namespace Typeset

namespace Latex

open Unicode

variable {cs : List Char} {c : Char}

/-! ## What keys are -/

/-- An ASCII letter or digit, or one of the four signs that labels may have. -/
def IsLabelChar (c : Char) : Prop := c.isAlphanum = true ∨ c ∈ ['_', ':', '.', '-']

instance (c : Char) : Decidable (IsLabelChar c) := inferInstanceAs (Decidable (_ ∨ _))

theorem isKeyChar_iff (c : Char) : isKeyChar c = true ↔ IsLabelChar c := by
  simp [isKeyChar, IsLabelChar, or_assoc]

/-- A text that is a key as it stands: its characters are those that labels may have, and it neither
begins nor ends with a hyphen. -/
structure IsTrimmedKey (key : String) : Prop where
  chars : ∀ c ∈ key.toList, IsLabelChar c
  head : key.toList.head? ≠ some '-'
  last : key.toList.getLast? ≠ some '-'

theorem any_hyphen_eq_false_iff {o : Option Char} : o.any (· == '-') = false ↔ o ≠ some '-' := by
  cases o <;> simp

theorem isTrimmedKey_labelKey (key : String) : IsTrimmedKey (labelKey key) where
  chars c hc := (isKeyChar_iff c).mp (isKey_labelKey key c hc)
  head := by
    rw [labelKey, String.toList_ofList, keyChars]
    exact any_hyphen_eq_false_iff.mp (Text.any_head?_trim _ _)
  last := by
    rw [labelKey, String.toList_ofList, keyChars]
    exact any_hyphen_eq_false_iff.mp (Text.any_getLast?_trim _ _)

/-- The texts that stay as they are when they are made keys are the keys. -/
theorem labelKey_eq_self_iff (key : String) : labelKey key = key ↔ IsTrimmedKey key := by
  constructor
  · intro h
    exact h ▸ isTrimmedKey_labelKey key
  · intro h
    exact labelKey_eq_self (fun c hc ↦ (isKeyChar_iff c).mpr (h.chars c hc))
      (any_hyphen_eq_false_iff.mpr h.head) (any_hyphen_eq_false_iff.mpr h.last)

/-- A text of characters that labels may not have, at least one of them. -/
structure IsOtherRun (run : String) : Prop where
  ne_empty : run ≠ ""
  others : ∀ c ∈ run.toList, ¬ IsLabelChar c

instance (run : String) : Decidable (IsOtherRun run) :=
  -- Looking at the characters of the run, not at all characters.
  have : Decidable (∀ c ∈ run.toList, ¬ IsLabelChar c) := List.decidableBAll ..
  decidable_of_iff (run ≠ "" ∧ ∀ c ∈ run.toList, ¬ IsLabelChar c)
    ⟨fun h ↦ ⟨h.1, h.2⟩, fun h ↦ ⟨h.1, h.2⟩⟩

/-- A run between two texts that do not make it longer. -/
structure IsMaximalRun (before run behind : String) : Prop extends IsOtherRun run where
  before : ∀ c ∈ before.toList.getLast?, IsLabelChar c
  behind : ∀ c ∈ behind.toList.head?, IsLabelChar c

namespace IsOtherRun

variable {run run' : String}

theorem toList_ne_nil (h : IsOtherRun run) : run.toList ≠ [] :=
  fun hnil ↦ h.ne_empty (String.toList_eq_nil_iff.mp hnil)

theorem isKeyChar_eq_false (h : IsOtherRun run) (c : Char) (hc : c ∈ run.toList) :
    isKeyChar c = false :=
  Bool.eq_false_iff.mpr fun hkey ↦ h.others c hc ((isKeyChar_iff c).mp hkey)

/-- One run can stand for another. -/
theorem labelKey_eq (h : IsOtherRun run) (h' : IsOtherRun run') (before behind : String) :
    labelKey (before ++ run ++ behind) = labelKey (before ++ run' ++ behind) := by
  refine labelKey_congr ?_
  simp only [String.toList_append, List.append_assoc]
  refine joinUnsafe_append_congr (fun inRun ↦ ?_) false before.toList
  rw [joinUnsafe_run_append h.toList_ne_nil h.isKeyChar_eq_false,
    joinUnsafe_run_append h'.toList_ne_nil h'.isKeyChar_eq_false]

end IsOtherRun

/-- A hyphen can stand for a run that is as long as it can be. -/
theorem IsMaximalRun.labelKey_eq {before run behind : String} (h : IsMaximalRun before run behind) :
    labelKey (before ++ run ++ behind) = labelKey (before ++ "-" ++ behind) := by
  refine labelKey_congr ?_
  rw [String.toList_append, String.toList_append, List.append_assoc, String.toList_append,
    String.toList_append, List.append_assoc]
  exact joinUnsafe_maximal_run h.toList_ne_nil h.isKeyChar_eq_false
    (fun c hc ↦ (isKeyChar_iff c).mpr (h.before c hc))
    (fun c hc ↦ (isKeyChar_iff c).mpr (h.behind c hc))

/-! ## Arguments -/

/-- How many braces are open behind a character, if it closes none that is not. -/
def depthBehind? : Nat → Char → Option Nat
  | depth, '{' => some (depth + 1)
  | depth, '}' => if depth = 0 then none else some (depth - 1)
  | depth, _ => some depth

/-- An argument up to the sign that ends it, and the text behind that sign. A backslash takes the
character behind it with it, and no argument ends while braces are open. -/
def argumentUpTo? (close : Char) : Nat → List Char → Option (List Char × List Char)
  | _, [] => none
  | depth, '\\' :: c :: cs => (argumentUpTo? close depth cs).map (.map ('\\' :: c :: ·) id)
  | depth, c :: cs =>
    if depth = 0 ∧ c = close then some ([], cs)
    else (depthBehind? depth c).bind fun depth ↦
      (argumentUpTo? close depth cs).map (.map (c :: ·) id)

/-- The first argument of the command that a text begins with, in braces or in brackets, and the
text behind it. -/
def firstArgument? : List Char → Option (List Char × List Char)
  | '\\' :: cs =>
    match cs.dropWhile Char.isAlpha with
    | '{' :: cs => argumentUpTo? '}' 0 cs
    | '[' :: cs => argumentUpTo? ']' 0 cs
    | _ => none
  | _ => none

theorem argumentUpTo?_cons {close : Char} (hc : c ≠ '\\') (hopen : c ≠ '{') (hclose : c ≠ '}')
    (hend : c ≠ close) (cs : List Char) :
    argumentUpTo? close 0 (c :: cs) = (argumentUpTo? close 0 cs).map (.map (c :: ·) id) := by
  have hdepth : depthBehind? 0 c = some 0 := by
    unfold depthBehind?
    split
    · exact absurd rfl hopen
    · exact absurd rfl hclose
    · rfl
  rw [argumentUpTo?, if_neg fun h ↦ hend h.2, hdepth, Option.bind_some]
  exact fun d ds heq _ ↦ hc heq

/-- An argument of characters that labels may have ends with the first sign that can end it. -/
theorem argumentUpTo?_append {close : Char} (hclose : close ≠ '\\') (hend : ¬ IsLabelChar close)
    (h : ∀ c ∈ cs, IsLabelChar c) (ds : List Char) :
    argumentUpTo? close 0 (cs ++ close :: ds) = some (cs, ds) := by
  induction cs with
  | nil =>
    rw [List.nil_append, argumentUpTo?, if_pos ⟨rfl, rfl⟩]
    exact fun d ds heq _ ↦ hclose heq
  | cons c cs ih =>
    -- A character that labels may have ends nothing and opens nothing.
    have hc : ∀ d, ¬ IsLabelChar d → c ≠ d := by
      rintro d hd rfl
      exact hd (h c List.mem_cons_self)
    rw [List.cons_append, argumentUpTo?_cons (hc _ (by decide)) (hc _ (by decide))
      (hc _ (by decide)) (hc _ hend), ih fun d hd ↦ h d (.tail _ hd)]
    rfl

/-- The name of a command has no part in its arguments. -/
theorem firstArgument?_name {name : List Char} (hname : name.all Char.isAlpha = true)
    (cs : List Char) : firstArgument? ('\\' :: (name ++ cs)) = firstArgument? ('\\' :: cs) := by
  rw [firstArgument?, firstArgument?, List.dropWhile_append_of_pos (List.all_eq_true.mp hname)]

theorem firstArgument?_command {key : String} (h : ∀ c ∈ key.toList, IsLabelChar c) (name : String)
    (hname : name.toList.all Char.isAlpha = true) (rest : String) :
    firstArgument? (command name key ++ rest).toList = some (key.toList, rest.toList) := by
  have hself : (command name key ++ rest).toList =
      '\\' :: (name.toList ++ '{' :: (key.toList ++ '}' :: rest.toList)) := by
    simp [command, braced]
  rw [hself, firstArgument?_name hname]
  exact argumentUpTo?_append (by decide) (by decide) h rest.toList

/-- The key stands for itself: the commands that define it and those that refer to it read it as it
is written and leave alone what is behind it. None of its characters is blank, and none is one that
TeX takes for more than itself, except for underscores, which do no harm in the name of a label. -/
structure StandsUnescaped (key : String) : Prop where
  defined (rest : String) :
    firstArgument? (labelCommand key ++ rest).toList = some (key.toList, rest.toList)
  referred (target : Node) (rest : String) :
    firstArgument? (internalLink target key "" ++ rest).toList = some (key.toList, rest.toList)
  described (target : Node) {description : String} (rest : String) : description ≠ "" →
    firstArgument? (internalLink target key description ++ rest).toList =
      some (key.toList, (braced description ++ rest).toList)
  unblank : ∀ c ∈ key.toList, isBlank c = false
  unspecial : ∀ c ∈ key.toList, c ∈ specials → c = '_'

theorem standsUnescaped_of_chars {key : String} (h : ∀ c ∈ key.toList, IsLabelChar c) :
    StandsUnescaped key where
  defined := firstArgument?_command h "label" (by decide)
  referred target rest := by
    -- Only numbered formulas are referred to by another command.
    have href := firstArgument?_command h "ref" (by decide) rest
    have heqref := firstArgument?_command h "eqref" (by decide) rest
    unfold internalLink
    rw [if_neg (by simp)]
    split
    · split
      · exact heqref
      · exact href
    · exact href
  described target description rest hne := by
    have hself : (internalLink target key description ++ rest).toList =
        '\\' :: ("hyperref".toList ++ '[' ::
          (key.toList ++ ']' :: (braced description ++ rest).toList)) := by
      unfold internalLink
      rw [if_pos (by simpa using hne)]
      simp
    rw [hself, firstArgument?_name (by decide)]
    exact argumentUpTo?_append (by decide) (by decide) h _
  unblank c hc := by
    have hsigns : ['_', ':', '.', '-'].all (!isBlank ·) = true := by decide
    rcases h c hc with halnum | hsign
    · exact isBlank_eq_false_of_isAlphanum halnum
    · simpa using List.all_eq_true.mp hsigns c hsign
  unspecial c hc hspecial := eq_underscore_of_isKeyChar hspecial ((isKeyChar_iff c).mpr (h c hc))

end Latex

open Latex

namespace References

/-! ## Labels -/

/-- A node whose fields are of their types gets a label if it has a key or is made to have one. -/
theorem exists_label?_eq (r : References) {o : Occurrence} (ho : o.node.isProper = true)
    (force : Bool) : ∃ label r', r.label? o force = .ok (label, r') ∧
      (force = true ∨ o.node.explicitKey.isSome = true → label.isSome = true) := by
  refine ⟨(r.label o force).1, (r.label o force).2, ?_, isSome_fst_label⟩
  rw [label?, Node.labelFault?_eq_none ho]

/-- The labels that nodes get are made of the characters that labels may have. -/
theorem chars_of_label?_eq {r r' : References} {o : Occurrence} {force : Bool} {label : String}
    (h : r.label? o force = .ok (some label, r')) : ∀ c ∈ label.toList, IsLabelChar c := by
  have hlabel : (r.label o force).1 = some label := by
    unfold label? at h
    split at h
    · cases h
    · rw [Except.ok.inj h]
  exact fun c hc ↦ (isKeyChar_iff c).mp (isKey_label hlabel c hc)

/-- What any text is when it is made a key has only ASCII letters, digits and the four signs, and no
hyphens at its ends. Exactly the texts that are like that stay as they are, so making a key once
more changes nothing. A run of other characters can give way to any other such run, and to a hyphen
if it is as long as it can be; hyphens at the ends do not count. Whatever references there are, a
node with fields of their types gets a label if it has a key of its own or is made to have one, and
every label that any node gets has only those characters and stands for itself where a command
defines it or refers to it. -/
theorem labels_stand_unescaped :
    (∀ key : String, IsTrimmedKey (labelKey key)) ∧
      (∀ key : String, labelKey key = key ↔ IsTrimmedKey key) ∧
      (∀ key : String, labelKey (labelKey key) = labelKey key) ∧
      (∀ before run run' behind : String, IsOtherRun run → IsOtherRun run' →
        labelKey (before ++ run ++ behind) = labelKey (before ++ run' ++ behind)) ∧
      (∀ before run behind : String, IsMaximalRun before run behind →
        labelKey (before ++ run ++ behind) = labelKey (before ++ "-" ++ behind)) ∧
      (∀ key : String, labelKey ("-" ++ key) = labelKey key ∧
        labelKey (key ++ "-") = labelKey key) ∧
      (∀ (r : References) (o : Occurrence) (force : Bool), o.node.isProper = true →
        ∃ label r', r.label? o force = .ok (label, r') ∧
          (force = true ∨ o.node.explicitKey.isSome = true → label.isSome = true)) ∧
      ∀ (r r' : References) (o : Occurrence) (force : Bool) (label : String),
        r.label? o force = .ok (some label, r') →
          (∀ c ∈ label.toList, IsLabelChar c) ∧ StandsUnescaped label := by
  refine ⟨isTrimmedKey_labelKey, labelKey_eq_self_iff, fun key ↦ ?_,
    fun before run run' behind h h' ↦ h.labelKey_eq h' before behind,
    fun before run behind h ↦ h.labelKey_eq,
    fun key ↦ ⟨labelKey_hyphen_append key, labelKey_append_hyphen key⟩,
    fun r o force ho ↦ exists_label?_eq r ho force, fun r r' o force label h ↦ ?_⟩
  · exact (labelKey_eq_self_iff _).mpr (isTrimmedKey_labelKey key)
  · have hchars := chars_of_label?_eq h
    exact ⟨hchars, standsUnescaped_of_chars hchars⟩

/-- A block with a name that is not all ASCII. -/
def namedQuote : Occurrence :=
  ⟨.ofRoot 0, ⟨⟨.unknown, 0, some "(Größe α_1)", [], .quoteBlock, []⟩, [], [], none, none⟩⟩

theorem labels_stand_unescaped_quote :
    IsTrimmedKey "Gr-e-_1" ∧ labelKey "Gr-e-_1" = "Gr-e-_1" ∧
      labelKey "(Größe α_1)" = labelKey "(Gr#e α_1)" ∧
      labelKey "Größe" = labelKey "Gr-e" ∧
      (∃ label r', References.empty.label? namedQuote false = .ok (label, r') ∧
        label.isSome = true) ∧
      References.empty.label? namedQuote false = .ok (some "Gr-e-_1", .empty) ∧
      StandsUnescaped "Gr-e-_1" := by
  obtain ⟨htrimmed, hself, -, hruns, hhyphen, -, hlabels, hstands⟩ := labels_stand_unescaped
  have hkey : labelKey "(Größe α_1)" = "Gr-e-_1" := by decide
  have hmaximal : IsMaximalRun "Gr" "öß" "e" := by
    refine ⟨by decide, fun c hc ↦ ?_, fun c hc ↦ ?_⟩
    · obtain rfl : 'r' = c := Option.some.inj hc
      decide
    · obtain rfl : 'e' = c := Option.some.inj hc
      decide
  have hlabel : References.empty.label? namedQuote false = .ok (some "Gr-e-_1", .empty) := rfl
  obtain ⟨label, r', hrun, hsome⟩ := hlabels .empty namedQuote false (by decide)
  refine ⟨hkey ▸ htrimmed _, (hself _).mpr (hkey ▸ htrimmed _),
    hruns "(Gr" "öß" "#" "e α_1)" (by decide) (by decide), hhyphen "Gr" "öß" "e" hmaximal,
    ⟨label, r', hrun, hsome (.inr rfl)⟩, hlabel, ?_⟩
  exact (hstands _ _ _ _ _ hlabel).2

end References

end Typeset

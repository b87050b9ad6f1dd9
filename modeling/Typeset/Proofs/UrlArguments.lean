import Typeset.Document
import Typeset.Proofs.Latex.Reading
import Typeset.Proofs.Render.Parts
import Typeset.Proofs.Tree.Prepared

/-!
# Arguments of URL commands

The address of an external link is escaped with backslashes only, and so it can be read back. Signs
of comments and parameters never stand for themselves in it. Braces do, so an argument holds
together just if the braces of its address match.
-/

namespace Typeset

namespace Latex

variable {c : Char} {cs : List Char}

/-- The characters that are escaped in a URL. -/
def urlSigns : List Char := ['%', '#', '\\']

/-- The text behind an argument: a backslash gives way to the character behind it, and there has to
be one. -/
def unescapeUrl : List Char → Option (List Char)
  | [] => some []
  | [c] => if c = '\\' then none else some [c]
  | c :: d :: cs =>
    if c = '\\' then (unescapeUrl cs).map (d :: ·) else (unescapeUrl (d :: cs)).map (c :: ·)

theorem unescapeUrl_cons (hc : c ≠ '\\') (cs : List Char) :
    unescapeUrl (c :: cs) = (unescapeUrl cs).map (c :: ·) := by
  cases cs with
  | nil => exact if_neg hc
  | cons d cs => exact if_neg hc

theorem unescapeUrl_backslash (c : Char) (cs : List Char) :
    unescapeUrl ('\\' :: c :: cs) = (unescapeUrl cs).map (c :: ·) := by
  rw [unescapeUrl, if_pos rfl]

/-- A character is escaped with a backslash, or it stands for itself. -/
theorem escapeUrlChar_cases (c : Char) :
    (c ∈ urlSigns ∧ escapeUrlChar c = ['\\', c]) ∨ (c ∉ urlSigns ∧ escapeUrlChar c = [c]) := by
  unfold escapeUrlChar
  split
  case h_4 hpercent hhash hbackslash =>
    refine .inr ⟨?_, rfl⟩
    simpa [urlSigns] using
      (⟨hpercent, hhash, hbackslash⟩ : ¬ c = '%' ∧ ¬ c = '#' ∧ ¬ c = '\\')
  all_goals exact .inl (by decide)

theorem ne_backslash_of_notMem (hc : c ∉ urlSigns) : c ≠ '\\' := by
  rintro rfl
  exact hc (by decide)

/-- What is escaped is read back. -/
theorem unescapeUrl_flatMap (cs : List Char) :
    unescapeUrl (cs.flatMap escapeUrlChar) = some cs := by
  induction cs with
  | nil => rfl
  | cons c cs ih =>
    rw [List.flatMap_cons]
    rcases escapeUrlChar_cases c with ⟨-, heq⟩ | ⟨hc, heq⟩
    · rw [heq, List.cons_append, List.singleton_append, unescapeUrl_backslash, ih, Option.map_some]
    · rw [heq, List.singleton_append, unescapeUrl_cons (ne_backslash_of_notMem hc), ih,
        Option.map_some]

/-- What TeX sees of a character of an address: the backslash in front of it, or itself. -/
def seenOf (c : Char) : Char := if c ∈ urlSigns then '\\' else c

theorem bare_flatMap_escapeUrlChar (cs : List Char) :
    bare id (cs.flatMap escapeUrlChar) = cs.map seenOf := by
  induction cs with
  | nil => rfl
  | cons c cs ih =>
    rw [List.flatMap_cons, List.map_cons, seenOf]
    rcases escapeUrlChar_cases c with ⟨hc, heq⟩ | ⟨hc, heq⟩
    · have hbackslash : id '\\' = '\\' := rfl
      rw [heq, if_pos hc, List.cons_append, List.singleton_append, bare_cons_cons id hbackslash, ih]
    · rw [heq, if_neg hc, List.singleton_append, bare_cons id (ne_backslash_of_notMem hc), ih]

theorem seenOf_eq_iff (hc : c ∉ urlSigns) (hne : c ≠ '\\') (d : Char) : seenOf d = c ↔ d = c := by
  rw [seenOf]
  split
  · next hd =>
    refine iff_of_false hne.symm ?_
    rintro rfl
    exact hc hd
  · exact Iff.rfl

/-- Neither a comment nor a parameter begins among the characters that are seen. -/
theorem seenOf_ne (c : Char) : seenOf c ≠ '%' ∧ seenOf c ≠ '#' := by
  rw [seenOf]
  split
  · decide
  · next hc =>
    constructor
    all_goals
      rintro rfl
      exact hc (by decide)

theorem count_map_eq {f : Char → Char} {d : Char} (hf : ∀ c, f c = d ↔ c = d) (cs : List Char) :
    (cs.map f).count d = cs.count d := by
  rw [List.count_eq_countP, List.count_eq_countP, List.countP_map]
  refine List.countP_congr fun c _ ↦ ?_
  simp [hf c]

/-- Changes that no brace takes part in keep texts balanced or not. -/
theorem isBalanced_map_iff {f : Char → Char} (hopen : ∀ c, f c = '{' ↔ c = '{')
    (hclose : ∀ c, f c = '}' ↔ c = '}') : IsBalanced (cs.map f) ↔ IsBalanced cs := by
  constructor
  · intro h
    refine ⟨fun before hbefore ↦ ?_, ?_⟩
    · have hsane := h.sane _ (hbefore.map f)
      rwa [count_map_eq hopen, count_map_eq hclose] at hsane
    · have hsettled := h.settled
      rwa [count_map_eq hopen, count_map_eq hclose] at hsettled
  · intro h
    refine ⟨fun before hbefore ↦ ?_, ?_⟩
    · obtain ⟨source, hsource, rfl⟩ := List.prefix_map_iff.mp hbefore
      rw [count_map_eq hopen, count_map_eq hclose]
      exact h.sane source hsource
    · rw [count_map_eq hopen, count_map_eq hclose]
      exact h.settled

theorem unescapeUrl_escapeUrl (u : String) : unescapeUrl (escapeUrl u).toList = some u.toList := by
  rw [escapeUrl, String.toList_ofList]
  exact unescapeUrl_flatMap u.toList

theorem bare_escapeUrl (u : String) : bare id (escapeUrl u).toList = u.toList.map seenOf := by
  rw [escapeUrl, String.toList_ofList]
  exact bare_flatMap_escapeUrlChar u.toList

/-- The argument of a URL command is balanced just if the address is. -/
theorem isBalanced_escapeUrl_iff (u : String) :
    IsBalanced (bare id (escapeUrl u).toList) ↔ IsBalanced u.toList := by
  rw [bare_escapeUrl]
  exact isBalanced_map_iff (seenOf_eq_iff (by decide) (by decide))
    (seenOf_eq_iff (by decide) (by decide))

end Latex

namespace Render

open Latex

variable {config : Config} {o : Occurrence} {kind path : String}

/-- A link of an external kind prints a URL command. -/
theorem link_external (hproper : o.node.isProper = true) (hcode : kind ≠ "coderef")
    (hinternal : kind ∉ internalKinds) (himage : o.node.isImageLink = false) (contents : String)
    (c : Context) :
    link config o kind path contents c =
      (.ok (externalLink kind path (Text.strip contents)), c) := by
  have hcontains : internalKinds.contains kind = false := by simpa using hinternal
  unfold link
  rw [if_neg hcode, hcontains, if_neg Bool.false_ne_true, Node.imageLinkFault?_eq_none hproper,
    himage, Node.loose?_eq_none hproper]
  rfl

/-- The argument that an external link prints is read back as its address, so different addresses
have different arguments, and no comment or parameter begins in it. Its braces are those of the
address, so it ends where it should just if the braces of the address match. -/
theorem url_arguments_keep_the_braces (hproper : o.node.isProper = true) (hcode : kind ≠ "coderef")
    (hinternal : kind ∉ internalKinds) (himage : o.node.isImageLink = false) (contents : String)
    (c : Context) :
    ∃ argument : String,
      link config o kind path contents c =
        (.ok (if (Text.strip contents).isEmpty then command "url" argument
          else command "href" argument ++ braced (Text.strip contents)), c) ∧
      unescapeUrl argument.toList = some (address kind path).toList ∧
      (∀ s ∈ bare id argument.toList, s ≠ '%' ∧ s ≠ '#') ∧
      (IsBalanced (bare id argument.toList) ↔ IsBalanced (address kind path).toList) := by
  refine ⟨escapeUrl (address kind path), link_external hproper hcode hinternal himage contents c,
    unescapeUrl_escapeUrl _, ?_, isBalanced_escapeUrl_iff _⟩
  rw [bare_escapeUrl]
  intro s hs
  obtain ⟨d, -, rfl⟩ := List.mem_map.mp hs
  exact seenOf_ne d

/-- A link without a description. -/
def bareLink (kind path : String) : Node := .inline .unknown 0 (.link kind path) []

/-- A percent sign is escaped, and matching braces stay as they are. -/
theorem url_arguments_keep_the_braces_template :
    ∃ argument : String,
      (link .default ⟨.ofRoot 0, bareLink "https" "%20\x7bb\x7d"⟩ "https" "%20\x7bb\x7d" ""
        .empty).1 = .ok (command "url" argument) ∧
      unescapeUrl argument.toList = some "https:%20\x7bb\x7d".toList ∧
      IsBalanced (bare id argument.toList) := by
  obtain ⟨argument, hrun, hread, -, hbalanced⟩ := @url_arguments_keep_the_braces .default
    ⟨.ofRoot 0, bareLink "https" "%20\x7bb\x7d"⟩ "https" "%20\x7bb\x7d" (by decide) (by decide)
    (by decide) (by decide) "" .empty
  refine ⟨argument, ?_, hread, hbalanced.mpr ?_⟩
  · rw [hrun]
    rfl
  · have haddress : (address "https" "%20\x7bb\x7d").toList =
        "https:%20".toList ++ '{' :: (['b'] ++ ['}']) := by decide
    rw [haddress]
    exact (IsBalanced.of_notMem (by decide) (by decide)).append
      (@IsBalanced.of_notMem ['b'] (by decide) (by decide)).group

/-- A document of one link. -/
def linkDocument (kind path : String) : Node :=
  ⟨⟨.unknown, 0, none, [], .document [], []⟩,
    [⟨⟨.unknown, 0, none, [], .paragraph, []⟩, [bareLink kind path], [], none, none⟩], [], none,
    none⟩

/-- A closing brace in a path ends the argument before the address ends. -/
theorem closing_brace_ends_argument :
    (linkDocument "https" "a\x7db").isWellTyped = true ∧
      typeset .default (linkDocument "https" "a\x7db") =
        .ok ⟨command "url" "https:a\x7db" ++ "\n", []⟩ ∧
      ¬ IsBalanced (bare id "https:a\x7db".toList) := by
  refine ⟨by decide, eq_ok_of_toOption (by decide +kernel), fun h ↦ ?_⟩
  exact absurd h.settled (by decide)

end Render

end Typeset

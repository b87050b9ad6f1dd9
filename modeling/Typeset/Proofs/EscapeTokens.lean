import Typeset.Proofs.Latex.Signs

/-!
# Escapes can be read back

An escaped text is made of ordinary characters and of whole tokens, each of which stands for some
characters of the text. No token begins with another one, so a decoder that goes over an escaped
text from left to right gives the text back. Escaping the characters first and the ellipses then is
the same as escaping both in one pass, since no token has dots of its own.
-/

namespace Typeset.Latex

/-- What is written for some characters of a text. -/
structure Token where
  source : List Char
  written : List Char
deriving DecidableEq, Repr

/-- The characters that are never written as they are. -/
def reserved : List Char := ['\\', '{', '}', '$', '&', '#', '%', '_', '~', '^']

/-- The tokens for reserved characters. -/
def signTokens : List Token :=
  [⟨['\\'], "\\textbackslash{}".toList⟩, ⟨['{'], ['\\', '{']⟩, ⟨['}'], ['\\', '}']⟩,
    ⟨['$'], ['\\', '$']⟩, ⟨['&'], ['\\', '&']⟩, ⟨['#'], ['\\', '#']⟩, ⟨['%'], ['\\', '%']⟩,
    ⟨['_'], ['\\', '_']⟩, ⟨['~'], "\\textasciitilde{}".toList⟩,
    ⟨['^'], "\\textasciicircum{}".toList⟩]

/-- The token for three dots. -/
def ellipsis : Token := ⟨['.', '.', '.'], "\\ldots{}".toList⟩

/-- The tokens of running text. -/
def textTokens : List Token := ellipsis :: signTokens

variable {tokens : List Token} {c : Char} {cs ds : List Char}

/-- A text is written with ordinary characters as they are and tokens for the others. -/
inductive IsWritten (tokens : List Token) : List Char → List Char → Prop
  | nil : IsWritten tokens [] []
  | ordinary {c : Char} {cs ds : List Char} : c ∉ reserved → IsWritten tokens cs ds →
      IsWritten tokens (c :: cs) (c :: ds)
  | token {k : Token} {cs ds : List Char} : k ∈ tokens → IsWritten tokens cs ds →
      IsWritten tokens (k.source ++ cs) (k.written ++ ds)

/-! ## Reading tokens -/

/-- The text behind a written one, from left to right: each token is turned into its source, and
any other character is kept. -/
def decode (tokens : List Token) : List Char → List Char
  | [] => []
  | c :: cs =>
    match tokens.find? fun k ↦ k.written.isPrefixOf (c :: cs) with
    | some k => k.source ++ decode tokens (cs.drop (k.written.length - 1))
    | none => c :: decode tokens cs
termination_by cs => cs.length
decreasing_by
  · simp only [List.length_drop, List.length_cons]
    omega
  · simp

/-- Tokens can be told apart from ordinary characters and from each other by how they begin. -/
structure AreDistinct (tokens : List Token) : Prop where
  backslash : ∀ k ∈ tokens, k.written.head? = some '\\'
  prefixFree : ∀ k ∈ tokens, ∀ k' ∈ tokens, k.written <+: k'.written → k = k'

namespace AreDistinct

theorem signTokens : AreDistinct signTokens := ⟨by decide, by decide⟩

theorem textTokens : AreDistinct textTokens := ⟨by decide, by decide⟩

/-- No token begins where an ordinary character stands. -/
theorem find?_ordinary (h : AreDistinct tokens) (hc : c ∉ reserved) (ds : List Char) :
    (tokens.find? fun k ↦ k.written.isPrefixOf (c :: ds)) = none := by
  rw [List.find?_eq_none]
  intro k hk hprefix
  obtain ⟨rest, hrest⟩ := List.isPrefixOf_iff_prefix.mp hprefix
  have hhead := h.backslash k hk
  cases hwritten : k.written with
  | nil =>
    rw [hwritten] at hhead
    cases hhead
  | cons d w =>
    rw [hwritten] at hhead hrest
    obtain rfl := Option.some.inj hhead
    obtain ⟨rfl, -⟩ := List.cons.inj hrest
    exact hc List.mem_cons_self

/-- The token that begins where a token stands is that one. -/
theorem find?_token (h : AreDistinct tokens) {k : Token} (hk : k ∈ tokens) (ds : List Char) :
    (tokens.find? fun k' ↦ k'.written.isPrefixOf (k.written ++ ds)) = some k := by
  have hself : k.written.isPrefixOf (k.written ++ ds) = true :=
    List.isPrefixOf_iff_prefix.mpr (List.prefix_append _ _)
  have hsome : (tokens.find? fun k' ↦ k'.written.isPrefixOf (k.written ++ ds)).isSome = true :=
    List.find?_isSome.mpr ⟨k, hk, hself⟩
  obtain ⟨k', hfind⟩ := Option.isSome_iff_exists.mp hsome
  have hk' := List.mem_of_find?_eq_some hfind
  have hbegins := List.find?_some hfind
  have hprefix := List.isPrefixOf_iff_prefix.mp hbegins
  have heq : k' = k := by
    rcases List.prefix_or_prefix_of_prefix hprefix (List.prefix_append k.written ds) with hin | hin
    · exact h.prefixFree k' hk' k hk hin
    · exact (h.prefixFree k hk k' hk' hin).symm
  rw [hfind, heq]

/-- What is written is read back. -/
theorem decode_eq (h : AreDistinct tokens) (hwritten : IsWritten tokens cs ds) :
    decode tokens ds = cs := by
  induction hwritten with
  | nil => rw [decode]
  | @ordinary c cs ds hc _ ih =>
    rw [decode, h.find?_ordinary hc ds]
    simp only [ih]
  | @token k cs ds hk _ ih =>
    have hhead := h.backslash k hk
    have hfind := h.find?_token hk ds
    obtain ⟨w, hw⟩ : ∃ w, k.written = '\\' :: w := by
      rwa [List.head?_eq_some_iff] at hhead
    rw [hw, List.cons_append] at hfind ⊢
    rw [decode, hfind]
    simp only [hw, List.length_cons, Nat.add_sub_cancel, List.drop_left, ih]

end AreDistinct

/-! ## Escapes are written with tokens -/

/-- A character is written as it is, or it has a token. -/
theorem escapeChar_token (c : Char) :
    (c ∉ reserved ∧ escapeChar c = [c]) ∨ ⟨[c], escapeChar c⟩ ∈ signTokens := by
  unfold escapeChar
  split
  case h_11 h₁ h₂ h₃ h₄ h₅ h₆ h₇ h₈ h₉ h₁₀ =>
    refine .inl ⟨?_, rfl⟩
    simpa [reserved] using (⟨h₁, h₂, h₃, h₄, h₅, h₆, h₇, h₈, h₉, h₁₀⟩ :
      ¬ c = '\\' ∧ ¬ c = '{' ∧ ¬ c = '}' ∧ ¬ c = '$' ∧ ¬ c = '&' ∧ ¬ c = '#' ∧ ¬ c = '%' ∧
        ¬ c = '_' ∧ ¬ c = '~' ∧ ¬ c = '^')
  all_goals exact .inr (by decide)

theorem IsWritten.escapeChar (hsub : signTokens ⊆ tokens) (h : IsWritten tokens cs ds) (c : Char) :
    IsWritten tokens (c :: cs) (escapeChar c ++ ds) := by
  rcases escapeChar_token c with ⟨hc, heq⟩ | hmem
  · rw [heq]
    exact .ordinary hc h
  · exact .token (hsub hmem) h

theorem isWritten_escapeChars (cs : List Char) : IsWritten textTokens cs (escapeChars cs) := by
  have hsub : signTokens ⊆ textTokens := List.subset_cons_self ..
  induction cs using escapeChars.induct with
  | case1 => exact .nil
  | case2 cs ih =>
    have hdots : ellipsis ∈ textTokens := List.mem_cons_self
    exact .token hdots ih
  | case3 c cs hdots ih =>
    rw [escapeChars_cons hdots]
    exact ih.escapeChar hsub c

theorem isWritten_flatMap (cs : List Char) : IsWritten signTokens cs (cs.flatMap escapeChar) := by
  induction cs with
  | nil => exact .nil
  | cons c cs ih => exact ih.escapeChar (List.Subset.refl _) c

/-! ## Ellipses after the other escapes -/

/-- Each three dots in a row made an ellipsis, from left to right. -/
def ellipses : List Char → List Char
  | [] => []
  | '.' :: '.' :: '.' :: cs => ellipsis.written ++ ellipses cs
  | c :: cs => c :: ellipses cs

theorem ellipses_cons (h : ∀ ds, c = '.' → cs = '.' :: '.' :: ds → False) :
    ellipses (c :: cs) = c :: ellipses cs := by
  rw [ellipses]
  exact h

/-- What has no dots is left alone. -/
theorem ellipses_append_of_notMem (h : '.' ∉ cs) (ds : List Char) :
    ellipses (cs ++ ds) = cs ++ ellipses ds := by
  induction cs with
  | nil => rfl
  | cons c cs ih =>
    obtain ⟨hc, hcs⟩ := List.ne_and_not_mem_of_not_mem_cons h
    rw [List.cons_append, ellipses_cons fun _ heq _ ↦ hc heq.symm, ih hcs, List.cons_append]

/-- Only a dot is written with a dot. -/
theorem eq_cons_of_flatMap_escapeChar (h : cs.flatMap escapeChar = '.' :: ds) :
    ∃ rest, cs = '.' :: rest ∧ rest.flatMap escapeChar = ds := by
  cases cs with
  | nil => cases h
  | cons c cs =>
    rw [List.flatMap_cons] at h
    rcases escapeChar_token c with ⟨-, heq⟩ | hmem
    · rw [heq] at h
      obtain ⟨rfl, hrest⟩ := List.cons.inj h
      exact ⟨cs, rfl, hrest⟩
    · have hhead := AreDistinct.signTokens.backslash _ hmem
      obtain ⟨w, hw⟩ := List.head?_eq_some_iff.mp hhead
      dsimp only at hw
      rw [hw] at h
      cases h

/-- Making ellipses touches nothing that the other escapes wrote. -/
theorem ellipses_flatMap_escapeChar (cs : List Char) :
    ellipses (cs.flatMap escapeChar) = escapeChars cs := by
  induction cs using escapeChars.induct with
  | case1 => rfl
  | case2 cs ih =>
    have hdots : ('.' :: '.' :: '.' :: cs).flatMap escapeChar =
        '.' :: '.' :: '.' :: cs.flatMap escapeChar := rfl
    rw [hdots, ellipses, ih]
    rfl
  | case3 c cs hdots ih =>
    rw [escapeChars_cons hdots, List.flatMap_cons]
    rcases escapeChar_token c with ⟨-, heq⟩ | hmem
    · rw [heq, List.singleton_append, List.singleton_append, ellipses_cons, ih]
      rintro ds rfl htwo
      obtain ⟨rest, rfl, hone⟩ := eq_cons_of_flatMap_escapeChar htwo
      obtain ⟨rest, rfl, -⟩ := eq_cons_of_flatMap_escapeChar hone
      exact hdots rest rfl rfl
    · have hplain : ∀ k ∈ signTokens, '.' ∉ k.written := by decide
      rw [ellipses_append_of_notMem (hplain _ hmem), ih]

/-- Escaped texts and escaped code are made of ordinary characters and whole tokens, and one decoder
gives the texts back, so different texts are escaped differently. Braces that are not escaped match,
and running text can be escaped in two steps. -/
theorem escapes_are_read_back :
    (∀ t : String, IsWritten textTokens t.toList (escapeText t).toList ∧
      decode textTokens (escapeText t).toList = t.toList ∧
      IsBalanced (bare id (escapeText t).toList) ∧
      (escapeText t).toList = ellipses (escapeCode t).toList) ∧
    (∀ t : String, IsWritten signTokens t.toList (escapeCode t).toList ∧
      decode signTokens (escapeCode t).toList = t.toList ∧
      IsBalanced (bare id (escapeCode t).toList)) ∧
    Function.Injective escapeText ∧ Function.Injective escapeCode := by
  have htext : ∀ t : String, IsWritten textTokens t.toList (escapeText t).toList := by
    intro t
    rw [escapeText, String.toList_ofList]
    exact isWritten_escapeChars t.toList
  have hcode : ∀ t : String, IsWritten signTokens t.toList (escapeCode t).toList := by
    intro t
    rw [escapeCode, String.toList_ofList]
    exact isWritten_flatMap t.toList
  refine ⟨fun t ↦ ⟨htext t, AreDistinct.textTokens.decode_eq (htext t), ?_, ?_⟩,
    fun t ↦ ⟨hcode t, AreDistinct.signTokens.decode_eq (hcode t), ?_⟩, ?_, ?_⟩
  · rw [← textOf_sourceSigns, toList_textOf]
    exact (IsSound.sourceSigns t.toList).isBalanced_bare
  · rw [escapeText, escapeCode, String.toList_ofList, String.toList_ofList,
      ellipses_flatMap_escapeChar]
  · rw [← textOf_codeSigns, toList_textOf]
    exact (IsSound.codeSigns t.toList).isBalanced_bare
  · intro t u heq
    have hu := AreDistinct.textTokens.decode_eq (htext u)
    rw [← heq, AreDistinct.textTokens.decode_eq (htext t)] at hu
    exact String.toList_inj.mp hu
  · intro t u heq
    have hu := AreDistinct.signTokens.decode_eq (hcode u)
    rw [← heq, AreDistinct.signTokens.decode_eq (hcode t)] at hu
    exact String.toList_inj.mp hu

end Typeset.Latex

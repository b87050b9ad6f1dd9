import Mathlib.Data.List.TakeWhile
import Typeset.Template

/-!
# The tokens of a template

Which tokens of a template are replaced depends on the template alone: from the left, each one that
does not begin inside another one that is taken already. There is one way to take a text apart like
that, and filling a template puts values in the places of those tokens and keeps all other
characters.
-/

namespace Typeset.Template

variable {cs rest name : List Char} {c : Char} {p : Piece} {ps qs : List Piece} {i : Nat}

/-- A name that a token can have: one or more capital letters. -/
def IsName (name : List Char) : Prop := name ≠ [] ∧ ∀ c ∈ name, 'A' ≤ c ∧ c ≤ 'Z'

/-- A token of the name stands in a text from an offset on, whether it is taken or not. -/
def StandsAt (cs name : List Char) (i : Nat) : Prop :=
  IsName name ∧ (Piece.token name).source <+: cs.drop i

/-- The number of characters that some pieces have in the template. -/
def extent (ps : List Piece) : Nat := (ps.flatMap Piece.source).length

/-- The pieces put together are the text, and each token that stands anywhere in it begins within a
token among the pieces, at its first character or later. So a token is left out only if it overlaps
with one that is taken and begins earlier. -/
structure Decomposes (cs : List Char) (ps : List Piece) : Prop where
  source : ps.flatMap Piece.source = cs
  isName : ∀ name, .token name ∈ ps → IsName name
  leftmost : ∀ name i, StandsAt cs name i → ∃ before taken after,
    ps = before ++ .token taken :: after ∧
      extent before ≤ i ∧ i < extent before + (Piece.token taken).source.length

/-! ## Tokens at the front -/

theorem isTokenLetter_iff : isTokenLetter c = true ↔ 'A' ≤ c ∧ c ≤ 'Z' := by
  simp [isTokenLetter]

theorem source_token (name : List Char) :
    (Piece.token name).source = '%' :: '%' :: (name ++ ['%', '%']) := rfl

theorem tokenAt?_eq_some_iff : tokenAt? cs = some name ↔ StandsAt cs name 0 := by
  constructor
  · intro h
    unfold tokenAt? at h
    split at h
    · next ds =>
      split at h
      · next l ls rest hname hend =>
        cases h
        refine ⟨⟨List.cons_ne_nil _ _, fun c hc ↦ ?_⟩, ?_⟩
        · rw [← hname] at hc
          exact isTokenLetter_iff.mp (List.mem_takeWhile_imp hc)
        · have hsplit := List.takeWhile_append_dropWhile (p := isTokenLetter) (l := ds)
          rw [hname, hend] at hsplit
          rw [List.drop_zero, ← hsplit]
          exact ⟨rest, by simp [source_token]⟩
      · cases h
    · cases h
  · rintro ⟨⟨hne, hletters⟩, rest, hrest⟩
    have hletter : ∀ c ∈ name, isTokenLetter c = true :=
      fun c hc ↦ isTokenLetter_iff.mpr (hletters c hc)
    have htake : (name ++ '%' :: '%' :: rest).takeWhile isTokenLetter = name := by
      rw [List.takeWhile_append_of_pos hletter]
      simp [isTokenLetter]
    have hdrop : (name ++ '%' :: '%' :: rest).dropWhile isTokenLetter = '%' :: '%' :: rest := by
      rw [List.dropWhile_append_of_pos hletter]
      simp [isTokenLetter]
    have hcs : cs = '%' :: '%' :: (name ++ '%' :: '%' :: rest) := by
      simpa [source_token] using hrest.symm
    obtain ⟨l, ls, rfl⟩ := List.exists_cons_of_ne_nil hne
    rw [hcs, tokenAt?, htake, hdrop]
    rfl

/-- Tokens that stand at one place have one name. -/
theorem StandsAt.unique {name' : List Char} (h : StandsAt cs name 0) (h' : StandsAt cs name' 0) :
    name = name' :=
  Option.some.inj ((tokenAt?_eq_some_iff.mpr h).symm.trans (tokenAt?_eq_some_iff.mpr h'))

theorem standsAt_append {ds : List Char} :
    StandsAt (ds ++ cs) name (ds.length + i) ↔ StandsAt cs name i := by
  rw [StandsAt, StandsAt, List.drop_append, List.drop_of_length_le (Nat.le_add_right ..),
    Nat.add_sub_cancel_left, List.nil_append]

/-- A text is read from the left: a token where one stands, and a character elsewhere. -/
inductive Reads : List Char → List Piece → Prop
  | nil : Reads [] []
  | token {name rest : List Char} {ps : List Piece} : IsName name → Reads rest ps →
      Reads ((Piece.token name).source ++ rest) (.token name :: ps)
  | literal {c : Char} {cs : List Char} {ps : List Piece} :
      (∀ name, ¬ StandsAt (c :: cs) name 0) → Reads cs ps → Reads (c :: cs) (.literal c :: ps)

theorem source_ne_nil (p : Piece) : p.source ≠ [] := by
  cases p <;> simp [Piece.source]

theorem extent_cons (p : Piece) (ps : List Piece) :
    extent (p :: ps) = p.source.length + extent ps := by
  simp [extent]

namespace Decomposes

theorem nil : Decomposes [] [] where
  source := rfl
  isName _ h := absurd h List.not_mem_nil
  leftmost name i h := by
    have := h.2
    simp [source_token] at this

/-- A piece may stand in front of others if it is a token or if no token begins there. -/
theorem cons (h : Decomposes rest ps) (hname : ∀ name, p = .token name → IsName name)
    (hliteral : ∀ c, p = .literal c → ∀ name, ¬ StandsAt (p.source ++ rest) name 0) :
    Decomposes (p.source ++ rest) (p :: ps) where
  source := by rw [List.flatMap_cons, h.source]
  isName name hmem := by
    rcases List.mem_cons.mp hmem with heq | hmem
    · exact hname name heq.symm
    · exact h.isName name hmem
  leftmost name i hstands := by
    by_cases hi : i < p.source.length
    · cases p with
      | token taken => exact ⟨[], taken, ps, rfl, Nat.zero_le _, by simpa [extent] using hi⟩
      | literal c =>
        obtain rfl : i = 0 := by simpa [Piece.source] using hi
        exact absurd hstands (hliteral c rfl name)
    · obtain ⟨j, rfl⟩ := Nat.exists_eq_add_of_le (Nat.le_of_not_lt hi)
      obtain ⟨before, taken, after, rfl, hle, hlt⟩ := h.leftmost name j (standsAt_append.mp hstands)
      refine ⟨p :: before, taken, after, rfl, ?_, ?_⟩ <;> rw [extent_cons] <;> omega

theorem tail (h : Decomposes (p.source ++ rest) (p :: ps)) : Decomposes rest ps where
  source := List.append_cancel_left (by rw [← h.source, List.flatMap_cons])
  isName name hmem := h.isName name (.tail _ hmem)
  leftmost name i hstands := by
    obtain ⟨before, taken, after, heq, hle, hlt⟩ :=
      h.leftmost name (p.source.length + i) (standsAt_append.mpr hstands)
    cases before with
    | nil =>
      -- the first piece ends in front of the token
      obtain ⟨rfl, rfl⟩ := List.cons.inj heq
      simp only [extent, List.flatMap_nil, List.length_nil] at hlt
      omega
    | cons q before =>
      obtain ⟨rfl, rfl⟩ := List.cons.inj heq
      rw [extent_cons] at hle hlt
      exact ⟨before, taken, after, rfl, by omega, by omega⟩

end Decomposes

/-- Texts by the names of their tokens. -/
def ofTexts (values : List (String × String)) : Values := values.map fun (name, t) ↦ (name, .text t)

-- The first sign is left over, and the token takes the signs that the next one would need.
example : pieces 0 "%%%A%%B%%".toList =
    [.literal '%', .token ['A'], .literal 'B', .literal '%', .literal '%'] := by
  decide

end Typeset.Template

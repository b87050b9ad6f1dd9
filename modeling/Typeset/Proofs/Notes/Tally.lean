import Mathlib.Data.List.Nodup
import Typeset.Proofs.Assoc
import Typeset.Proofs.Notes.Ledger

/-!
# The numbers of footnotes

The numbers are given one after the other, each to another key, and each together with one use that
is new. So all uses of a footnote have the number of the one that was new.
-/

namespace Typeset

open Context

/-- The numbers that have been given, and the uses of footnotes that go with them. -/
structure Tally (footnotes : List (Datum × Nat)) (us : List Use) : Prop where
  numbers : footnotes.map (·.2) = List.range' 1 footnotes.length
  keys : (footnotes.map (·.1)).Nodup
  used : ∀ u ∈ us, u.entry ∈ footnotes
  news : ((us.filter (·.isNew)).map Use.entry).Perm footnotes

namespace Tally

variable {footnotes : List (Datum × Nat)} {us vs : List Use} {u : Use}

theorem nil : Tally [] [] where
  numbers := rfl
  keys := List.nodup_nil
  used := by simp
  news := .nil

theorem perm (h : Tally footnotes us) (hperm : us.Perm vs) : Tally footnotes vs where
  numbers := h.numbers
  keys := h.keys
  used v hv := h.used v (hperm.mem_iff.mpr hv)
  news := ((hperm.filter _).map _).symm.trans h.news

/-- One more use of a footnote that has its number. -/
theorem again (h : Tally footnotes us) (hold : u.isNew = false) (hu : u.entry ∈ footnotes) :
    Tally footnotes (us ++ [u]) where
  numbers := h.numbers
  keys := h.keys
  used := by
    intro v hv
    rcases List.mem_append.mp hv with hv | hv
    · exact h.used v hv
    · rwa [List.mem_singleton.mp hv]
  news := by simpa [hold] using h.news

/-- The use with which the next number is given. -/
theorem next (h : Tally footnotes us) (hnew : u.isNew = true)
    (hkey : footnotes.lookup u.entry.1 = none) (hnumber : u.number = footnotes.length + 1) :
    Tally (footnotes ++ [u.entry]) (us ++ [u]) where
  numbers := by
    rw [List.map_append, h.numbers, List.length_append, List.length_singleton,
      ← List.range'_append_1]
    simp [Use.entry, hnumber, Nat.add_comm]
  keys := by
    rw [List.map_append, List.nodup_append]
    refine ⟨h.keys, List.nodup_singleton _, ?_⟩
    rintro k hk _ hk' rfl
    obtain ⟨e, he, rfl⟩ := List.mem_map.mp hk
    have hself : e.1 = u.entry.1 := List.mem_singleton.mp hk'
    rw [← hself, Assoc.lookup_of_mem h.keys he] at hkey
    cases hkey
  used := by
    intro v hv
    rcases List.mem_append.mp hv with hv | hv
    · exact List.mem_append_left _ (h.used v hv)
    · rw [List.mem_singleton.mp hv]
      exact List.mem_append_right _ List.mem_cons_self
  news := by
    rw [List.filter_append, List.map_append]
    refine h.news.append ?_
    simp [hnew]

/-- Each footnote that is used is used once with its number being new. -/
theorem exists_new (h : Tally footnotes us) (hu : u ∈ us) :
    ∃ v ∈ us, v.isNew = true ∧ v.entry = u.entry := by
  obtain ⟨v, hv, hentry⟩ := List.mem_map.mp (h.news.mem_iff.mpr (h.used u hu))
  obtain ⟨hmem, hnew⟩ := List.mem_filter.mp hv
  exact ⟨v, hmem, hnew, hentry⟩

theorem nodup_news (h : Tally footnotes us) :
    ((us.filter (·.isNew)).map fun u ↦ u.entry.1).Nodup := by
  have hperm := h.news.map (·.1)
  rw [List.map_map] at hperm
  exact hperm.nodup_iff.mpr h.keys

/-- In a list without two values of the same key, a value is the only one of its key. -/
theorem filter_eq_singleton {α β : Type} {f : α → β} {p q : α → Bool} {xs : List α} {x : α}
    (hnodup : ((xs.filter p).map f).Nodup) (hx : x ∈ xs) (hp : p x = true)
    (hq : ∀ y ∈ xs, q y = true ↔ p y = true ∧ f y = f x) : xs.filter q = [x] := by
  induction xs with
  | nil => cases hx
  | cons y ys ih =>
    rcases List.mem_cons.mp hx with rfl | hx
    · have hself : q x = true := (hq x List.mem_cons_self).mpr ⟨hp, rfl⟩
      rw [List.filter_cons, if_pos hp, List.map_cons, List.nodup_cons] at hnodup
      rw [List.filter_cons, if_pos hself, List.filter_eq_nil_iff.mpr]
      intro z hz hqz
      obtain ⟨hpz, hfz⟩ := (hq z (.tail _ hz)).mp hqz
      exact hnodup.1 (hfz ▸ List.mem_map_of_mem (List.mem_filter.mpr ⟨hz, hpz⟩))
    · have hrest : ((ys.filter p).map f).Nodup :=
        hnodup.sublist (((List.sublist_cons_self y ys).filter p).map f)
      have hnot : q y = false := by
        refine Bool.eq_false_iff.mpr fun hqy ↦ ?_
        obtain ⟨hpy, hfy⟩ := (hq y List.mem_cons_self).mp hqy
        rw [List.filter_cons, if_pos hpy, List.map_cons, List.nodup_cons] at hnodup
        exact hnodup.1 (hfy ▸ List.mem_map_of_mem (List.mem_filter.mpr ⟨hx, hp⟩))
      rw [List.filter_cons, hnot]
      exact ih hrest hx fun z hz ↦ hq z (.tail _ hz)

end Tally

/-! ## Giving numbers -/

namespace Context

/-- What a footnote is given for a number, and what the context knows then: the number it has, or
the next one. -/
theorem nextFootnote_cases (key : String) (c : Context) :
    (∃ number, c.footnotes.lookup (.str key) = some number ∧
      nextFootnote (.str key) c = (.ok (number, false), c)) ∨
    (c.footnotes.lookup (.str key) = none ∧
      nextFootnote (.str key) c = (.ok (c.footnoteCount + 1, true),
        { c with
          footnotes := c.footnotes ++ [(.str key, c.footnoteCount + 1)]
          footnoteCount := c.footnoteCount + 1 })) := by
  cases h : c.footnotes.lookup (.str key) with
  | some number =>
    refine .inl ⟨number, rfl, ?_⟩
    rw [nextFootnote, show (Datum.str key).key = .str key from rfl, h]
  | none => exact .inr ⟨rfl, nextFootnote_of_unused h⟩

/-! ## Footnotes without a number

A footnote that has got a number keeps it. So there are never more footnotes without a number than
before, and fewer of them each time that one is used first.
-/

variable {c c' d : Context}

/-- How many of the footnotes that have a definition have no number yet. -/
def unusedNotes (c : Context) : Nat :=
  c.references.index.footnotes.countP fun e ↦ (c.footnotes.lookup e.1).isNone

/-- A later context of the same document, in which all footnotes that had a number still have it. -/
structure Keeps (c d : Context) : Prop where
  index : d.references.index = c.references.index
  footnotes : c.footnotes <+: d.footnotes

namespace Keeps

theorem refl (c : Context) : Keeps c c := ⟨rfl, List.prefix_rfl⟩

theorem trans (h : Keeps c c') (h' : Keeps c' d) : Keeps c d :=
  ⟨h'.index.trans h.index, h.footnotes.trans h'.footnotes⟩

theorem of_eq (hindex : d.references.index = c.references.index)
    (hfootnotes : d.footnotes = c.footnotes) : Keeps c d :=
  ⟨hindex, hfootnotes ▸ List.prefix_rfl⟩

/-- One more footnote gets a number. -/
theorem append (c : Context) (key : Datum) (number : Nat) :
    Keeps c { c with
      footnotes := c.footnotes ++ [(key, number)]
      footnoteCount := number } := ⟨rfl, List.prefix_append _ _⟩

theorem lookup_eq_none (h : Keeps c d) {key : Datum} (hkey : d.footnotes.lookup key = none) :
    c.footnotes.lookup key = none := by
  obtain ⟨more, hmore⟩ := h.footnotes
  rw [← hmore, Assoc.lookup_append, Option.or_eq_none_iff] at hkey
  exact hkey.1

theorem countP_le (h : Keeps c d) (es : List (Datum × Occurrence)) :
    es.countP (fun e ↦ (d.footnotes.lookup e.1).isNone) ≤
      es.countP fun e ↦ (c.footnotes.lookup e.1).isNone := by
  refine List.countP_mono_left fun e _ he ↦ ?_
  rw [Option.isNone_iff_eq_none] at he ⊢
  exact h.lookup_eq_none he

theorem unusedNotes_le (h : Keeps c d) : d.unusedNotes ≤ c.unusedNotes := by
  rw [unusedNotes, unusedNotes, h.index]
  exact h.countP_le _

/-- Where a footnote that has a definition has got its number, fewer of them have none. -/
theorem unusedNotes_lt (h : Keeps c d) {key : Datum} {definition : Occurrence}
    (hmem : (key, definition) ∈ c.references.index.footnotes)
    (hnew : c.footnotes.lookup key = none) (hnumbered : (d.footnotes.lookup key).isSome = true) :
    d.unusedNotes < c.unusedNotes := by
  obtain ⟨before, after, hsplit⟩ := List.append_of_mem hmem
  have hbefore := h.countP_le before
  have hafter := h.countP_le after
  have hnumbered : (d.footnotes.lookup key).isNone = false := by
    rw [← Option.not_isSome, hnumbered, Bool.not_true]
  rw [unusedNotes, unusedNotes, h.index, hsplit, List.countP_append, List.countP_append,
    List.countP_cons_of_neg (by simp [hnumbered]), List.countP_cons_of_pos (by simp [hnew])]
  omega

end Keeps

/-- The first use of a footnote that has a definition leaves fewer of them without a number. -/
theorem unusedNotes_lt_of_nextFootnote {label : Datum} {definition : Occurrence} {number : Nat}
    (hmem : (label.key, definition) ∈ c.references.index.footnotes)
    (hnext : nextFootnote label c = (.ok (number, true), d)) : d.unusedNotes < c.unusedNotes := by
  have hunused : c.footnotes.lookup label.key = none := by
    cases hlookup : c.footnotes.lookup label.key with
    | none => rfl
    | some used =>
      rw [nextFootnote, hlookup] at hnext
      cases hnext
  obtain rfl := eq_of_nextFootnote hnext
  refine (Keeps.append c label.key _).unusedNotes_lt hmem hunused ?_
  simp [Assoc.lookup_append, hunused]

end Context

end Typeset

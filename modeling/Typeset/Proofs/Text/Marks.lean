import Mathlib.Data.List.Infix
import Typeset.Text.Cut
import Typeset.Text.Lines

/-!
# Searching for the end of a line

A pattern that ends with its only line feed is found within whole lines or behind them, but not
across. So a cut at the pattern comes right behind the first lines that have it at their end.
-/

namespace Typeset.Text

variable {w cs ds : List Char}

/-- The text has whole lines: it is empty or ends with a line feed. -/
def IsLined (cs : List Char) : Prop := ∀ c, cs.getLast? = some c → c = '\n'

namespace IsLined

theorem nil : IsLined [] := nofun

theorem concat (cs : List Char) : IsLined (cs ++ ['\n']) := by
  intro c hc
  rw [List.getLast?_concat] at hc
  exact (Option.some.inj hc).symm

theorem append (h : IsLined cs) (h' : IsLined ds) : IsLined (cs ++ ds) := by
  intro c hc
  rw [List.getLast?_append] at hc
  cases hlast : ds.getLast? with
  | none =>
    rw [hlast, Option.none_or] at hc
    exact h c hc
  | some d =>
    rw [hlast, Option.some_or] at hc
    exact h' c (hlast.trans hc)

theorem of_cons {c : Char} (h : IsLined (c :: cs)) : IsLined cs := by
  intro d hd
  refine h d ?_
  rw [List.getLast?_cons, hd]
  rfl

/-- Whole lines are no beginning of a text without a line feed. -/
theorem not_prefix (h : IsLined cs) (hne : cs ≠ []) (hw : '\n' ∉ w) : ¬ cs <+: w := by
  intro hstart
  have hlast := h _ (List.getLast?_eq_some_getLast hne)
  exact hw (hstart.subset (hlast ▸ List.getLast_mem hne))

end IsLined

/-- The pattern does not begin within whole lines and end behind them. -/
theorem not_prefix_append (hw : '\n' ∉ w) (hcs : IsLined cs) (hne : cs ≠ [])
    (h : ¬ w ++ ['\n'] <+: cs) (ds : List Char) : ¬ w ++ ['\n'] <+: cs ++ ds := by
  intro hprefix
  rcases List.prefix_or_prefix_of_prefix hprefix (List.prefix_append cs ds) with hlong | hshort
  · exact h hlong
  · rcases List.prefix_concat_iff.mp hshort with heq | hshort
    · exact h (heq ▸ List.prefix_rfl)
    · exact hcs.not_prefix hne hw hshort

theorem not_infix_append (hw : '\n' ∉ w) (hcs : IsLined cs) (h : ¬ w ++ ['\n'] <:+: cs)
    (h' : ¬ w ++ ['\n'] <:+: ds) : ¬ w ++ ['\n'] <:+: cs ++ ds := by
  induction cs with
  | nil => exact h'
  | cons c cs ih =>
    rw [List.infix_cons_iff, not_or] at h
    rw [List.cons_append, List.infix_cons_iff, not_or]
    exact ⟨not_prefix_append hw hcs (List.cons_ne_nil _ _) h.1 ds, ih hcs.of_cons h.2⟩

/-- The pattern does not stand across a sign that it does not have. -/
theorem not_infix_append_cons {m : List Char} {c : Char} (hc : c ∉ m) (h : ¬ m <:+: cs)
    (h' : ¬ m <:+: ds) : ¬ m <:+: cs ++ c :: ds := by
  rw [List.infix_append_iff]
  rintro (hleft | hright | ⟨before, after, rfl, hbefore, hafter⟩)
  · exact h hleft
  · rcases List.infix_cons_iff.mp hright with hfirst | hrest
    · rcases List.prefix_cons_iff.mp hfirst with rfl | ⟨t, rfl, -⟩
      · exact h (List.nil_infix)
      · exact hc List.mem_cons_self
    · exact h' hrest
  · rcases List.prefix_cons_iff.mp hafter with rfl | ⟨t, rfl, -⟩
    · rw [List.append_nil] at h
      exact h hbefore.isInfix
    · exact hc (List.mem_append_right _ List.mem_cons_self)

/-- The line is not the pattern's, at its end nor, if it goes over several lines, before. -/
def IsOtherLine (w : List Char) (l : String) : Prop :=
  ¬ w ++ ['\n'] <:+: l.toList ∧ ¬ w <:+ l.toList

namespace IsOtherLine

theorem of_notMem {l : String} (hl : '\n' ∉ l.toList) (hend : ¬ w <:+ l.toList) :
    IsOtherLine w l :=
  ⟨fun hfound ↦ hl (hfound.subset (by simp)), hend⟩

theorem concat {l : String} (h : IsOtherLine w l) : ¬ w ++ ['\n'] <:+: l.toList ++ ['\n'] := by
  rw [List.infix_concat_iff]
  rintro (hend | hfound)
  · rcases List.suffix_concat_iff.mp hend with hnil | ⟨t, heq, hsuffix⟩
    · simp at hnil
    · exact h.2 (List.append_cancel_right heq ▸ hsuffix)
  · exact h.1 hfound

end IsOtherLine

theorem not_infix_unlines (hw : '\n' ∉ w) {ls : List String} (hne : ls ≠ [])
    (h : ∀ l ∈ ls, IsOtherLine w l) : ¬ w ++ ['\n'] <:+: (unlines ls).toList ++ ['\n'] := by
  rw [unlines, String.toList_intercalate]
  induction ls with
  | nil => exact absurd rfl hne
  | cons l ls ih =>
    have hfirst := (h l List.mem_cons_self).concat
    cases ls with
    | nil => simpa using hfirst
    | cons l' ls =>
      have hrest := ih (List.cons_ne_nil _ _) fun m hm ↦ h m (.tail _ hm)
      rw [List.map_cons, List.map_cons, List.intercalate_cons_cons, List.append_assoc]
      exact not_infix_append hw (.concat _) hfirst hrest

theorem cut?_eq_none {pattern : List Char} (h : ¬ pattern <:+: cs) : cut? pattern cs = none := by
  cases hcut : cut? pattern cs with
  | none => rfl
  | some parts =>
    refine absurd ⟨parts.1, parts.2, ?_⟩ h
    exact (eq_append_of_cut? hcut).symm

/-- The cut comes behind whole lines without the pattern where the pattern follows them. -/
theorem cut?_append (hw : '\n' ∉ w) (hcs : IsLined cs) (h : ¬ w ++ ['\n'] <:+: cs)
    (ds : List Char) : cut? (w ++ ['\n']) (cs ++ (w ++ ['\n'] ++ ds)) = some (cs, ds) := by
  induction cs with
  | nil =>
    have hprefix : (w ++ ['\n']).isPrefixOf (w ++ ['\n'] ++ ds) = true :=
      List.isPrefixOf_iff_prefix.mpr (List.prefix_append _ _)
    obtain ⟨c, rest, hpattern⟩ := List.exists_cons_of_ne_nil (List.append_ne_nil_of_right_ne_nil w
      (List.cons_ne_nil '\n' []))
    rw [hpattern] at hprefix ⊢
    rw [List.nil_append, List.cons_append, cut?, ← List.cons_append, if_pos hprefix,
      List.drop_left]
  | cons c cs ih =>
    rw [List.infix_cons_iff, not_or] at h
    have hprefix : (w ++ ['\n']).isPrefixOf (c :: (cs ++ (w ++ ['\n'] ++ ds))) = false := by
      refine Bool.eq_false_iff.mpr fun hprefix ↦ ?_
      exact not_prefix_append hw hcs (List.cons_ne_nil _ _) h.1 _
        (List.isPrefixOf_iff_prefix.mp hprefix)
    rw [List.cons_append, cut?, hprefix, if_neg Bool.false_ne_true, ih hcs.of_cons h.2]
    rfl

end Typeset.Text

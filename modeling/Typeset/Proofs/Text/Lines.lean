import Typeset.Text.Lines
import Typeset.Text.Trim

/-!
# Lines of texts

Lines without line feeds are found again when they are put together, and a text that loses its last
line feeds loses nothing but empty lines.
-/

namespace Typeset.Text

variable {p : Char → Bool}

/-! ## Pieces between separators -/

theorem consFirst_append (c : Char) {ps : List (List Char)} (h : ps ≠ []) (qs : List (List Char)) :
    consFirst c (ps ++ qs) = consFirst c ps ++ qs := by
  cases ps with
  | nil => exact absurd rfl h
  | cons piece ps => rfl

theorem pieces_append {c : Char} (hc : p c = true) (cs ds : List Char) :
    pieces p (cs ++ c :: ds) = pieces p cs ++ pieces p ds := by
  induction cs with
  | nil => simp [pieces, hc]
  | cons d cs ih =>
    rw [List.cons_append, pieces, pieces, ih]
    split
    · rfl
    · exact consFirst_append d (pieces_ne_nil p cs) _

theorem pieces_of_free {cs : List Char} (h : ∀ c ∈ cs, p c = false) : pieces p cs = [cs] := by
  induction cs with
  | nil => rfl
  | cons c cs ih =>
    rw [pieces, ih fun d hd ↦ h d (.tail _ hd), h c List.mem_cons_self]
    rfl

theorem pieces_of_separators {cs : List Char} (h : ∀ c ∈ cs, p c = true) :
    pieces p cs = List.replicate (cs.length + 1) [] := by
  induction cs with
  | nil => rfl
  | cons c cs ih =>
    rw [pieces, if_pos (h c List.mem_cons_self), ih fun d hd ↦ h d (.tail _ hd)]
    rfl

/-- No piece holds a separator. -/
theorem eq_false_of_mem_pieces {cs piece : List Char} (h : piece ∈ pieces p cs) :
    ∀ c ∈ piece, p c = false := by
  induction cs generalizing piece with
  | nil =>
    obtain rfl := List.mem_singleton.mp h
    exact fun c hc ↦ absurd hc List.not_mem_nil
  | cons d cs ih =>
    rw [pieces] at h
    split at h
    · rcases List.mem_cons.mp h with rfl | h
      · exact fun c hc ↦ absurd hc List.not_mem_nil
      · exact ih h
    · next hd =>
      cases hps : pieces p cs with
      | nil => exact absurd hps (pieces_ne_nil p cs)
      | cons first ps =>
        rw [hps] at h ih
        rcases List.mem_cons.mp h with rfl | h
        · intro c hc
          rcases List.mem_cons.mp hc with rfl | hc
          · exact Bool.eq_false_iff.mpr hd
          · exact ih List.mem_cons_self c hc
        · exact ih (.tail _ h)

/-- What stands between separators or in one of them. -/
theorem mem_intercalate {separator : List Char} {ts : List (List Char)} {c : Char}
    (h : c ∈ separator.intercalate ts) : c ∈ separator ∨ ∃ t ∈ ts, c ∈ t := by
  induction ts with
  | nil => simp at h
  | cons t ts ih =>
    cases ts with
    | nil =>
      rw [List.intercalate_singleton] at h
      exact .inr ⟨t, List.mem_cons_self, h⟩
    | cons t' ts =>
      rw [List.intercalate_cons_cons, List.append_assoc, List.mem_append, List.mem_append] at h
      rcases h with hfirst | hsep | hrest
      · exact .inr ⟨t, List.mem_cons_self, hfirst⟩
      · exact .inl hsep
      · refine (ih hrest).imp id fun ⟨u, hu, hc⟩ ↦ ⟨u, .tail _ hu, hc⟩

/-! ## Lines -/

theorem lines_ne_nil (t : String) : lines t ≠ [] := by
  simp [lines, pieces_ne_nil]

theorem notMem_of_mem_lines {t line : String} (h : line ∈ lines t) : '\n' ∉ line.toList := by
  obtain ⟨piece, hpiece, rfl⟩ := List.mem_map.mp h
  intro hc
  rw [String.toList_ofList] at hc
  exact absurd (eq_false_of_mem_pieces hpiece '\n' hc) (by decide)

/-- Lines put together, with a line feed behind the last one as well. -/
theorem unlines_concat {ls : List String} (hne : ls ≠ []) :
    unlines ls ++ "\n" = String.join (ls.map (· ++ "\n")) := by
  induction ls with
  | nil => exact absurd rfl hne
  | cons l ls ih =>
    cases ls with
    | nil => simp [unlines]
    | cons l' ls =>
      have ih := ih (List.cons_ne_nil _ _)
      rw [unlines] at ih ⊢
      rw [String.intercalate_cons_cons, String.append_assoc, ih, List.map_cons (l := l' :: ls),
        String.join_cons]

/-- Lines without line feeds are read again as they were put together. -/
theorem lines_unlines {ls : List String} (hne : ls ≠ []) (h : ∀ l ∈ ls, '\n' ∉ l.toList) :
    lines (unlines ls) = ls := by
  have hfree : ∀ l ∈ ls, ∀ c ∈ l.toList, (c == '\n') = false := by
    intro l hl c hc
    refine beq_eq_false_iff_ne.mpr fun heq ↦ ?_
    exact h l hl (heq ▸ hc)
  suffices hpieces : pieces (· == '\n') (unlines ls).toList = ls.map String.toList by
    rw [lines, hpieces, List.map_map]
    simp [Function.comp_def]
  rw [unlines, String.toList_intercalate]
  induction ls with
  | nil => exact absurd rfl hne
  | cons l ls ih =>
    have hl := pieces_of_free (hfree l List.mem_cons_self)
    cases ls with
    | nil => simpa using hl
    | cons l' ls =>
      have hrest := ih (by simp) (fun m hm ↦ h m (.tail _ hm)) fun m hm ↦ hfree m (.tail _ hm)
      rw [List.map_cons, List.map_cons, List.intercalate_cons_cons]
      rw [List.map_cons] at hrest
      rw [show "\n".toList = ['\n'] from rfl, List.append_assoc, List.singleton_append,
        pieces_append (by decide), hl]
      exact congrArg _ hrest

/-- The lines that a text has beyond those it has without its last line feeds are empty. -/
theorem lines_dropFinalNewlines (t : String) :
    ∃ m, lines t = lines (dropFinalNewlines t) ++ List.replicate m "" := by
  have hcut : t.toList = dropEndWhile isNewline t.toList ++
      (t.toList.reverse.takeWhile isNewline).reverse := by
    rw [dropEndWhile, ← List.reverse_append, List.takeWhile_append_dropWhile, List.reverse_reverse]
  have hend : ∀ c ∈ (t.toList.reverse.takeWhile isNewline).reverse, (c == '\n') = true := by
    intro c hc
    exact List.all_eq_true.mp List.all_takeWhile c (List.mem_reverse.mp hc)
  generalize (t.toList.reverse.takeWhile isNewline).reverse = ends at hcut hend
  rw [lines, lines, dropFinalNewlines, String.toList_ofList]
  generalize dropEndWhile isNewline t.toList = front at hcut ⊢
  rw [hcut]
  cases ends with
  | nil =>
    exact ⟨0, by rw [List.append_nil, List.replicate_zero, List.append_nil]⟩
  | cons c ends =>
    have hrest : pieces (· == '\n') ends = List.replicate (ends.length + 1) [] :=
      pieces_of_separators fun d hd ↦ hend d (.tail _ hd)
    refine ⟨ends.length + 1, ?_⟩
    rw [pieces_append (p := (· == '\n')) (hend c List.mem_cons_self), hrest, List.map_append,
      List.map_replicate]

end Typeset.Text

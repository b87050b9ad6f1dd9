import Typeset.Code.Lines
import Typeset.Proofs.Text.Lines

/-!
# Lines of code that are found and printed

A label is looked for in all lines of a block, numbers are counted over the lines that are printed,
and numbers stand in front of lines whose markers have been taken off. The three go together: the
first line that holds a marker is printed, and taking markers off makes lines neither more nor less.
-/

namespace Typeset

open Text

/-! ## Plain label formats -/

/-- A format with one percent sign, which marks the place of the label. -/
def LabelFormat.isPlain (format : String) : Bool :=
  format.toList.count '%' == 1 && holds format "%s"

/-- A line holds the marker of a label. -/
def CodeBlock.isMarked (b : CodeBlock) (label line : String) : Bool :=
  holds line (fill b.labelFormat label)

namespace LabelFormat

variable {limit : Nat} {label : String}

theorem fillFrom_of_notMem {cs : List Char} (h : '%' ∉ cs) (position : Nat) :
    fillFrom limit 0 position [] cs = .ok cs := by
  induction cs generalizing position with
  | nil => rfl
  | cons c cs ih =>
    rw [List.mem_cons, not_or] at h
    rw [fillFrom, if_pos (Ne.symm h.1), ih h.2]
    rfl

/-- The place of a label is read as a placeholder for texts, which takes one character. -/
theorem read_label (values : List Datum) (cs : List Char) :
    Placeholder.read values ('s' :: cs) = .ok (⟨[], 0, none, 's', 1⟩, values) := by
  have hlength : ('s' :: cs).length - cs.length = 1 := by
    rw [List.length_cons]
    omega
  rw [← hlength]
  rfl

theorem fillFrom_label {after : List Char} (h : '%' ∉ after) (position : Nat) :
    fillFrom limit 0 position [.str label] ('%' :: 's' :: after) = .ok (label.toList ++ after) := by
  have hgap : min 0 limit - label.toList.length = 0 := by omega
  have hconvert : (⟨[], 0, none, 's', 1⟩ : Placeholder).convert limit (position + 1) (.str label) =
      .ok label.toList := by
    simp [Placeholder.convert, Placeholder.textOf, Placeholder.pad, Placeholder.has, Datum.plain]
  rw [fillFrom, if_neg (by simp), if_neg (by simp), read_label]
  simp only [bind, Except.bind, hconvert]
  rw [fillFrom, fillFrom_of_notMem h]
  rfl

theorem fillFrom_plain {before after : List Char} (hbefore : '%' ∉ before) (hafter : '%' ∉ after)
    (position : Nat) :
    fillFrom limit 0 position [.str label] (before ++ '%' :: 's' :: after) =
      .ok (before ++ (label.toList ++ after)) := by
  induction before generalizing position with
  | nil => exact fillFrom_label hafter position
  | cons c before ih =>
    rw [List.mem_cons, not_or] at hbefore
    rw [List.cons_append, fillFrom, if_pos (Ne.symm hbefore.1), ih hbefore.2]
    rfl

/-- The marker of a label has the label in its place. -/
theorem fill_of_isPlain {format : String} (h : isPlain format = true) :
    LabelFormat.fill limit format (.str label) = .ok (Text.fill format label) := by
  rw [isPlain, Bool.and_eq_true, beq_iff_eq, holds, Option.isSome_iff_exists] at h
  obtain ⟨hcount, ⟨before, after⟩, hcut⟩ := h
  have hcut : cut? ['%', 's'] format.toList = some (before, after) := hcut
  have hformat : format.toList = before ++ '%' :: 's' :: after := by
    rw [eq_append_of_cut? hcut, List.append_assoc]
    rfl
  rw [hformat, List.count_append, List.count_cons_self, List.count_cons_of_ne (by decide)] at hcount
  have hbefore : '%' ∉ before := List.count_eq_zero.mp (by omega)
  have hafter : '%' ∉ after := List.count_eq_zero.mp (by omega)
  rw [LabelFormat.fill, Text.fill, hcut, hformat,
    show valuesOf (.str label) = [.str label] from rfl, fillFrom_plain hbefore hafter]
  simp [← String.toList_inj]

end LabelFormat

namespace CodeBlock

theorem lineOf?_of_isPlain {b : CodeBlock} (h : LabelFormat.isPlain b.labelFormat = true)
    (label : String) :
    b.lineOf? (.str label) =
      .ok (((lines b.value).findIdx? (b.isMarked label)).map (· + 1)) := by
  rw [lineOf?, LabelFormat.fill_of_isPlain h]
  rfl

end CodeBlock

/-! ## Printed lines -/

namespace Marker

theorem mem_of_label? {after cs label : List Char} (h : label? after cs = some label) :
    ∀ c ∈ label, c ∈ cs := by
  induction cs generalizing label with
  | nil => cases h
  | cons d cs ih =>
    rw [label?] at h
    split at h
    · split at h
      · obtain rfl := Option.some.inj h
        intro c hc
        rw [List.mem_singleton.mp hc]
        exact List.mem_cons_self
      · obtain ⟨label', hlabel, rfl⟩ := Option.map_eq_some_iff.mp h
        intro c hc
        rcases List.mem_cons.mp hc with rfl | hc
        · exact List.mem_cons_self
        · exact .tail _ (ih hlabel c hc)
    · cases h

theorem mem_of_markerAt? {before after cs label : List Char}
    (h : markerAt? before after cs = some label) : ∀ c ∈ label, c ∈ cs := by
  induction cs with
  | nil => cases h
  | cons d cs ih =>
    have hhere : (if before.isPrefixOf (d :: cs) then
        label? after ((d :: cs).drop before.length) else none) = some label →
        ∀ c ∈ label, c ∈ d :: cs := by
      intro h c hc
      split at h
      · exact List.drop_subset _ _ (mem_of_label? h c hc)
      · cases h
    rw [markerAt?] at h
    split at h
    · rcases Option.or_eq_some_iff.mp h with h | ⟨-, h⟩
      · exact fun c hc ↦ .tail _ (ih h c hc)
      · exact hhere h
    · exact hhere h

theorem mem_of_find? {before after cs code label : List Char}
    (h : find? before after cs = some (code, label)) :
    (∀ c ∈ code, c ∈ cs) ∧ ∀ c ∈ label, c ∈ cs := by
  induction cs generalizing code with
  | nil => cases h
  | cons d cs ih =>
    rw [find?] at h
    split at h
    · next label' hmarker =>
      cases h
      exact ⟨fun c hc ↦ absurd hc List.not_mem_nil, mem_of_markerAt? hmarker⟩
    · obtain ⟨⟨code', label'⟩, hfind, heq⟩ := Option.map_eq_some_iff.mp h
      cases heq
      obtain ⟨hcode, hlabel⟩ := ih hfind
      refine ⟨fun c hc ↦ ?_, fun c hc ↦ .tail _ (hlabel c hc)⟩
      rcases List.mem_cons.mp hc with rfl | hc
      · exact List.mem_cons_self
      · exact .tail _ (hcode c hc)

/-- A line stays one line without its marker. -/
theorem notMem_stripLine {format line : String} {retain : Bool} (h : '\n' ∉ line.toList) :
    '\n' ∉ (stripLine format retain line).toList := by
  unfold stripLine
  split
  · exact h
  · next code label hfind =>
    obtain ⟨hcode, hlabel⟩ := mem_of_find? hfind
    rw [String.toList_ofList]
    split
    · simp only [List.mem_append, List.mem_cons, List.not_mem_nil, or_false]
      rintro (((hc | hc | hc) | hc) | hc)
      · exact h (hcode _ hc)
      · exact absurd hc (by decide)
      · exact absurd hc (by decide)
      · exact h (hlabel _ hc)
      · exact absurd hc (by decide)
    · exact fun hc ↦ h (hcode _ hc)

/-- Without markers, the code has as many lines as are printed. -/
theorem lines_strip (b : CodeBlock) :
    lines (strip b) = (printedLines b).map (stripLine b.labelFormat b.retainLabels) := by
  refine lines_unlines (by simp [printedLines, lines_ne_nil]) fun line hline ↦ ?_
  obtain ⟨line', hline', rfl⟩ := List.mem_map.mp hline
  exact notMem_stripLine (notMem_of_mem_lines hline')

end Marker

namespace CodeBlock

end CodeBlock

end Typeset

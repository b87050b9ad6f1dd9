import Mathlib.Data.List.DropRight
import Typeset.Proofs.Code.Lines
import Typeset.Proofs.Text.Carries
import Typeset.Proofs.Text.Marks

/-!
# Markers that are found and taken off

A label is looked for by its whole marker, anywhere in a line, while markers are taken off at the
ends of lines without knowing the label. Both see the same markers in lines whose code does not
hold the beginning of a marker itself.
-/

namespace Typeset

open Text

namespace Marker

/-! ## Where a marker stands -/

/-- What stands around labels tells where they begin and end: it begins with a character that
stands nowhere else in a marker, it goes on without blanks up to the label, and the label ends at a
character that no label has. -/
structure IsClear (before after : List Char) : Prop where
  begins : ∃ c cs, before = c :: cs ∧ isGap c = false ∧ isLabelChar c = false ∧ c ∉ cs ∧
    c ∉ after ∧ ∀ d ∈ cs, isGap d = false
  ends : ∃ c cs, after = c :: cs ∧ isLabelChar c = false

section

variable {before after gap blanks label code : List Char}

theorem closes_append (after : List Char) (hblanks : ∀ c ∈ blanks, isGap c = true) :
    closes after (after ++ blanks) = true := by
  rw [closes, Bool.and_eq_true, List.drop_left, List.all_eq_true]
  exact ⟨List.isPrefixOf_iff_prefix.mpr (List.prefix_append _ _), hblanks⟩

theorem IsClear.not_closes (hclear : IsClear before after) {c : Char} (hc : isLabelChar c = true)
    (cs : List Char) : closes after (c :: cs) = false := by
  obtain ⟨d, ds, rfl, hd⟩ := hclear.ends
  have hne : (d == c) = false := by
    refine beq_eq_false_iff_ne.mpr fun heq ↦ ?_
    rw [heq, hc] at hd
    cases hd
  rw [closes, List.isPrefixOf, hne]
  rfl

/-- A label is read up to the rest of the format. -/
theorem label?_append (hclear : IsClear before after) (hne : label ≠ [])
    (hlabel : ∀ c ∈ label, isLabelChar c = true) (hblanks : ∀ c ∈ blanks, isGap c = true) :
    label? after (label ++ (after ++ blanks)) = some label := by
  induction label with
  | nil => exact absurd rfl hne
  | cons c cs ih =>
    rw [List.cons_append, label?, if_pos (hlabel c List.mem_cons_self)]
    cases cs with
    | nil => rw [List.nil_append, if_pos (closes_append after hblanks)]
    | cons d ds =>
      have hd : isLabelChar d = true := hlabel d (.tail _ List.mem_cons_self)
      have ih := ih (List.cons_ne_nil _ _) fun e he ↦ hlabel e (.tail _ he)
      rw [List.cons_append, hclear.not_closes hd, if_neg Bool.false_ne_true, ← List.cons_append, ih]
      rfl

/-- A marker is read from the first blank before it. -/
theorem markerAt?_append (hclear : IsClear before after) (hgap : ∀ c ∈ gap, isGap c = true)
    (hne : label ≠ []) (hlabel : ∀ c ∈ label, isLabelChar c = true)
    (hblanks : ∀ c ∈ blanks, isGap c = true) :
    markerAt? before after (gap ++ (before ++ (label ++ (after ++ blanks)))) = some label := by
  induction gap with
  | nil =>
    have hread := label?_append hclear hne hlabel hblanks
    obtain ⟨c, cs, rfl, hc, -⟩ := hclear.begins
    have hprefix : (c :: cs).isPrefixOf (c :: (cs ++ (label ++ (after ++ blanks)))) = true :=
      List.isPrefixOf_iff_prefix.mpr (List.prefix_append (c :: cs) _)
    rw [List.nil_append, List.cons_append, markerAt?, hc, if_neg Bool.false_ne_true, if_pos hprefix,
      ← List.cons_append, List.drop_left, hread]
  | cons c gap ih =>
    rw [List.cons_append, markerAt?, if_pos (hgap c List.mem_cons_self),
      ih fun d hd ↦ hgap d (.tail _ hd)]
    rfl

/-- Where a marker is read, its beginning stands behind nothing but blanks. -/
theorem exists_of_markerAt? {cs : List Char} (h : markerAt? before after cs = some label) :
    ∃ gap rest, cs = gap ++ (before ++ rest) ∧ ∀ c ∈ gap, isGap c = true := by
  induction cs with
  | nil => cases h
  | cons c cs ih =>
    have hhere : (if before.isPrefixOf (c :: cs) then
        label? after ((c :: cs).drop before.length) else none) = some label →
        ∃ gap rest, c :: cs = gap ++ (before ++ rest) ∧ ∀ c ∈ gap, isGap c = true := by
      intro h
      split at h
      · next hprefix =>
        obtain ⟨rest, hrest⟩ := List.isPrefixOf_iff_prefix.mp hprefix
        exact ⟨[], rest, hrest.symm, fun d hd ↦ absurd hd List.not_mem_nil⟩
      · cases h
    rw [markerAt?] at h
    split at h
    · next hc =>
      rcases Option.or_eq_some_iff.mp h with h | ⟨-, h⟩
      · obtain ⟨gap, rest, rfl, hgap⟩ := ih h
        refine ⟨c :: gap, rest, rfl, fun d hd ↦ ?_⟩
        rcases List.mem_cons.mp hd with rfl | hd
        · exact hc
        · exact hgap d hd
      · exact hhere h
    · exact hhere h

/-- The beginning of a marker does not begin in the code before one, not even if it ends behind the
code. -/
theorem IsClear.not_overlaps (hclear : IsClear before after) {m : List Char} (hm : m ≠ [])
    (hcode : ¬ before <:+: m) (hgap : ∀ c ∈ gap, isGap c = true) (back rest : List Char) :
    before ++ back ≠ m ++ (gap ++ (before ++ rest)) := by
  intro h
  obtain ⟨c, cs, rfl, -, -, hcs, -, hnogap⟩ := hclear.begins
  rcases List.append_eq_append_iff.mp h with ⟨k, rfl, -⟩ | ⟨k, hbefore, hk⟩
  · exact hcode (List.prefix_append _ _).isInfix
  · cases k with
    | nil =>
      rw [List.append_nil] at hbefore
      exact hcode (hbefore ▸ List.infix_rfl)
    | cons d k =>
      -- the next character of the beginning is a blank or its first one once more
      have hd : d ∈ cs := by
        obtain ⟨e, m, rfl⟩ := List.exists_cons_of_ne_nil hm
        rw [(List.cons.inj hbefore).2]
        exact List.mem_append_right m List.mem_cons_self
      cases gap with
      | nil => exact hcs ((List.cons.inj hk).1 ▸ hd)
      | cons g gap =>
        have hg := hgap g List.mem_cons_self
        rw [(List.cons.inj hk).1, hnogap d hd] at hg
        cases hg

/-- No marker begins behind the beginning of another one. -/
theorem IsClear.notMem (hclear : IsClear before after)
    (hlabel : ∀ c ∈ label, isLabelChar c = true) (hblanks : ∀ c ∈ blanks, isGap c = true) :
    ∀ c ∈ before.head?, c ∉ label ++ (after ++ blanks) := by
  obtain ⟨c, cs, rfl, hgap, hchar, -, hafter, -⟩ := hclear.begins
  intro d hd hmem
  obtain rfl : c = d := Option.some.inj hd
  rcases List.mem_append.mp hmem with hmem | hmem
  · rw [hlabel c hmem] at hchar
    cases hchar
  · rcases List.mem_append.mp hmem with hmem | hmem
    · exact hafter hmem
    · rw [hblanks c hmem] at hgap
      cases hgap

/-- Behind code that does not hold it, the beginning of a marker stands at one place only. -/
theorem IsClear.unique (hclear : IsClear before after) (hcode : ¬ before <:+: code)
    (hgap : ∀ c ∈ gap, isGap c = true) {front back rest : List Char}
    (hrest : ∀ c ∈ before.head?, c ∉ rest)
    (h : front ++ (before ++ back) = code ++ (gap ++ (before ++ rest))) :
    front = code ++ gap ∧ back = rest := by
  obtain ⟨c, cs, hbefore, hc, -, hcs, -⟩ := hclear.begins
  have hrest : c ∉ rest := hrest c (hbefore ▸ rfl)
  rcases List.append_eq_append_iff.mp h with ⟨m, rfl, hm⟩ | ⟨w, rfl, hw⟩
  · by_cases hne : m = []
    · subst hne
      cases gap with
      | nil => exact ⟨by simp, List.append_cancel_left hm⟩
      | cons g gap =>
        rw [hbefore] at hm
        rw [(List.cons.inj hm).1, hgap g List.mem_cons_self] at hc
        cases hc
    · refine absurd hm (hclear.not_overlaps hne (fun hin ↦ hcode ?_) hgap _ _)
      exact hin.trans (List.suffix_append _ _).isInfix
  · -- the place is behind the code: not in the blanks, and not behind the marker's beginning
    suffices hwgap : w = gap by
      subst hwgap
      exact ⟨rfl, (List.append_cancel_left (List.append_cancel_left hw)).symm⟩
    rw [hbefore] at hw
    rcases List.append_eq_append_iff.mp hw with ⟨v, rfl, hv⟩ | ⟨v, rfl, hv⟩
    · cases v with
      | nil => exact List.append_nil _
      | cons d v =>
        have htail : cs ++ rest = v ++ (c :: cs ++ back) := (List.cons.inj hv).2
        have hmem : c ∈ cs ++ rest := htail ▸ List.mem_append_right _ List.mem_cons_self
        rcases List.mem_append.mp hmem with hmem | hmem
        · exact absurd hmem hcs
        · exact absurd hmem hrest
    · cases v with
      | nil => exact (List.append_nil _).symm
      | cons d v =>
        have hd := hgap d (List.mem_append_right _ List.mem_cons_self)
        rw [← (List.cons.inj hv).1, hc] at hd
        cases hd

/-- Code without the beginning of a marker has none. -/
theorem find?_eq_none {cs : List Char} (h : ¬ before <:+: cs) : find? before after cs = none := by
  induction cs with
  | nil => rfl
  | cons c cs ih =>
    have hmarker : markerAt? before after (c :: cs) = none := by
      refine Option.eq_none_iff_forall_ne_some.mpr fun label hlabel ↦ h ?_
      obtain ⟨gap, rest, hcs, -⟩ := exists_of_markerAt? hlabel
      exact ⟨gap, rest, by rw [hcs, List.append_assoc]⟩
    rw [find?, hmarker, ih fun hin ↦ h (List.infix_cons hin)]
    rfl

/-- The marker of a line is found behind its code, which it leaves without blanks at the end. -/
theorem find?_append (hclear : IsClear before after) (hend : dropEndWhile isGap code = code)
    (hcode : ¬ before <:+: code) (hgap : ∀ c ∈ gap, isGap c = true) (hne : label ≠ [])
    (hlabel : ∀ c ∈ label, isLabelChar c = true) (hblanks : ∀ c ∈ blanks, isGap c = true) :
    find? before after (code ++ (gap ++ (before ++ (label ++ (after ++ blanks))))) =
      some (code, label) := by
  induction code with
  | nil =>
    have hmarker := markerAt?_append hclear hgap hne hlabel hblanks
    cases hcs : gap ++ (before ++ (label ++ (after ++ blanks))) with
    | nil =>
      rw [hcs] at hmarker
      cases hmarker
    | cons c cs =>
      rw [hcs] at hmarker
      rw [List.nil_append, find?, hmarker]
  | cons c code ih =>
    have hmarker : markerAt? before after
        (c :: (code ++ (gap ++ (before ++ (label ++ (after ++ blanks)))))) = none := by
      refine Option.eq_none_iff_forall_ne_some.mpr fun label' hlabel' ↦ ?_
      obtain ⟨gap', rest, hcs, hgap'⟩ := exists_of_markerAt? hlabel'
      -- blanks alone do not lead to the marker, since the code ends with something else
      obtain ⟨rfl, -⟩ := hclear.unique hcode hgap (hclear.notMem hlabel hblanks) hcs.symm
      have hnil : dropEndWhile isGap (c :: code) = [] :=
        List.rdropWhile_eq_nil_iff.mpr fun d hd ↦ hgap' d (List.mem_append_left _ hd)
      rw [hnil] at hend
      cases hend
    have hend' : dropEndWhile isGap code = code := by
      rw [Carries.dropEndWhile_cons] at hend
      split at hend
      · cases hend
      · exact (List.cons.inj hend).2
    rw [List.cons_append, find?, hmarker, ih hend' fun hin ↦ hcode (List.infix_cons hin)]
    rfl

/-- A label that is found where a line has a marker is the marker's own. -/
theorem IsClear.label_unique (hclear : IsClear before after) {label' back : List Char}
    (hlabel : ∀ c ∈ label, isLabelChar c = true) (hlabel' : ∀ c ∈ label', isLabelChar c = true)
    (h : label' ++ (after ++ back) = label ++ (after ++ blanks)) : label' = label := by
  obtain ⟨d, ds, rfl, hd⟩ := hclear.ends
  have htake := congrArg (List.takeWhile isLabelChar) h
  rwa [List.takeWhile_append_of_pos hlabel', List.takeWhile_append_of_pos hlabel, List.cons_append,
    List.cons_append, List.takeWhile_cons_of_neg (by simp [hd]),
    List.takeWhile_cons_of_neg (by simp [hd]), List.append_nil, List.append_nil] at htake

end

end Marker

/-! ## Lines as they are written -/

/-- What is said of each character of a text is decided on the text. -/
local instance decidableForallMem (P : Char → Prop) [DecidablePred P] (cs : List Char) :
    Decidable (∀ c ∈ cs, P c) := List.decidableBAll _ _

/-- A marker in a line of code: its label, and the blanks before and behind it. -/
structure LineMarker where
  gap : String
  label : String
  blanks : String

/-- A line of code, with a marker at its end or without one. -/
structure CodeLine where
  code : String
  marker : Option LineMarker

namespace LineMarker

/-- The marker as it is written in the default format. -/
def text (m : LineMarker) : String := m.gap ++ "(ref:" ++ m.label ++ ")" ++ m.blanks

/-- The label can be one, and there are only blanks around the marker. -/
@[mk_iff]
structure IsPlain (m : LineMarker) : Prop where
  gap : ∀ c ∈ m.gap.toList, Marker.isGap c = true
  nonempty : m.label ≠ ""
  label : ∀ c ∈ m.label.toList, Marker.isLabelChar c = true
  blanks : ∀ c ∈ m.blanks.toList, Marker.isGap c = true

instance : DecidablePred IsPlain := fun m ↦ decidable_of_iff' _ (isPlain_iff m)

end LineMarker

namespace CodeLine

/-- The line as it is written. -/
def text (l : CodeLine) : String := l.code ++ (l.marker.map LineMarker.text).getD ""

/-- The line as it is printed: without its marker and the blanks before it, and with the label
between parentheses if it is retained. -/
def printed (retain : Bool) (l : CodeLine) : String :=
  match l.marker with
  | none => l.code
  | some m =>
    .ofList (dropEndWhile Marker.isGap l.code.toList) ++
      (if retain then " (" ++ m.label ++ ")" else "")

/-- The line has a marker with the label. -/
def hasLabel (label : String) (l : CodeLine) : Bool := l.marker.any (·.label == label)

/-- The code is one line that does not hold the beginning of a marker. -/
@[mk_iff]
structure IsPlain (l : CodeLine) : Prop where
  oneLine : '\n' ∉ l.code.toList
  unmarked : ¬ Occurs "(ref:" l.code
  marker : ∀ m ∈ l.marker, m.IsPlain

instance : DecidablePred IsPlain := fun l ↦ decidable_of_iff' _ (isPlain_iff l)

end CodeLine

/-- The default format of markers. -/
def LabelFormat.default : String := "(ref:%s)"

theorem Marker.isClear_default : IsClear "(ref:".toList ")".toList where
  begins := ⟨'(', ['r', 'e', 'f', ':'], rfl, by decide, by decide, by decide, by decide, by decide⟩
  ends := ⟨')', [], rfl, by decide⟩

theorem LabelFormat.around_default :
    Marker.around LabelFormat.default = ("(ref:".toList, ")".toList) := by decide

theorem LabelFormat.fill_default (label : String) :
    Text.fill LabelFormat.default label = "(ref:" ++ label ++ ")" := rfl

theorem Text.not_infix_of_cut?_eq_none {pattern cs : List Char} (h : cut? pattern cs = none) :
    ¬ pattern <:+: cs := by
  induction cs with
  | nil =>
    rw [cut?] at h
    split at h
    · cases h
    · next hne => exact fun hin ↦ hne (List.isEmpty_iff.mpr (List.infix_nil.mp hin))
  | cons c cs ih =>
    rw [cut?] at h
    split at h
    · cases h
    · next hprefix =>
      intro hin
      rcases List.infix_cons_iff.mp hin with hin | hin
      · exact hprefix (List.isPrefixOf_iff_prefix.mpr hin)
      · exact ih (Option.map_eq_none_iff.mp h) hin

theorem Text.holds_iff {t s : String} : holds t s = true ↔ Occurs s t := by
  rw [holds, Option.isSome_iff_ne_none]
  refine ⟨fun h ↦ not_not.mp fun hnot ↦ h (cut?_eq_none hnot), fun hin hcut ↦ ?_⟩
  exact not_infix_of_cut?_eq_none hcut hin

namespace CodeLine

variable {l : CodeLine}

theorem toList_text_of_none (h : l.marker = none) : l.text.toList = l.code.toList := by
  rw [text, h, Option.map_none, Option.getD_none, String.append_empty]

theorem toList_text_of_some {m : LineMarker} (h : l.marker = some m) :
    l.text.toList = l.code.toList ++ (m.gap.toList ++ ("(ref:".toList ++
      (m.label.toList ++ (")".toList ++ m.blanks.toList)))) := by
  simp only [text, h, Option.map_some, Option.getD_some, LineMarker.text, String.toList_append,
    List.append_assoc]

/-- Taking off the marker of a line leaves what is printed of it. -/
theorem stripLine_text (hl : l.IsPlain) (retain : Bool) :
    Marker.stripLine LabelFormat.default retain l.text = l.printed retain := by
  rw [Marker.stripLine, LabelFormat.around_default, printed]
  cases hmarker : l.marker with
  | none =>
    rw [toList_text_of_none hmarker, Marker.find?_eq_none hl.unmarked]
    simp only [text, hmarker, Option.map_none, Option.getD_none, String.append_empty]
  | some m =>
    have hm := hl.marker m hmarker
    -- the blanks at the end of the code go with those of the marker
    have hcode : dropEndWhile Marker.isGap l.code.toList ++
        l.code.toList.rtakeWhile Marker.isGap = l.code.toList :=
      List.rdropWhile_append_rtakeWhile
    have hend : dropEndWhile Marker.isGap (dropEndWhile Marker.isGap l.code.toList) =
        dropEndWhile Marker.isGap l.code.toList := List.rdropWhile_idempotent _ _
    have hunmarked : ¬ "(ref:".toList <:+: dropEndWhile Marker.isGap l.code.toList := fun hin ↦
      hl.unmarked (hin.trans (List.rdropWhile_prefix _ _).isInfix)
    have hgap : ∀ c ∈ l.code.toList.rtakeWhile Marker.isGap ++ m.gap.toList,
        Marker.isGap c = true := by
      intro c hc
      rcases List.mem_append.mp hc with hc | hc
      · exact List.mem_rtakeWhile_imp hc
      · exact hm.gap c hc
    have hfind := Marker.find?_append Marker.isClear_default hend hunmarked hgap
      (fun hnil ↦ hm.nonempty (String.toList_eq_nil_iff.mp hnil)) hm.label hm.blanks
    rw [List.append_assoc, ← List.append_assoc (dropEndWhile _ _), hcode,
      ← toList_text_of_some hmarker] at hfind
    rw [hfind]
    cases retain <;> simp [← String.toList_inj]

/-- The marker of a label stands in the lines that have it. -/
theorem holds_text (hl : l.IsPlain) {label : String}
    (hlabel : ∀ c ∈ label.toList, Marker.isLabelChar c = true) :
    holds l.text ("(ref:" ++ label ++ ")") = l.hasLabel label := by
  rw [Bool.eq_iff_iff, holds_iff, hasLabel, Occurs]
  simp only [String.toList_append]
  cases hmarker : l.marker with
  | none =>
    rw [toList_text_of_none hmarker, Option.any_none]
    refine ⟨fun hin ↦ absurd (List.IsInfix.trans ?_ hin) hl.unmarked, fun h ↦ by cases h⟩
    rw [List.append_assoc]
    exact (List.prefix_append _ _).isInfix
  | some m =>
    have hm := hl.marker m hmarker
    rw [toList_text_of_some hmarker, Option.any_some, beq_iff_eq]
    constructor
    · rintro ⟨front, back, heq⟩
      simp only [List.append_assoc] at heq
      obtain ⟨-, hrest⟩ := Marker.isClear_default.unique hl.unmarked hm.gap
        (Marker.isClear_default.notMem hm.label hm.blanks) heq
      exact (String.toList_inj.mp
        (Marker.isClear_default.label_unique hm.label hlabel hrest)).symm
    · rintro rfl
      refine ⟨l.code.toList ++ m.gap.toList, m.blanks.toList, ?_⟩
      simp only [List.append_assoc]

theorem notMem_text (hl : l.IsPlain) : '\n' ∉ l.text.toList := by
  cases hmarker : l.marker with
  | none =>
    rw [toList_text_of_none hmarker]
    exact hl.oneLine
  | some m =>
    have hm := hl.marker m hmarker
    have hgap : '\n' ∉ m.gap.toList := fun h ↦ absurd (hm.gap _ h) (by decide)
    have hlabel : '\n' ∉ m.label.toList := fun h ↦ absurd (hm.label _ h) (by decide)
    have hblanks : '\n' ∉ m.blanks.toList := fun h ↦ absurd (hm.blanks _ h) (by decide)
    rw [toList_text_of_some hmarker]
    simp [hl.oneLine, hgap, hlabel, hblanks]

end CodeLine

/-- All lines of a block are printed if the last one is not empty. -/
theorem Marker.printedLines_eq {b : CodeBlock} (h : ∀ line ∈ (lines b.value).getLast?, line ≠ "") :
    printedLines b = lines b.value := by
  obtain ⟨m, hm⟩ := lines_dropFinalNewlines b.value
  cases m with
  | zero => rw [hm, List.replicate_zero, List.append_nil, printedLines]
  | succ m =>
    rw [hm, List.replicate_succ', ← List.append_assoc, List.getLast?_concat] at h
    exact absurd rfl (h "" rfl)

theorem findIdx?_congr {α : Type} {p q : α → Bool} {xs : List α} (h : ∀ x ∈ xs, p x = q x) :
    xs.findIdx? p = xs.findIdx? q := by
  induction xs with
  | nil => rfl
  | cons x xs ih =>
    rw [List.findIdx?_cons, List.findIdx?_cons, h x List.mem_cons_self,
      ih fun y hy ↦ h y (.tail _ hy)]

/-- A block of lines whose code does not hold the beginning of a marker, the last line not empty, is
printed line by line without the markers, and a label is found in the first line that has it. -/
theorem markers_are_found_where_taken_off (ls : List CodeLine) (hls : ∀ l ∈ ls, l.IsPlain)
    (hlast : ∃ l, ls.getLast? = some l ∧ l.text ≠ "") (b : CodeBlock)
    (hformat : b.labelFormat = LabelFormat.default)
    (hvalue : b.value = unlines (ls.map CodeLine.text)) :
    lines (Marker.strip b) = ls.map (CodeLine.printed b.retainLabels) ∧
      Marker.strip b = unlines (ls.map (CodeLine.printed b.retainLabels)) ∧
      ∀ label, (∀ c ∈ label.toList, Marker.isLabelChar c = true) →
        b.lineOf? (.str label) = .ok ((ls.findIdx? (CodeLine.hasLabel label)).map (· + 1)) := by
  obtain ⟨last, hlast, hne⟩ := hlast
  have hlines : lines b.value = ls.map CodeLine.text := by
    rw [hvalue]
    refine lines_unlines (fun hnil ↦ ?_) fun line hline ↦ ?_
    · rw [List.map_eq_nil_iff.mp hnil] at hlast
      cases hlast
    · obtain ⟨l, hl, rfl⟩ := List.mem_map.mp hline
      exact CodeLine.notMem_text (hls l hl)
  have hprinted : Marker.printedLines b = ls.map CodeLine.text := by
    rw [Marker.printedLines_eq, hlines]
    intro line hline
    rw [hlines, List.getLast?_map, hlast] at hline
    exact Option.some.inj hline ▸ hne
  have hstripped : (Marker.printedLines b).map (Marker.stripLine b.labelFormat b.retainLabels) =
      ls.map (CodeLine.printed b.retainLabels) := by
    rw [hprinted, List.map_map, hformat]
    exact List.map_congr_left fun l hl ↦ CodeLine.stripLine_text (hls l hl) _
  refine ⟨by rw [Marker.lines_strip, hstripped], by rw [Marker.strip, hstripped], ?_⟩
  intro label hlabel
  have hplain : LabelFormat.isPlain b.labelFormat = true := by
    rw [hformat]
    decide
  rw [CodeBlock.lineOf?_of_isPlain hplain, hlines, List.findIdx?_map]
  congr 2
  refine findIdx?_congr fun l hl ↦ ?_
  rw [Function.comp_apply, CodeBlock.isMarked, hformat, LabelFormat.fill_default]
  exact CodeLine.holds_text (hls l hl) hlabel

/-- Three lines, of which the first and the last one have markers. -/
def markedLines : List CodeLine :=
  [⟨"x \t", some ⟨" ", "a-b", "\t"⟩⟩, ⟨"(re (ref", none⟩, ⟨"(ref", some ⟨"", "a b", ""⟩⟩]
where
  block (retain : Bool) : CodeBlock :=
    ⟨unlines (markedLines.map CodeLine.text), none, none, 0, LabelFormat.default, retain, []⟩

theorem markedLines_are_found_and_taken_off :
    (∀ l ∈ markedLines, l.IsPlain) ∧ (∃ l, markedLines.getLast? = some l ∧ l.text ≠ "") ∧
      (markedLines.block true).labelFormat = LabelFormat.default ∧
      (markedLines.block true).value = unlines (markedLines.map CodeLine.text) ∧
      lines (Marker.strip (markedLines.block true)) = ["x (a-b)", "(re (ref", "(ref (a b)"] ∧
      lines (Marker.strip (markedLines.block false)) = ["x", "(re (ref", "(ref"] ∧
      (markedLines.block true).lineOf? (.str "a b") = .ok (some 3) ∧
      (markedLines.block true).lineOf? (.str "a") = .ok none := by
  have hls : ∀ l ∈ markedLines, l.IsPlain := by decide +kernel
  have hlast : ∃ l, markedLines.getLast? = some l ∧ l.text ≠ "" := ⟨_, rfl, by decide⟩
  obtain ⟨hretained, -, hlines⟩ :=
    markers_are_found_where_taken_off _ hls hlast (markedLines.block true) rfl rfl
  obtain ⟨hdropped, -⟩ :=
    markers_are_found_where_taken_off _ hls hlast (markedLines.block false) rfl rfl
  refine ⟨hls, hlast, rfl, rfl, hretained.trans (by decide), hdropped.trans (by decide), ?_, ?_⟩
  · exact (hlines "a b" (by decide)).trans (by decide)
  · exact (hlines "a" (by decide)).trans (by decide)

end Typeset

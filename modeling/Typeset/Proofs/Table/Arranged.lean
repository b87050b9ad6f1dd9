import Typeset.Latex.Tabular
import Typeset.Proofs.Json.Scalars
import Typeset.Proofs.Table.Groups
import Typeset.Proofs.Text.Carries
import Typeset.Proofs.Text.Lines
import Typeset.Proofs.Text.Marks
import Typeset.Proofs.Tree.WellTyped

/-!
# The rows of a table as they are printed

Each data row of a table has a text of its own, with the rules and the sizing row that belong to it.
A table on one page has these texts one after the other. A long table has those of its header, of
its footer and the others: its contents are cut at the end of the header and the footer is put in
between.
-/

namespace Typeset

open Latex Text

/-- A data row of a table, and what its cells printed. -/
structure PrintedRow where
  node : Node
  index : Nat
  contents : String

namespace PrintedRow

variable (config : Config) (table : Node) (r : PrintedRow)

/-- The text of a row. -/
def text : String :=
  rowText config (Table.geometry config table) table r.index r.node.children.length r.contents

/-- The part of the table that the row belongs to. -/
def part : TablePart := (Table.geometry config table).part r.index

/-- The sizing row that is printed with the row. -/
def sizing? : Option String :=
  if r.index = (Table.geometry config table).bodyStart then
    (Table.geometry config table).sizingRow
  else none

/-- The cells of the row in the style of the row. -/
def styled : String :=
  (config.tableRowStyles.lookup ((Table.geometry config table).rowRole r.index).name).getD "" ++
    r.contents

/-- The line of the cells. -/
def line : String :=
  r.styled config table ++ padding (Table.geometry config table) r.node.children.length ++
    " \\\\"

/-- The row with its sizing row right before it, between its rules. -/
def lines : List String :=
  let (before, after) := (Table.geometry config table).rules (usesBooktabs config table) r.index
  lineOf before ++ (r.sizing? config table).toList ++ [r.line config table] ++ lineOf after

/-- The row ends the header of a long table. -/
def endsHead : Bool :=
  isLong config table && r.index + 1 == (Table.geometry config table).bodyStart

/-- The row is held back for the foot of a long table. -/
def isHeld : Bool := isLong config table && r.part config table == .foot

/-- The text of a row with the line feeds after it. -/
def withBlank : String := r.text config table ++ newlines r.node.postBlank

end PrintedRow

open PrintedRow

variable (config : Config) (table : Node) (rows : List PrintedRow)

/-- The texts of rows, each with the line feeds after it. -/
def joined : String := String.join (rows.map (·.withBlank config table))

/-- The rows of a part of the table. -/
def rowsIn (part : TablePart) : List PrintedRow := rows.filter (·.part config table == part)

/-- The rows of the footer, and the end of the last foot if there are any. -/
def lastFoot : String :=
  match rowsIn config table rows .foot with
  | [] => ""
  | foot => String.join (foot.map (·.text config table)) ++ "\\endlastfoot\n"

/-- The text at the foot of each page but the last, if it is configured and there is a footer. -/
def pageFoot : String :=
  let g := Table.geometry config table
  if g.footer.isSome && !config.tableFooterContent.isEmpty then
    command "multicolumn" (toString g.columnCount) ++ braced "r" ++
      braced config.tableFooterContent ++ " \\\\\n\\endfoot\n"
  else ""

/-- The rows of a long table: the header, the two feet, and the rest. -/
def longBody : String :=
  let feet := pageFoot config table ++ lastFoot config table rows
  let body := joined config table (rowsIn config table rows .body)
  match (rowsIn config table rows .head).getLast? with
  | none => feet ++ body
  | some last =>
    joined config table (rowsIn config table rows .head).dropLast ++ last.text config table ++
      feet ++ newlines last.node.postBlank ++ body

/-- A table over several pages, with its caption before its rows. -/
def longTable (caption : String) (label : Option String) : String :=
  let caption := captionText none caption label
  tableOpening config (Table.geometry config table) table ++ "\n" ++
    (if caption.isEmpty then "" else caption ++ " \\\\\n") ++ longBody config table rows ++
      closing "longtable" ++ "\n"

variable {config table rows}

namespace PrintedRow

variable {r : PrintedRow}

/-! ## The text of a row -/

theorem lineOf_getD {t : Option String} (h : t ≠ some "") : lineOf (t.getD "") = t.toList := by
  cases t with
  | none => rfl
  | some t =>
    have hne : t.isEmpty = false := by
      refine Bool.eq_false_iff.mpr fun hempty ↦ h ?_
      rw [String.isEmpty_iff.mp hempty]
    simp [lineOf, hne]

theorem sizingRow_ne_empty (g : Geometry) : g.sizingRow ≠ some "" := by
  unfold Geometry.sizingRow
  split
  · intro h
    have hempty := congrArg String.toList (Option.some.inj h)
    simp at hempty
  · nofun

theorem endsHead_eq :
    (isLong config table && (Table.geometry config table).header.any fun (_, last) ↦
      last == r.index) = r.endsHead config table := by
  rw [endsHead, Geometry.bodyStart]
  cases (Table.geometry config table).header with
  | none => simp
  | some span => simp [BEq.comm (a := span.2)]

/-- The text of a row are its lines, and the end of the header if it is the last row there. -/
theorem text_eq (r : PrintedRow) : r.text config table = unlines (r.lines config table) ++ "\n" ++
    if r.endsHead config table then "\\endhead\n" else "" := by
  have hsizing : lineOf (if r.index = (Table.geometry config table).bodyStart then
      (Table.geometry config table).sizingRow.getD "" else "") =
        (r.sizing? config table).toList := by
    rw [sizing?]
    split
    · exact lineOf_getD (sizingRow_ne_empty _)
    · rfl
  have hlines : r.lines config table ≠ [] := by simp [lines]
  rw [text, rowText]
  dsimp only
  rw [hsizing, endsHead_eq]
  split
  · have hmark : unlines (r.lines config table ++ ["\\endhead"]) =
        unlines (r.lines config table) ++ "\n" ++ "\\endhead" := by
      rw [unlines, String.intercalate_append_of_ne_nil hlines (List.cons_ne_nil _ _)]
      rfl
    exact (congrArg (· ++ "\n") hmark).trans (String.append_assoc ..)
  · rw [List.append_nil, String.append_empty]
    rfl

theorem part_eq_head_iff :
    r.part config table = .head ↔ r.index < (Table.geometry config table).bodyStart :=
  Table.part_eq_head_iff

theorem endsHead_eq_false (h : r.index + 1 ≠ (Table.geometry config table).bodyStart) :
    r.endsHead config table = false := by
  rw [endsHead, beq_eq_false_iff_ne.mpr h, Bool.and_false]

/-- The last row of the header ends the header. -/
theorem text_of_endsHead (hlong : isLong config table = true)
    (h : r.index + 1 = (Table.geometry config table).bodyStart) :
    r.text config table = unlines (r.lines config table) ++ "\n" ++ "\\endhead\n" := by
  rw [text_eq, endsHead, hlong, h, beq_self_eq_true]
  rfl

/-- No line that ends in the cells of the row looks like the end of the header. -/
def IsUnmarked (config : Config) (table : Node) (r : PrintedRow) : Prop :=
  ¬ Occurs "\\endhead\n" (r.styled config table)

instance : Decidable (r.IsUnmarked config table) := inferInstanceAs (Decidable (¬ Occurs _ _))

/-! ## The sizing row -/

theorem exists_cell_of_mem_widths (htable : table.isProper = true) {w : Datum} :
    w ∈ (Table.geometry config table).widths ↔ ∃ row, (Table.dataRows table).head? = some row ∧
      ∃ cell ∈ row.children, cell.isProper = true ∧ Table.cellWidth cell = w := by
  have hwidths : (Table.geometry config table).widths = ((Table.dataRows table).head?.map fun row ↦
      row.children.map Table.cellWidth).getD [] := rfl
  rw [hwidths]
  cases hhead : (Table.dataRows table).head? with
  | none => simp
  | some row =>
    have hrow := ((Node.isProper_iff table).mp htable).2 .children row
      (List.mem_of_mem_filter (List.mem_of_head? hhead))
    have hcells : ∀ cell ∈ row.children, cell.isProper = true :=
      ((Node.isProper_iff row).mp hrow).2 .children
    rw [Option.map_some, Option.getD_some, List.mem_map]
    constructor
    · rintro ⟨cell, hcell, hwidth⟩
      exact ⟨row, rfl, cell, hcell, hcells cell hcell, hwidth⟩
    · rintro ⟨row', hrow', cell, hcell, -, hwidth⟩
      obtain rfl := Option.some.inj hrow'
      exact ⟨cell, hcell, hwidth⟩

theorem cellWidth_eq {cell : Node} (h : cell.isProper = true) {w : Option Int}
    (helement : cell.element = .tableCell w) : Table.cellWidth cell = .ofNumber? w := by
  rw [Table.cellWidth, helement]
  exact congrArg (Option.getD · (Datum.ofNumber? w)) (Node.loose?_eq_none h "width")

theorem isTrue_cellWidth_iff {cell : Node} (h : cell.isProper = true) :
    (Table.cellWidth cell).isTrue = true ↔ ∃ w, cell.element = .tableCell (some w) ∧ w ≠ 0 := by
  by_cases hcell : ∃ w, cell.element = .tableCell w
  · obtain ⟨w, helement⟩ := hcell
    rw [cellWidth_eq h helement, helement]
    cases w with
    | none => simp [Datum.ofNumber?, Datum.isTrue]
    | some w => simp [Datum.ofNumber?, Datum.isTrue]
  · have hnull : Table.cellWidth cell = .null := by
      unfold Table.cellWidth
      split
      · next w helement => exact absurd ⟨w, helement⟩ hcell
      · rfl
    rw [hnull]
    refine iff_of_false (by decide) ?_
    rintro ⟨w, helement, -⟩
    exact hcell ⟨some w, helement⟩

/-- There is a sizing row if a cell of the first row asks for a width. -/
theorem isSome_sizingRow_iff (htable : table.isProper = true) :
    (Table.geometry config table).sizingRow.isSome = true ↔
      ∃ row, (Table.dataRows table).head? = some row ∧
        ∃ cell ∈ row.children, ∃ w, cell.element = .tableCell (some w) ∧ w ≠ 0 := by
  have hsome : (Table.geometry config table).sizingRow.isSome = true ↔
      (Table.geometry config table).widths.any Datum.isTrue = true := by
    unfold Geometry.sizingRow
    split
    · next hany => simp [hany]
    · next hany => simp [hany]
  rw [hsome, List.any_eq_true]
  constructor
  · rintro ⟨w, hw, htrue⟩
    obtain ⟨row, hrow, cell, hcell, hproper, rfl⟩ := (exists_cell_of_mem_widths htable).mp hw
    exact ⟨row, hrow, cell, hcell, (isTrue_cellWidth_iff hproper).mp htrue⟩
  · rintro ⟨row, hrow, cell, hcell, hwidth⟩
    have hproper := ((Node.isProper_iff row).mp (((Node.isProper_iff table).mp htable).2 .children
      row (List.mem_of_mem_filter (List.mem_of_head? hrow)))).2 .children cell hcell
    exact ⟨_, (exists_cell_of_mem_widths htable).mpr ⟨row, hrow, cell, hcell, hproper, rfl⟩,
      (isTrue_cellWidth_iff hproper).mpr hwidth⟩

theorem notMem_toString_int {ch : Char} (hdigit : ch.isDigit = false) (hsign : ch ≠ '-')
    (k : Int) : ch ∉ (toString k).toList := by
  intro hmem
  have hdigits : ch ∉ Nat.toDigits 10 k.natAbs := fun hmem ↦ by
    have hself := Nat.isDigit_of_mem_toDigits (by omega) (by omega) hmem
    rw [hdigit] at hself
    cases hself
  rw [Json.toString_int] at hmem
  split at hmem
  · exact hdigits ((List.mem_cons.mp hmem).resolve_left hsign)
  · exact hdigits hmem

/-- In the cells of the sizing row only numbers are filled in. -/
theorem notMem_sizingCell (htable : table.isProper = true) {ch : Char}
    (hdigit : ch.isDigit = false) (hsign : ch ≠ '-') (hcommand : ch ∉ "\\rulem\x7b\x7d0pt".toList)
    {w : Datum} (hw : w ∈ (Table.geometry config table).widths) :
    ch ∉ (Geometry.sizingCell w).toList := by
  unfold Geometry.sizingCell
  split
  · next htrue =>
    obtain ⟨row, -, cell, -, hproper, rfl⟩ := (exists_cell_of_mem_widths htable).mp hw
    obtain ⟨k, helement, -⟩ := (isTrue_cellWidth_iff hproper).mp htrue
    have hnumber : ch ∉ (Table.cellWidth cell).plain.toList := by
      rw [cellWidth_eq hproper helement]
      exact notMem_toString_int hdigit hsign k
    simp_all [command, braced, String.toList_append]
  · exact List.not_mem_nil

/-- No line feed stands in the sizing row. -/
theorem notMem_sizingRow (htable : table.isProper = true) {s : String}
    (h : (Table.geometry config table).sizingRow = some s) : '\n' ∉ s.toList := by
  have hcell : ∀ w ∈ (Table.geometry config table).widths,
      '\n' ∉ (Geometry.sizingCell w).toList := fun w hw ↦
    notMem_sizingCell htable (by decide) (by decide) (by decide) hw
  unfold Geometry.sizingRow at h
  split at h
  · obtain rfl := Option.some.inj h
    rw [String.toList_append, String.toList_intercalate]
    intro hmem
    rcases List.mem_append.mp hmem with hmem | hmem
    · rcases mem_intercalate hmem with hsep | ⟨t, ht, hc⟩
      · exact absurd hsep (by decide)
      · obtain ⟨u, hu, rfl⟩ := List.mem_map.mp ht
        rcases List.mem_append.mp hu with hu | hu
        · obtain ⟨w, hw, rfl⟩ := List.mem_map.mp hu
          exact hcell w hw hc
        · rw [List.eq_of_mem_replicate hu] at hc
          cases hc
    · exact absurd hmem (by decide)
  · cases h

/-! ## Lines like the end of the header -/

theorem not_endhead_suffix {c : Char} (hc : c ≠ 'd') (l : List Char) :
    ¬ "\\endhead".toList <:+ l ++ [c] := by
  intro hsuffix
  rcases List.suffix_concat_iff.mp hsuffix with hnil | ⟨t, heq, -⟩
  · cases hnil
  · have hlast := congrArg List.getLast? heq
    rw [List.getLast?_concat] at hlast
    exact hc (Option.some.inj hlast).symm

theorem isOtherLine_rule (g : Geometry) (booktabs : Bool) (index : Nat) :
    (∀ l ∈ lineOf (g.rules booktabs index).1, IsOtherLine "\\endhead".toList l) ∧
      ∀ l ∈ lineOf (g.rules booktabs index).2, IsOtherLine "\\endhead".toList l := by
  have hrule : ∀ rule ∈ ["\\toprule", "\\midrule", "\\bottomrule", "\\hline", ""],
      ∀ l ∈ lineOf rule, IsOtherLine "\\endhead".toList l := by
    unfold IsOtherLine
    decide
  unfold Geometry.rules Geometry.ruleNames
  cases booktabs <;> constructor <;> dsimp only <;> split_ifs <;> exact hrule _ (by simp)

theorem isOtherLine_sizing (htable : table.isProper = true) {l : String}
    (h : r.sizing? config table = some l) : IsOtherLine "\\endhead".toList l := by
  rw [sizing?] at h
  split at h
  · refine .of_notMem (notMem_sizingRow htable h) ?_
    unfold Geometry.sizingRow at h
    split at h
    · obtain rfl := Option.some.inj h
      rw [String.toList_append, show " \\\\[-\\normalbaselineskip]".toList =
        " \\\\[-\\normalbaselineskip".toList ++ [']'] from rfl, ← List.append_assoc]
      exact not_endhead_suffix (by decide) _
    · cases h
  · cases h

/-- What follows the cells of a row begins with a space. -/
theorem exists_padding (k : Nat) : ∃ ds, (String.join (List.replicate k " &")).toList ++
    " \\\\".toList = ' ' :: ds ∧ 'e' ∉ ds := by
  induction k with
  | zero => exact ⟨"\\\\".toList, by simp, by decide⟩
  | succ k ih =>
    obtain ⟨ds, heq, he⟩ := ih
    refine ⟨'&' :: ' ' :: ds, ?_, by simp [he]⟩
    rw [List.replicate_succ, String.join_cons, String.toList_append, List.append_assoc, heq]
    rfl

theorem IsUnmarked.isOtherLine (h : r.IsUnmarked config table) :
    IsOtherLine "\\endhead".toList (r.line config table) := by
  obtain ⟨ds, heq, he⟩ := exists_padding
    ((Table.geometry config table).columnCount - r.node.children.length)
  have hline : (r.line config table).toList = (r.styled config table).toList ++ ' ' :: ds := by
    rw [← heq, ← List.append_assoc, ← String.toList_append, ← String.toList_append]
    rfl
  constructor
  · rw [hline]
    exact not_infix_append_cons (by decide) h fun hfound ↦ he (hfound.subset (by decide))
  · rw [line, String.toList_append, show " \\\\".toList = " \\".toList ++ ['\\'] from rfl,
      ← List.append_assoc]
    exact not_endhead_suffix (by decide) _

/-- Only the cells of a row can have a line that looks like the end of the header. -/
theorem IsUnmarked.notMem_lines (htable : table.isProper = true) (h : r.IsUnmarked config table) :
    ¬ "\\endhead".toList ++ ['\n'] <:+: (unlines (r.lines config table)).toList ++ ['\n'] := by
  obtain ⟨hbefore, hafter⟩ := isOtherLine_rule (Table.geometry config table)
    (usesBooktabs config table) r.index
  refine not_infix_unlines (by decide) (by simp [lines]) fun l hl ↦ ?_
  simp only [lines, List.mem_append, List.mem_singleton] at hl
  rcases hl with ((hl | hl) | rfl) | hl
  · exact hbefore l hl
  · exact isOtherLine_sizing htable (Option.mem_toList.mp hl)
  · exact h.isOtherLine
  · exact hafter l hl

end PrintedRow

/-! ## The parts in order -/

theorem joined_append (rows more : List PrintedRow) :
    joined config table (rows ++ more) = joined config table rows ++ joined config table more := by
  rw [joined, List.map_append, String.join_append]
  rfl

section

variable (hindices : rows.map (·.index) = List.range (Table.geometry config table).rowCount)

include hindices

theorem pairwise_index : rows.Pairwise fun r r' ↦ r.index < r'.index :=
  List.pairwise_map.mp (hindices ▸ List.pairwise_lt_range)

theorem exists_row {i : Nat} (h : i < (Table.geometry config table).rowCount) :
    ∃ r ∈ rows, r.index = i := by
  rw [← List.mem_range, ← hindices] at h
  exact List.mem_map.mp h

omit hindices in
theorem filter_eq_append {rows : List PrintedRow}
    (h : rows.Pairwise fun r r' ↦ r.index < r'.index) (s : Nat) (q : PrintedRow → Bool) :
    rows.filter q = (rows.filter fun r ↦ q r && decide (r.index < s)) ++
      rows.filter fun r ↦ q r && !decide (r.index < s) := by
  induction rows with
  | nil => rfl
  | cons r rows ih =>
    obtain ⟨hfirst, hrest⟩ := List.pairwise_cons.mp h
    have ih := ih hrest
    by_cases hr : r.index < s
    · cases hq : q r <;> simp [hq, hr, ih]
    · have hnone : (rows.filter fun r ↦ q r && decide (r.index < s)) = [] := by
        refine List.filter_eq_nil_iff.mpr fun r' hr' ↦ ?_
        have := hfirst r' hr'
        simp only [Bool.and_eq_true, decide_eq_true_eq, not_and]
        omega
      rw [hnone, List.nil_append] at ih
      cases hq : q r <;> simp [hq, hr, ih, hnone]

/-- The rows that are not held back are those of the header and then those of the body. -/
theorem filter_not_foot : (rows.filter fun r ↦ !(r.part config table == .foot)) =
    rowsIn config table rows .head ++ rowsIn config table rows .body := by
  rw [filter_eq_append (pairwise_index hindices) (Table.geometry config table).bodyStart]
  have hpart : ∀ r : PrintedRow,
      decide (r.index < (Table.geometry config table).bodyStart) = (r.part config table == .head) :=
    fun r ↦ by rw [Bool.eq_iff_iff, decide_eq_true_iff, beq_iff_eq, part_eq_head_iff]
  refine congrArg₂ (· ++ ·) (List.filter_congr fun r _ ↦ ?_) (List.filter_congr fun r _ ↦ ?_)
  · rw [hpart]
    cases r.part config table <;> rfl
  · rw [hpart]
    cases r.part config table <;> rfl

/-- The header ends right before the body begins. -/
theorem index_of_getLast?_head {last : PrintedRow}
    (h : (rowsIn config table rows .head).getLast? = some last) :
    last.index + 1 = (Table.geometry config table).bodyStart ∧
      ∀ r ∈ (rowsIn config table rows .head).dropLast, r.index < last.index := by
  obtain ⟨init, hheads⟩ := List.getLast?_eq_some_iff.mp h
  have hsorted : (init ++ [last]).Pairwise fun r r' ↦ r.index < r'.index :=
    hheads ▸ (pairwise_index hindices).filter _
  have hbefore : ∀ r ∈ init, r.index < last.index := fun r hr ↦
    (List.pairwise_append.mp hsorted).2.2 r hr last List.mem_cons_self
  have hmem : ∀ r, r ∈ init ++ [last] ↔
      r ∈ rows ∧ r.index < (Table.geometry config table).bodyStart := by
    intro r
    rw [← hheads, rowsIn, List.mem_filter, beq_iff_eq, part_eq_head_iff]
  obtain ⟨hlast, hstart⟩ := (hmem last).mp (by simp)
  rw [hheads, List.dropLast_concat]
  refine ⟨?_, hbefore⟩
  rcases Nat.lt_or_ge (last.index + 1) (Table.geometry config table).bodyStart with hlt | hge
  · exfalso
    obtain ⟨r, hr, hindex⟩ := exists_row hindices (Nat.lt_of_lt_of_le hlt Table.bodyStart_le)
    have hhead := (hmem r).mpr ⟨hr, by omega⟩
    rcases List.mem_append.mp hhead with hinit | hinit
    · have := hbefore r hinit
      omega
    · rw [List.mem_singleton.mp hinit] at hindex
      omega
  · omega

/-- The first row of the body is the one right behind the header. -/
theorem find?_body_eq_some_iff {r : PrintedRow} (hr : r ∈ rows) :
    rows.find? (·.part config table == .body) = some r ↔
      r.index = (Table.geometry config table).bodyStart := by
  have hbody : ∀ r : PrintedRow, r.part config table = .body →
      (Table.geometry config table).bodyStart ≤ r.index := by
    intro r hpart
    refine Nat.le_of_not_lt fun hlt ↦ ?_
    rw [part_eq_head_iff.mpr hlt] at hpart
    cases hpart
  have hpart : ∀ r : PrintedRow, r.index = (Table.geometry config table).bodyStart →
      r.part config table = .body := by
    intro r hindex
    rw [part, hindex]
    exact Table.part_bodyStart
  rw [List.find?_eq_some_iff_append]
  constructor
  · rintro ⟨hself, before, after, rfl, hbefore⟩
    refine Nat.le_antisymm (Nat.le_of_not_lt fun hlt ↦ ?_) (hbody r (eq_of_beq hself))
    -- the row that begins the body would come earlier
    have hcount : r.index < (Table.geometry config table).rowCount := by
      rw [← List.mem_range, ← hindices]
      exact List.mem_map_of_mem hr
    obtain ⟨r', hr', hindex⟩ := exists_row hindices (Nat.lt_trans hlt hcount)
    obtain ⟨-, hafter, -⟩ := List.pairwise_append.mp (pairwise_index hindices)
    rcases List.mem_append.mp hr' with hr' | hr'
    · have hnot := hbefore r' hr'
      rw [hpart r' hindex] at hnot
      cases hnot
    · rcases List.mem_cons.mp hr' with rfl | hr'
      · omega
      · have := (List.pairwise_cons.mp hafter).1 r' hr'
        omega
  · intro hindex
    obtain ⟨before, after, rfl⟩ := List.append_of_mem hr
    refine ⟨by rw [hpart r hindex]; rfl, before, after, rfl, fun r' hr' ↦ ?_⟩
    have hlt := (List.pairwise_append.mp (pairwise_index hindices)).2.2 r' hr' r
      List.mem_cons_self
    rw [hindex, ← part_eq_head_iff] at hlt
    rw [hlt]
    rfl

/-- The sizing row comes with the first row of the body. -/
theorem sizing?_eq_some_iff {r : PrintedRow} (hr : r ∈ rows) {s : String} :
    r.sizing? config table = some s ↔ (Table.geometry config table).sizingRow = some s ∧
      rows.find? (·.part config table == .body) = some r := by
  rw [find?_body_eq_some_iff hindices hr, sizing?]
  split
  · next hindex => simp [hindex]
  · next hindex => simp [hindex]

/-- The row at the end of the header is the last one there. -/
theorem endsHead_iff {r : PrintedRow} (hr : r ∈ rows) : r.endsHead config table = true ↔
    isLong config table = true ∧ (rowsIn config table rows .head).getLast? = some r := by
  rw [endsHead, Bool.and_eq_true, beq_iff_eq]
  refine and_congr_right fun _ ↦ ⟨fun hindex ↦ ?_, fun hlast ↦
    (index_of_getLast?_head hindices hlast).1⟩
  have hhead : r ∈ rowsIn config table rows .head :=
    List.mem_filter.mpr ⟨hr, by rw [beq_iff_eq, part_eq_head_iff]; omega⟩
  obtain ⟨last, hlast⟩ := Option.ne_none_iff_exists'.mp fun hnone ↦
    List.ne_nil_of_mem hhead (List.getLast?_eq_none_iff.mp hnone)
  obtain ⟨hlastIndex, hbefore⟩ := index_of_getLast?_head hindices hlast
  obtain ⟨init, hheads⟩ := List.getLast?_eq_some_iff.mp hlast
  rw [hheads] at hhead hbefore ⊢
  rw [List.dropLast_concat] at hbefore
  rcases List.mem_append.mp hhead with hinit | hself
  · have := hbefore r hinit
    omega
  · rw [List.getLast?_concat, List.mem_singleton.mp hself]

end

/-- Each row belongs to one part. -/
theorem rowsIn_perm (config : Config) (table : Node) (rows : List PrintedRow) :
    (rowsIn config table rows .head ++ rowsIn config table rows .foot ++
      rowsIn config table rows .body).Perm rows := by
  have hrest : ((rows.filter fun r ↦ !(r.part config table == .head)).filter
      fun r ↦ r.part config table == .foot) = rowsIn config table rows .foot ∧
      ((rows.filter fun r ↦ !(r.part config table == .head)).filter
        fun r ↦ !(r.part config table == .foot)) = rowsIn config table rows .body := by
    simp only [List.filter_filter]
    constructor
    · refine List.filter_congr fun r _ ↦ ?_
      cases r.part config table <;> rfl
    · refine List.filter_congr fun r _ ↦ ?_
      cases r.part config table <;> rfl
  have hperm := List.filter_append_perm (fun r : PrintedRow ↦ r.part config table == .foot)
    (rows.filter fun r ↦ !(r.part config table == .head))
  rw [hrest.1, hrest.2] at hperm
  rw [List.append_assoc]
  exact (hperm.append_left _).trans (List.filter_append_perm _ rows)

/-! ## Long tables -/

theorem longFoot_eq : longFoot config (Table.geometry config table)
    ((rowsIn config table rows .foot).map (·.text config table)) =
      pageFoot config table ++ lastFoot config table rows := by
  rw [longFoot, pageFoot, lastFoot]
  cases rowsIn config table rows .foot <;> rfl

/-- Rows that have no line like the end of the header, and are not the end themselves, are whole
lines without it. -/
theorem lines_of_isUnmarked (htable : table.isProper = true) {rs : List PrintedRow}
    (h : ∀ r ∈ rs, r.IsUnmarked config table ∧ r.endsHead config table = false) :
    IsLined (joined config table rs).toList ∧
      ¬ "\\endhead".toList ++ ['\n'] <:+: (joined config table rs).toList := by
  have hnone : ∀ n : Nat, ¬ "\\endhead".toList ++ ['\n'] <:+: List.replicate n '\n' := by
    intro n hfound
    have hmem : '\\' ∈ List.replicate n '\n' := hfound.subset (by decide)
    cases List.eq_of_mem_replicate hmem
  have hlined : ∀ n : Nat, IsLined (List.replicate n '\n') := fun n c hc ↦
    List.eq_of_mem_replicate (List.mem_of_getLast? hc)
  have hmark : '\n' ∉ "\\endhead".toList := by decide
  induction rs with
  | nil => exact ⟨.nil, hnone 0⟩
  | cons r rs ih =>
    obtain ⟨hrest, hfree⟩ := ih fun r hr ↦ h r (.tail _ hr)
    obtain ⟨hself, hend⟩ := h r List.mem_cons_self
    have htext : (r.withBlank config table).toList =
        ((unlines (r.lines config table)).toList ++ ['\n']) ++
          List.replicate r.node.postBlank.toNat '\n' := by
      rw [withBlank, text_eq, hend, if_neg Bool.false_ne_true, String.append_empty, newlines,
        String.toList_append, String.toList_append, String.toList_ofList, String.toList_ofList]
    have hlines := not_infix_append hmark (.concat _) (hself.notMem_lines htable)
      (hnone r.node.postBlank.toNat)
    rw [joined, List.map_cons, String.join_cons, String.toList_append, htext]
    have hfirst := (IsLined.concat (unlines (r.lines config table)).toList).append
      (hlined r.node.postBlank.toNat)
    exact ⟨hfirst.append hrest, not_infix_append hmark hfirst hlines hfree⟩

section

variable (htable : table.isProper = true)
  (hindices : rows.map (·.index) = List.range (Table.geometry config table).rowCount)
  (hmarks : ∀ r ∈ rows, r.IsUnmarked config table) (hlong : isLong config table = true)

include htable hindices hmarks hlong

/-- The contents of a long table are cut where its header ends, if it has one. -/
theorem cut?_contents :
    cut? ("\\endhead".toList ++ ['\n'])
        (joined config table (rowsIn config table rows .head) ++
          joined config table (rowsIn config table rows .body)).toList =
      (rowsIn config table rows .head).getLast?.map fun last ↦
        ((joined config table (rowsIn config table rows .head).dropLast ++
            (unlines (last.lines config table) ++ "\n")).toList,
          (newlines last.node.postBlank ++
            joined config table (rowsIn config table rows .body)).toList) := by
  have hfree : ∀ r ∈ rows, r.index + 1 ≠ (Table.geometry config table).bodyStart →
      r.IsUnmarked config table ∧ r.endsHead config table = false := fun r hr hindex ↦
    ⟨hmarks r hr, endsHead_eq_false hindex⟩
  cases hlast : (rowsIn config table rows .head).getLast? with
  | none =>
    have hbody : ∀ r ∈ rowsIn config table rows .body,
        r.IsUnmarked config table ∧ r.endsHead config table = false := by
      intro r hr
      obtain ⟨hr, hpart⟩ := List.mem_filter.mp hr
      refine hfree r hr fun hindex ↦ ?_
      have hhead : r.part config table = .head := part_eq_head_iff.mpr (by omega)
      rw [hhead] at hpart
      cases hpart
    rw [List.getLast?_eq_none_iff.mp hlast]
    exact cut?_eq_none (lines_of_isUnmarked htable hbody).2
  | some last =>
    obtain ⟨hindex, hbefore⟩ := index_of_getLast?_head hindices hlast
    obtain ⟨init, hheads⟩ := List.getLast?_eq_some_iff.mp hlast
    rw [hheads, List.dropLast_concat] at hbefore
    have hmem : ∀ r ∈ init ++ [last], r ∈ rows := fun r hr ↦
      (List.mem_filter.mp (hheads ▸ hr : r ∈ rowsIn config table rows .head)).1
    have hself := text_of_endsHead hlong hindex
    have hearlier : ∀ r ∈ init, r.IsUnmarked config table ∧ r.endsHead config table = false := by
      intro r hr
      refine hfree r (hmem r (List.mem_append_left _ hr)) ?_
      have := hbefore r hr
      omega
    obtain ⟨hlined, hinit⟩ := lines_of_isUnmarked htable hearlier
    have hlines := (hmarks last (hmem last (by simp))).notMem_lines htable
    have hmark : '\n' ∉ "\\endhead".toList := by decide
    have hcut := cut?_append hmark (hlined.append (.concat _))
      (not_infix_append hmark hlined hinit hlines)
      (newlines last.node.postBlank ++
        joined config table (rowsIn config table rows .body)).toList
    rw [Option.map_some, hheads, List.dropLast_concat, joined_append]
    convert hcut using 2
    · simp [joined, withBlank, hself, String.toList_append]
    · simp [String.toList_append]

/-- A long table has its header, its feet and then its other rows. -/
theorem longTableText_eq (caption : String) (label : Option String) :
    longTableText config (Table.geometry config table) table
        (joined config table (rows.filter fun r ↦ !(r.part config table == .foot))) caption label
        ((rowsIn config table rows .foot).map (·.text config table)) =
      longTable config table rows caption label := by
  have hcut := cut?_contents htable hindices hmarks hlong
  rw [filter_not_foot hindices, joined_append, longTableText, longFoot_eq, longTable,
    longBody]
  rw [show "\\endhead".toList ++ ['\n'] = "\\endhead\n".toList from by decide] at hcut
  simp only [hcut]
  cases hlast : (rowsIn config table rows .head).getLast? with
  | none =>
    rw [List.getLast?_eq_none_iff.mp hlast]
    simp [joined]
  | some last =>
    obtain ⟨hindex, -⟩ := index_of_getLast?_head hindices hlast
    have hself := text_of_endsHead hlong hindex
    simp [hself, String.ofList_toList, String.append_assoc]

end

end Typeset

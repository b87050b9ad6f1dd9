import Mathlib.Algebra.Ring.Nat
import Typeset.Proofs.Table.Arranged
import Typeset.Proofs.TableLayout

/-!
# Separators between cells

A line of a table has an ampersand between any two cells. Those that separate cells come from the
cells behind the first one, from the padding of rows that are too short and from the sizing row.
-/

namespace Typeset

open Latex

/-- The number of ampersands in a text. -/
def tabs (t : String) : Nat := t.toList.count '&'

@[simp] theorem tabs_empty : tabs "" = 0 := rfl

@[simp] theorem tabs_append (s t : String) : tabs (s ++ t) = tabs s + tabs t := by
  rw [tabs, String.toList_append, List.count_append, tabs, tabs]

theorem tabs_eq_zero {t : String} (h : '&' ∉ t.toList) : tabs t = 0 := List.count_eq_zero.mpr h

/-- Cells from a column on, each with what separates it from the one before. -/
def separated (column : Nat) : List String → String
  | [] => ""
  | cell :: cells => (if column = 0 then cell else " & " ++ cell) ++ separated (column + 1) cells

variable {cells : List String} {column : Nat}

theorem separated_succ (column : Nat) (cell : String) (cells : List String) :
    separated (column + 1) (cell :: cells) = " & " ++ String.intercalate " & " (cell :: cells) := by
  induction cells generalizing column cell with
  | nil => simp [separated]
  | cons next cells ih =>
    rw [separated, ih, if_neg (Nat.succ_ne_zero column), String.intercalate_cons_cons]
    simp only [String.append_assoc]

/-- All cells of a row, with separators between them. -/
theorem separated_zero (cells : List String) :
    separated 0 cells = String.intercalate " & " cells := by
  cases cells with
  | nil => rfl
  | cons cell cells =>
    rw [separated, if_pos rfl]
    cases cells with
    | nil => simp [separated]
    | cons next cells =>
      rw [separated_succ, String.intercalate_cons_cons, String.append_assoc]

/-- Besides those in cells, there is one ampersand fewer than there are cells. -/
theorem tabs_intercalate (cells : List String) :
    tabs (String.intercalate " & " cells) = (cells.map tabs).sum + (cells.length - 1) := by
  cases cells with
  | nil => rfl
  | cons cell cells =>
    induction cells generalizing cell with
    | nil => simp
    | cons next cells ih =>
      have hseparator : tabs " & " = 1 := by decide
      rw [String.intercalate_cons_cons, tabs_append, tabs_append, ih, hseparator]
      simp only [List.map_cons, List.sum_cons, List.length_cons]
      omega

theorem tabs_padding (g : Geometry) (count : Nat) :
    tabs (padding g count) = g.columnCount - count := by
  rw [padding]
  generalize g.columnCount - count = missing
  induction missing with
  | zero => rfl
  | succ missing ih =>
    have hseparator : tabs " &" = 1 := by decide
    rw [List.replicate_succ, String.join_cons, tabs_append, ih, hseparator, Nat.add_comm]

namespace PrintedRow

variable {config : Config} {table : Node} {r : PrintedRow}

/-- The format that the role of a row puts before its cells. -/
def style (config : Config) (table : Node) (r : PrintedRow) : String :=
  (config.tableRowStyles.lookup ((Table.geometry config table).rowRole r.index).name).getD ""

/-- The cells of a row and the ampersands in its line. -/
structure HasCells (config : Config) (table : Node) (r : PrintedRow) (cells : List String) :
    Prop where
  length : cells.length = r.node.children.length
  contents : r.contents = String.intercalate " & " cells
  /-- Besides the ampersands in the cells and before them there are as many as separate the columns,
  and one more if there are no cells. -/
  separators : tabs (r.line config table) = tabs (r.style config table) + (cells.map tabs).sum +
    if r.node.children = [] then (Table.geometry config table).columnCount
    else (Table.geometry config table).columnCount - 1

/-- Between its cells and behind them a row has the separators of its line. -/
theorem HasCells.of_contents (hlength : cells.length = r.node.children.length)
    (hwide : r.node.children.length ≤ (Table.geometry config table).columnCount)
    (hcontents : r.contents = String.intercalate " & " cells) : r.HasCells config table cells where
  length := hlength
  contents := hcontents
  separators := by
    have hend : tabs " \\\\" = 0 := by decide
    have hstyled : r.styled config table = r.style config table ++ r.contents := rfl
    have hempty : r.node.children = [] ↔ cells.length = 0 := by
      rw [hlength, List.length_eq_zero_iff]
    simp only [line, hstyled, hcontents, tabs_append, tabs_padding, tabs_intercalate, hend, hempty,
      ← hlength] at hwide ⊢
    split <;> omega

end PrintedRow

namespace Geometry

variable {config : Config} {table : Node}

theorem length_widths_le (config : Config) (table : Node) :
    (Table.geometry config table).widths.length ≤ (Table.geometry config table).columnCount := by
  have hwidths : (Table.geometry config table).widths = ((Table.dataRows table).head?.map fun row ↦
      row.children.map Table.cellWidth).getD [] := rfl
  rw [hwidths]
  cases hhead : (Table.dataRows table).head? with
  | none => exact Nat.zero_le _
  | some row =>
    rw [Option.map_some, Option.getD_some, List.length_map]
    exact Table.length_le_columnCount (List.mem_of_head? hhead)

/-- The sizing row has as many ampersands as separate the columns. -/
theorem tabs_sizingRow (htable : table.isProper = true) {s : String}
    (h : (Table.geometry config table).sizingRow = some s) :
    tabs s = (Table.geometry config table).columnCount - 1 := by
  have hempty : ∀ t ∈ (Table.geometry config table).widths.map sizingCell ++ List.replicate
      ((Table.geometry config table).columnCount - (Table.geometry config table).widths.length) "",
        tabs t = 0 := by
    intro t ht
    rcases List.mem_append.mp ht with ht | ht
    · obtain ⟨w, hw, rfl⟩ := List.mem_map.mp ht
      exact tabs_eq_zero
        (PrintedRow.notMem_sizingCell htable (by decide) (by decide) (by decide) hw)
    · rw [List.eq_of_mem_replicate ht, tabs_empty]
  have hend : tabs " \\\\[-\\normalbaselineskip]" = 0 := by decide
  unfold sizingRow at h
  split at h
  · obtain rfl := Option.some.inj h
    rw [tabs_append, tabs_intercalate, hend, List.map_congr_left hempty, List.map_const',
      List.sum_replicate_nat, List.length_append, List.length_map, List.length_replicate,
      Nat.add_sub_cancel' (length_widths_le config table)]
    omega
  · cases h

end Geometry

end Typeset

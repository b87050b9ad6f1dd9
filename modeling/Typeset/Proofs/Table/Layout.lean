import Typeset.Proofs.Matched
import Typeset.Proofs.Tree.Faultless
import Typeset.Table.Columns

/-!
# What the layout of a table depends on

Two tables have the same layout if they have the same attributes and their rows look the same one by
one: what kinds of rows they are, how many cells they have, and the widths and the plain texts of the
cells. Nothing is wrong with the layout of a proper table.
-/

namespace Typeset.Table

open Node

/-! ## Proper tables -/

variable {table table' row row' cell cell' : Node} {rows rows' : List Node}

theorem cellFault?_eq_none (h : cell.isProper = true) : cellFault? cell = none := by
  have htext : plainTextsFault? cell.children = none :=
    plainTextsFault?_eq_none (((isProper_iff cell).mp h).2 .children)
  simp [cellFault?, loose?_eq_none h, htext]

theorem cellsFault?_eq_none (h : row.isProper = true) : cellsFault? row = none := by
  have hcells : row.children.findSome? cellFault? = none := by
    rw [List.findSome?_eq_none_iff]
    exact fun cell hcell ↦ cellFault?_eq_none (((isProper_iff row).mp h).2 .children cell hcell)
  simp [cellsFault?, loose?_eq_none h, hcells]

theorem geometryFault?_eq_none (h : table.isProper = true) : geometryFault? table = none := by
  have hrows : ∀ row ∈ table.children, row.isProper = true := ((isProper_iff table).mp h).2 .children
  have hcolgroups : (colgroups table).findSome? cellsFault? = none := by
    rw [List.findSome?_eq_none_iff]
    exact fun row hrow ↦ cellsFault?_eq_none (hrows row (List.mem_filter.mp hrow).1)
  have hdata : ((dataRows table).findSome? fun row ↦
      (row.loose? "children").bind Datum.lengthFault?) = none := by
    rw [List.findSome?_eq_none_iff]
    intro row hrow
    rw [loose?_eq_none (hrows row (List.mem_filter.mp hrow).1)]
    rfl
  simp [geometryFault?, loose?_eq_none h, hcolgroups, hdata]

theorem geometry?_of_isProper (h : table.isProper = true) (config : Config) :
    geometry? config table = .ok (geometry config table) := by
  unfold geometry?
  rw [geometryFault?_eq_none h]

theorem mem_rowsBelowHeader {g : Geometry} (h : row ∈ rowsBelowHeader g table) :
    row ∈ table.children := by
  obtain ⟨⟨row', index⟩, hmem, rfl⟩ := List.mem_map.mp h
  exact (List.of_mem_zip (List.mem_filter.mp hmem).1).1

theorem columnSpecFault?_eq_none (h : table.isProper = true) (g : Geometry) :
    columnSpecFault? g table = none := by
  have halignments : alignmentsFault? g table = none := by
    rw [alignmentsFault?, List.findSome?_eq_none_iff]
    exact fun row hrow ↦ cellsFault?_eq_none
      (((isProper_iff table).mp h).2 .children row (mem_rowsBelowHeader hrow))
  rw [columnSpecFault?, halignments, ite_self]

/-! ## Tables that look the same -/

/-- Two cells look the same to a layout. -/
structure AlikeCells (cell cell' : Node) : Prop where
  width : cellWidth cell' = cellWidth cell
  text : cellText cell' = cellText cell

/-- Two rows look the same to a layout. -/
structure AlikeRows (row row' : Node) : Prop where
  rowClass : rowClass row' = rowClass row
  cells : List.Forall₂ AlikeCells row.children row'.children

namespace AlikeRows

theorem textAt (h : AlikeRows row row') (column : Nat) :
    textAt row' column = textAt row column := by
  have htexts := map_eq_of_forall₂ h.cells (f := cellText) (g := cellText) fun _ _ hcell ↦ hcell.text
  unfold Table.textAt
  rw [← List.getElem?_map, ← List.getElem?_map, htexts]

theorem filter (h : List.Forall₂ AlikeRows rows rows') (c : RowClass) :
    List.Forall₂ AlikeRows (rows.filter (Table.rowClass · == c))
      (rows'.filter (Table.rowClass · == c)) := by
  induction h with
  | nil => exact .nil
  | cons hrow _ ih =>
    rw [List.filter_cons, List.filter_cons, hrow.rowClass]
    split
    · exact .cons hrow ih
    · exact ih

theorem widest (h : List.Forall₂ AlikeRows rows rows') : widest rows' = widest rows := by
  have hlengths := map_eq_of_forall₂ h (f := fun row ↦ row.children.length)
    (g := fun row ↦ row.children.length) fun _ _ hrow ↦ hrow.cells.length_eq.symm
  rw [Table.widest, hlengths, Table.widest]

theorem groupsFrom (h : List.Forall₂ AlikeRows rows rows') (start : Option Nat) (next : Nat) :
    groupsFrom start next rows' = groupsFrom start next rows := by
  induction h generalizing start next with
  | nil => rfl
  | cons hrow _ ih =>
    rw [Table.groupsFrom, Table.groupsFrom, hrow.rowClass]
    simp only [ih]

theorem rowIndices (h : List.Forall₂ AlikeRows rows rows') (next : Nat) :
    rowIndices next rows' = rowIndices next rows := by
  induction h generalizing next with
  | nil => rfl
  | cons hrow _ ih =>
    rw [Table.rowIndices, Table.rowIndices, isData, isData, hrow.rowClass]
    simp only [ih]

theorem any_textAt (h : List.Forall₂ AlikeRows rows rows') (column : Nat) (p : String → Bool) :
    (rows'.any fun row ↦ p (Table.textAt row column)) =
      rows.any fun row ↦ p (Table.textAt row column) := by
  induction h with
  | nil => rfl
  | cons hrow _ ih => rw [List.any_cons, List.any_cons, hrow.textAt, ih]

theorem widths (h : List.Forall₂ AlikeRows rows rows') :
    ((rows'.head?.map fun row ↦ row.children.map cellWidth).getD []) =
      (rows.head?.map fun row ↦ row.children.map cellWidth).getD [] := by
  cases h with
  | nil => rfl
  | cons hrow _ => exact map_eq_of_forall₂ hrow.cells fun _ _ hcell ↦ hcell.width

theorem columnTexts (h : List.Forall₂ AlikeRows rows rows') (column : Nat) :
    columnTexts rows' column = columnTexts rows column := by
  rw [Table.columnTexts, Table.columnTexts,
    map_eq_of_forall₂ h fun _ _ hrow ↦ hrow.textAt column]

/-- The rows that are picked by their numbers look the same. -/
theorem pick (h : List.Forall₂ AlikeRows rows rows') (p : Option Nat → Bool)
    (indices : List (Option Nat)) :
    List.Forall₂ AlikeRows (((rows.zip indices).filter fun (_, index) ↦ p index).map (·.1))
      (((rows'.zip indices).filter fun (_, index) ↦ p index).map (·.1)) := by
  induction h generalizing indices with
  | nil => exact .nil
  | cons hrow _ ih =>
    cases indices with
    | nil => exact .nil
    | cons index indices =>
      rw [List.zip_cons_cons, List.zip_cons_cons, List.filter_cons, List.filter_cons]
      dsimp only
      split
      · exact .cons hrow (ih indices)
      · exact ih indices

end AlikeRows

variable (hattributes : table'.attributes = table.attributes)
  (hrows : List.Forall₂ AlikeRows table.children table'.children)

include hattributes hrows

/-- Tables whose rows look the same have the same layout. -/
theorem geometry_eq_of_alike (config : Config) : geometry config table' = geometry config table := by
  have hdata : List.Forall₂ AlikeRows (dataRows table) (dataRows table') :=
    AlikeRows.filter hrows .data
  have hcolgroups : List.Forall₂ AlikeRows (colgroups table) (colgroups table') :=
    AlikeRows.filter hrows .colgroup
  have hmarked : ∀ mark, markedColumns mark table' = markedColumns mark table := by
    intro mark
    unfold markedColumns
    simp only [AlikeRows.widest hcolgroups, AlikeRows.any_textAt hcolgroups _ (Text.holds · mark)]
  have hheader : headerEnabled table' config = headerEnabled table config := by
    rw [headerEnabled, headerEnabled, hattributes]
  have hfooter : ∀ count, footerEnabled table' count config = footerEnabled table count config := by
    intro count
    rw [footerEnabled, footerEnabled, hattributes]
  unfold geometry
  dsimp only
  rw [AlikeRows.groupsFrom hrows, AlikeRows.rowIndices hrows, AlikeRows.widest hdata,
    AlikeRows.widths hdata, ← hdata.length_eq, hmarked, hmarked, hheader, hfooter]

/-- Tables whose rows look the same have the same columns. -/
theorem columnSpec_eq_of_alike (g : Geometry) : columnSpec g table' = columnSpec g table := by
  have hbelow : List.Forall₂ AlikeRows (rowsBelowHeader g table) (rowsBelowHeader g table') :=
    AlikeRows.pick hrows (fun index ↦ index.any fun i ↦ g.part i != .head) g.indices
  have halignments : alignments g table' = alignments g table := by
    unfold alignments
    simp only [AlikeRows.columnTexts hbelow]
  rw [columnSpec, columnSpec, hattributes, columnWord, columnWord, halignments]

end Typeset.Table

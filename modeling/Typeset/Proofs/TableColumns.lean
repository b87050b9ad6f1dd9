import Typeset.Proofs.Table.Bars
import Typeset.Proofs.TableRoles
import Typeset.Proofs.Text.Numbers
import Typeset.Proofs.Tree.Alike

/-!
# The columns of a printed table

The columns of a table are printed by a word of letters with bars between them. Bars stand between
groups of columns, and the letter of a column says whether most of its cells are numbers. The cells
are counted in one pass over the table, with two counters for each column.
-/

namespace Typeset.Table

/-! ## Cells that are counted -/

/-- The data rows that do not belong to the header. -/
def rowsOutsideHeader (g : Geometry) (table : Node) : List Node :=
  ((dataRows table).zipIdx.filter fun (_, i) ↦ g.part i != .head).map (·.1)

/-- The cells of a column below the header, but for blank ones. -/
def filledCells (g : Geometry) (table : Node) (column : Nat) : List Node :=
  ((rowsOutsideHeader g table).filterMap fun row ↦ row.children[column]?).filter fun cell ↦
    !Text.isBlankText (Node.plainTexts cell.children)

/-- The cell holds a number and nothing else. -/
def HoldsNumber (cell : Node) : Prop := (cellText cell).toList ∈ Text.numeral

instance : DecidablePred HoldsNumber :=
  fun cell ↦ decidable_of_iff _ (Text.isNumber_iff (cellText cell))

/-! ## Counters -/

/-- The counters of a row's cells go up: of each column, one for its cells and one for the numbers
among them. There may be no counters for a column. -/
def countCells (column : Nat) (counters : List (Nat × Nat)) : List Node → Option (List (Nat × Nat))
  | [] => some counters
  | cell :: cells =>
    let t := cellText cell
    if t.isEmpty then countCells (column + 1) counters cells
    else do
      let (filled, numbers) ← counters[column]?
      countCells (column + 1)
        (counters.set column (filled + 1, if Text.isNumber t then numbers + 1 else numbers)) cells

/-- The cells of all source rows are counted, but for those of the header and of rows without a
number. -/
def countRows (g : Geometry) (k : Nat) (counters : List (Nat × Nat)) :
    List Node → Option (List (Nat × Nat))
  | [] => some counters
  | row :: rows =>
    if (g.indexOf? k).any fun i ↦ g.part i != .head then do
      countRows g (k + 1) (← countCells 0 counters row.children) rows
    else countRows g (k + 1) counters rows

/-- What the word of the columns says about a table. -/
structure DescribesColumns (word : List Char) (g : Geometry) (table : Node) : Prop where
  alphabet : ∀ c ∈ word, c = 'l' ∨ c = 'r' ∨ c = '|'
  letters : (word.filter (· != '|')).length = g.columnCount
  first : word.head? ≠ some '|'
  last : word.getLast? ≠ some '|'
  single : HasSingleBars word
  /-- A bar stands between two columns if a group ends with the first or begins with the second. -/
  bars : ∀ column, column + 1 < g.columnCount → (HasBarAfter word (column + 1) ↔
    IsMarked table ">" column ∨ IsMarked table "<" (column + 1))
  /-- The letter tells whether more than half of the cells are numbers. -/
  numbers : ∀ column < g.columnCount, ((word.filter (· != '|'))[column]? = some 'r' ↔
    filledCells g table column ≠ [] ∧
      (filledCells g table column).length <
        2 * (filledCells g table column).countP (HoldsNumber ·))

variable {g : Geometry} {config : Config} {table cell row : Node} {cells rows : List Node}
  {column k n next : Nat} {texts : Nat → List String} {t : String}

/-! ## Rows below the header -/

theorem isEmpty_strip (t : String) : (Text.strip t).isEmpty = Text.isBlankText t := by
  rw [Bool.eq_iff_iff, String.isEmpty_iff, Text.strip, Text.trim, Text.isBlankText,
    List.all_eq_true, String.ofList_eq_empty_iff, Text.dropEndWhile, List.reverse_eq_nil_iff,
    List.dropWhile_eq_nil_iff]
  simp only [List.mem_reverse]
  constructor
  · intro h c hc
    rw [← List.takeWhile_append_dropWhile (p := Unicode.isBlank) (l := t.toList),
      List.mem_append] at hc
    exact hc.elim List.mem_takeWhile_imp (h c)
  · intro h c hc
    exact h c ((List.dropWhile_sublist _).subset hc)

/-- The rows with a number that is not one of the header, from a source row on. -/
theorem filter_zip_rowIndices (p : Nat → Bool) (next : Nat) (rows : List Node) :
    ((rows.zip (rowIndices next rows)).filter fun (_, index) ↦ index.any p).map (·.1) =
      (((rows.filter isData).zipIdx next).filter fun (_, i) ↦ p i).map (·.1) := by
  induction rows generalizing next with
  | nil => rfl
  | cons row rows ih =>
    rw [rowIndices, List.filter_cons]
    split
    · rw [List.zip_cons_cons, List.zipIdx_cons, List.filter_cons, List.filter_cons]
      dsimp only [Option.any_some]
      split
      · rw [List.map_cons, List.map_cons, ih]
      · exact ih (next + 1)
    · rw [List.zip_cons_cons, List.filter_cons_of_neg (by simp)]
      exact ih next

theorem rowsBelowHeader_eq (config : Config) (table : Node) :
    rowsBelowHeader (geometry config table) table =
      rowsOutsideHeader (geometry config table) table :=
  filter_zip_rowIndices (fun i ↦ (geometry config table).part i != .head) 0 table.children

theorem columnTexts_eq (rows : List Node) (column : Nat) : columnTexts rows column =
    ((rows.filterMap fun row ↦ row.children[column]?).filter fun cell ↦
      !Text.isBlankText (Node.plainTexts cell.children)).map cellText := by
  rw [columnTexts]
  induction rows with
  | nil => rfl
  | cons row rows ih =>
    rw [List.map_cons, List.filterMap_cons, textAt]
    cases row.children[column]? with
    | none => exact ih
    | some cell =>
      dsimp only [Option.map_some, Option.getD_some]
      rw [List.filter_cons, List.filter_cons, cellText, isEmpty_strip, ih]
      split <;> rfl

/-! ## Counting -/

/-- The counters of a column in which there are such texts. -/
def countsOf (texts : List String) : Nat × Nat := (texts.length, texts.countP Text.isNumber)

/-- The counters of the columns. -/
def counters (n : Nat) (texts : Nat → List String) : List (Nat × Nat) :=
  (List.range n).map fun column ↦ countsOf (texts column)

/-- The texts of some cells, if the first one is in the column and it is no blank one. -/
def filledTexts (column : Nat) (cells : List Node) (k : Nat) : List String :=
  if column ≤ k then (((cells[k - column]?).map cellText).toList).filter fun t ↦ !t.isEmpty else []

theorem countsOf_concat (texts : List String) (t : String) : countsOf (texts ++ [t]) =
    ((countsOf texts).1 + 1,
      if Text.isNumber t then (countsOf texts).2 + 1 else (countsOf texts).2) := by
  rw [countsOf, countsOf, List.length_append, List.countP_append, List.countP_singleton]
  split <;> rfl

theorem getElem?_counters (h : column < n) :
    (counters n texts)[column]? = some (countsOf (texts column)) := by
  rw [counters, List.getElem?_map, List.getElem?_range h, Option.map_some]

theorem set_counters : (counters n texts).set column (countsOf (texts column ++ [t])) =
    counters n fun k ↦ if k = column then texts k ++ [t] else texts k := by
  refine List.ext_getElem (by simp [counters]) fun k hk _ ↦ ?_
  rw [List.getElem_set]
  simp only [counters, List.getElem_map, List.getElem_range]
  by_cases hcolumn : column = k
  · rw [if_pos hcolumn, if_pos hcolumn.symm, hcolumn]
  · rw [if_neg hcolumn, if_neg (Ne.symm hcolumn)]

/-- Behind the first of some cells there are the others. -/
theorem filledTexts_cons (cell : Node) (cells : List Node) (column k : Nat) :
    filledTexts column (cell :: cells) k =
      (if k = column then [cellText cell].filter fun t ↦ !t.isEmpty else []) ++
        filledTexts (column + 1) cells k := by
  unfold filledTexts
  rcases Nat.lt_trichotomy k column with hlt | rfl | hlt
  · simp [Nat.ne_of_lt hlt, Nat.not_le_of_lt hlt, Nat.not_le_of_lt (Nat.lt_succ_of_lt hlt)]
  · simp
  · obtain ⟨j, rfl⟩ : ∃ j, k = column + 1 + j := ⟨k - (column + 1), by omega⟩
    have hindex : column + 1 + j - column = j + 1 := by omega
    rw [if_pos (by omega), if_neg (by omega), if_pos (by omega), hindex, Nat.add_sub_cancel_left,
      List.getElem?_cons_succ, List.nil_append]

/-- The counters of a row that is not wider than the table are found. -/
theorem countCells_counters (h : column + cells.length ≤ n) :
    countCells column (counters n texts) cells =
      some (counters n fun k ↦ texts k ++ filledTexts column cells k) := by
  induction cells generalizing column texts with
  | nil => simp [countCells, filledTexts]
  | cons cell cells ih =>
    rw [List.length_cons] at h
    have hrest := fun texts ↦ @ih (column + 1) texts (by omega)
    rw [countCells]
    dsimp only
    split
    · next hempty =>
      rw [hrest]
      simp [filledTexts_cons, hempty]
    · next hfilled =>
      rw [getElem?_counters (by omega)]
      change countCells (column + 1) ((counters n texts).set column _) cells = _
      rw [← countsOf_concat, set_counters, hrest]
      congr 2
      funext k
      by_cases hk : k = column
      · simp [filledTexts_cons, hk, hfilled]
      · simp [filledTexts_cons, hk]

/-- The texts of a column are those of the first row and then those of the others. -/
theorem columnTexts_cons (row : Node) (rows : List Node) (column : Nat) :
    columnTexts (row :: rows) column =
      filledTexts 0 row.children column ++ columnTexts rows column := by
  rw [columnTexts, columnTexts, List.map_cons, textAt, filledTexts, if_pos (Nat.zero_le _),
    Nat.sub_zero]
  cases row.children[column]? with
  | none => rfl
  | some cell => exact List.filter_append [cellText cell] _

/-- The counters of the columns are found for every row. -/
theorem countRows_counters {g : Geometry} {rows : List Node} {texts : Nat → List String}
    (hindices : g.indices.drop k = rowIndices next rows)
    (hwide : ∀ row ∈ rows, isData row = true → row.children.length ≤ n) :
    countRows g k (counters n texts) rows = some (counters n fun column ↦ texts column ++
      columnTexts ((((rows.filter isData).zipIdx next).filter fun (_, i) ↦
        g.part i != .head).map (·.1)) column) := by
  induction rows generalizing k next texts with
  | nil => simp [countRows, columnTexts]
  | cons row rows ih =>
    have hindex : g.indexOf? k = (rowIndices next (row :: rows))[0]?.join := by
      rw [Geometry.indexOf?, ← hindices, List.getElem?_drop, Nat.add_zero]
    have hrest : g.indices.drop (k + 1) = (rowIndices next (row :: rows)).tail := by
      rw [← hindices, List.tail_drop]
    have hbelow := fun row hrow ↦ hwide row (.tail _ hrow)
    rw [countRows, hindex]
    rw [rowIndices] at hrest ⊢
    by_cases hdata : isData row = true
    · have hcells := hwide row List.mem_cons_self hdata
      rw [if_pos hdata] at hrest ⊢
      rw [List.filter_cons_of_pos hdata, List.zipIdx_cons, List.filter_cons]
      change (if (g.part next != .head) = true then _ else _) = _
      dsimp only
      split
      · rw [countCells_counters (by omega)]
        refine (ih hrest hbelow).trans ?_
        simp only [List.map_cons, columnTexts_cons, List.append_assoc]
      · exact ih hrest hbelow
    · rw [if_neg hdata] at hrest ⊢
      rw [List.filter_cons_of_neg hdata]
      exact ih hrest hbelow

/-! ## The letters -/

theorem columnTexts_rowsBelowHeader (config : Config) (table : Node) (column : Nat) :
    columnTexts (rowsBelowHeader (geometry config table) table) column =
      (filledCells (geometry config table) table column).map cellText := by
  rw [rowsBelowHeader_eq, columnTexts_eq, filledCells]

theorem countsOf_cellText (cells : List Node) :
    countsOf (cells.map cellText) = (cells.length, cells.countP (HoldsNumber ·)) := by
  rw [countsOf, List.length_map, List.countP_map]
  congr 1
  refine List.countP_congr fun cell _ ↦ ?_
  rw [Function.comp_apply, decide_eq_true_iff]
  exact Text.isNumber_iff (cellText cell)

theorem isNumeric_cellText (cells : List Node) : isNumeric (cells.map cellText) = true ↔
    cells ≠ [] ∧ cells.length < 2 * cells.countP (HoldsNumber ·) := by
  obtain ⟨hlength, hcount⟩ := Prod.mk.inj (countsOf_cellText cells)
  rw [isNumeric, decide_eq_true_iff, hlength, hcount, iff_and_self]
  rintro hlt rfl
  exact Nat.lt_irrefl _ hlt

theorem mem_alignments {c : Char} (h : c ∈ alignments g table) : c = 'l' ∨ c = 'r' := by
  obtain ⟨column, -, rfl⟩ := List.mem_map.mp h
  split
  · exact .inr rfl
  · exact .inl rfl

/-- The letter of a column whose cells are mostly numbers. -/
theorem getElem?_alignments_iff (h : column < (geometry config table).columnCount) :
    (alignments (geometry config table) table)[column]? = some 'r' ↔
      filledCells (geometry config table) table column ≠ [] ∧
        (filledCells (geometry config table) table column).length <
          2 * (filledCells (geometry config table) table column).countP (HoldsNumber ·) := by
  rw [← isNumeric_cellText, alignments, List.getElem?_map, List.getElem?_range h, Option.map_some,
    columnTexts_rowsBelowHeader, Option.some_inj]
  split
  · next hnumeric => simp [hnumeric]
  · next hnumeric => simp [hnumeric]

/-- The word of a table describes its columns. -/
theorem describesColumns_of_geometry (h : table.isWellTyped = true) (hkind : table.kind = .table)
    (config : Config) : DescribesColumns (columnWord (geometry config table) table).toList
      (geometry config table) table := by
  have hmarked : ∀ column, (geometry config table).dividesBefore (column + 1) = true ↔
      IsMarked table ">" column ∨ IsMarked table "<" (column + 1) := by
    intro column
    rw [← mem_markedColumns_iff h hkind (by decide), ← mem_markedColumns_iff h hkind (by decide)]
    simp [Geometry.dividesBefore, geometry]
  have hcount : (alignments (geometry config table) table).length =
      (geometry config table).columnCount := by
    rw [alignments, List.length_map, List.length_range]
  have hfree : '|' ∉ alignments (geometry config table) table := by
    intro hmem
    rcases mem_alignments hmem with hc | hc <;> cases hc
  rw [columnWord, String.toList_ofList, barred_zero_eq hcount]
  constructor
  case alphabet =>
    intro c hc
    rcases mem_lined hc with rfl | hc
    · exact .inr (.inr rfl)
    · exact (mem_alignments hc).imp_right .inl
  case letters => rw [filter_lined hfree, hcount]
  case first =>
    rw [head?_lined rfl]
    exact fun hhead ↦ hfree (List.mem_of_head? hhead)
  case last =>
    rw [getLast?_lined]
    exact fun hlast ↦ hfree (List.mem_of_getLast? hlast)
  case single => exact hasSingleBars_lined hfree
  case bars =>
    intro column hcolumn
    rw [hasBarAfter_lined hfree, Nat.zero_add, hmarked, hcount]
    exact and_iff_right hcolumn
  case numbers =>
    intro column hcolumn
    rw [filter_lined hfree]
    exact getElem?_alignments_iff hcolumn

/-- A table that does not say how its columns are set is printed with a letter for each column and
with bars between groups of columns. The letter follows from counters, which are found for every
cell. -/
theorem columns_follow_from_marks_and_cells {table : Node} (h : table.isWellTyped = true)
    (hkind : table.kind = .table)
    (halign : ∀ t, table.attributes.lookup "align" = some (.str t) → t = "") (config : Config) :
    ∃ g word, geometry? config table = .ok g ∧ columnSpecFault? g table = none ∧
      columnSpec g table = .str (.ofList word) ∧ DescribesColumns word g table ∧
        countRows g 0 (List.replicate g.columnCount (0, 0)) table.children =
          some ((List.range g.columnCount).map fun column ↦
            ((filledCells g table column).length,
              (filledCells g table column).countP (HoldsNumber ·))) := by
  have hproper := Node.isProper_of_isWellTyped h
  refine ⟨_, _, geometry?_of_isProper hproper config, columnSpecFault?_eq_none hproper _, ?_,
    describesColumns_of_geometry h hkind config, ?_⟩
  · have hnone : table.attributes.true? "align" = none := by
      refine Option.filter_eq_none_iff.mpr fun j hj ↦ ?_
      have htexts := NodeInfo.areTexts_attributes (Node.info_isWellTyped h)
      have htext := ((Entries.areTexts_iff _).mp htexts).2 _ (Assoc.mem_of_lookup hj)
      cases j with
      | str t => simp [halign t hj, Json.isTrue]
      | _ => cases htext
    rw [columnSpec, hnone, Option.getD_none, String.ofList_toList]
  · have hstart : List.replicate (geometry config table).columnCount (0, 0) =
        counters (geometry config table).columnCount fun _ ↦ [] := by
      rw [counters, List.map_const', List.length_range]
      rfl
    have hwide : ∀ row ∈ table.children, isData row = true →
        row.children.length ≤ (geometry config table).columnCount := fun row hrow hdata ↦
      length_le_columnCount (List.mem_filter.mpr ⟨hrow, hdata⟩)
    have hindices : (geometry config table).indices.drop 0 = rowIndices 0 table.children := rfl
    rw [hstart, countRows_counters hindices hwide, counters]
    refine congrArg some (List.map_congr_left fun column _ ↦ ?_)
    rw [List.nil_append, columnTexts_eq]
    exact countsOf_cellText _

theorem markedTable_columns_follow_from_marks_and_cells : markedTable.isWellTyped = true ∧
    markedTable.kind = .table ∧
      (∀ t, markedTable.attributes.lookup "align" = some (.str t) → t = "") ∧
        ∃ g word, geometry? .default markedTable = .ok g ∧
          columnSpec g markedTable = .str (.ofList word) ∧ String.ofList word = "l|rr|l" ∧
            DescribesColumns word g markedTable ∧
              countRows g 0 [(0, 0), (0, 0), (0, 0), (0, 0)] markedTable.children =
                some [(3, 0), (3, 3), (2, 2), (2, 0)] := by
  have htyped : markedTable.isWellTyped = true := by decide +kernel
  have halign : ∀ t, markedTable.attributes.lookup "align" = some (.str t) → t = "" := nofun
  obtain ⟨g, word, hg, -, hspec, hword, -⟩ :=
    columns_follow_from_marks_and_cells htyped rfl halign .default
  obtain rfl := geometry_of_geometry? hg
  have htext : columnSpec (geometry .default markedTable) markedTable = .str "l|rr|l" := by
    decide +kernel
  exact ⟨htyped, rfl, halign, _, word, hg, hspec, Json.str.inj (hspec.symm.trans htext), hword,
    by decide +kernel⟩

end Typeset.Table

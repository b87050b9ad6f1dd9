import Typeset.Document
import Typeset.Proofs.Renderer
import Typeset.Proofs.Table.Separators
import Typeset.Proofs.TableRows

/-!
# The cells of a printed table

The cells of a row are printed one after the other, each in the style of its place and each but the
first behind a separator. A row that is shorter than the widest one is filled up with separators. So
there are as many in the line of each row, but for rows without cells: those are filled up as if
they had one.
-/

namespace Typeset

open Action Context Latex Render Text

variable {config : Config} {depth : Nat} {table row : Occurrence} {cell : Node} {p q : Place}
  {c c₀ d : Context} {k index column : Nat}

/-! ## Any trees -/

namespace Action.Sparing

/-- Where no table is looked at, all that is printed leaves the nodes around it as they are. -/
theorem closed (c₀ : Context) :
    Closed c₀.references.index fun _ x ↦ Sparing c₀ (fun _ ↦ False) x where
  toPlain := plain c₀ _
  within o _ hx := hx.within o
  hold table row := by
    intro c _ a d hrun
    cases hrun
    exact .hold not_false row c
  nextFootnote label := by
    intro c _ a d hrun
    have hself := Spares.nextFootnote (P := fun _ ↦ False) label c
    rwa [hrun] at hself

theorem admits (c₀ : Context) (o : Occurrence) :
    o.Admits fun _ x ↦ Sparing c₀ (fun _ ↦ False) x where
  reserve hzone := by
    have hself : Sparing c₀ (fun _ ↦ False) (Render.reserveSlot o) := reserveSlot o
    rwa [Render.reserveSlot, if_neg hzone] at hself
  route hzone text := route hzone text o.place
  release := by
    intro c _ a d hrun
    cases hrun
    exact .release not_false c

theorem nodeOfAny (c₀ : Context) (config : Config) (depth : Nat) (p : Place) (n : Node) :
    Sparing c₀ (fun _ ↦ False) (Render.node config (Render.definitionText config depth) p n) :=
  (closed c₀).nodeOfAny (admits c₀) config
    (fun e _ ↦ (closed c₀).definitionTextOfAny (admits c₀) config depth e.2) p n

theorem allOfAny (c₀ : Context) (config : Config) (depth : Nat) (p : Place) (b : Branch) (i : Nat)
    (ns : List Node) : Sparing c₀ (fun _ ↦ False)
      (Render.all config (Render.definitionText config depth) p b i ns) :=
  (closed c₀).allOfAny config (fun n _ p ↦ nodeOfAny c₀ config depth p n) p b i

end Action.Sparing

/-! ## Cells -/

/-- What a cell prints of its contents, without what separates it from the one before. -/
def cellIn (config : Config) (table cell : Node) (index column : Nat) (contents : String) :
    String :=
  let g := Table.geometry config table
  fill (Table.cellStyle config g (footerStyle table) index column).plain (strip contents) ++
    blankAfter cell

/-- What the cells of a row print from a column on, when they are printed in a context one after the
other. -/
def cellsFrom (config : Config) (expand : Occurrence → Action String) (table : Node)
    (row : Occurrence) (index column : Nat) : List Node → Context → List String
  | [], _ => []
  | cell :: cells, c =>
    let o : Occurrence := ⟨row.place.down .children column, cell⟩
    cellIn config table cell index column (contentsIn config expand o c) ::
      cellsFrom config expand table row index (column + 1) cells
        (node config expand o.place cell c).2

/-- What the cells of a row print when the row is printed in a context. -/
def printedCells (config : Config) (expand : Occurrence → Action String) (table : Node)
    (row : Occurrence) (index : Nat) (c : Context) : List String :=
  cellsFrom config expand table row index 0 row.node.children
    { c with ancestors := row :: c.ancestors }

theorem length_cellsFrom (config : Config) (expand : Occurrence → Action String) (table : Node)
    (row : Occurrence) (index column : Nat) (cells : List Node) (c : Context) :
    (cellsFrom config expand table row index column cells c).length = cells.length := by
  induction cells generalizing column c with
  | nil => rfl
  | cons cell cells ih => rw [cellsFrom, List.length_cons, ih, List.length_cons]

/-- A cell is printed after its contents. -/
theorem node_tableCell {expand : Occurrence → Action String} (hcell : cell.isWellTyped = true)
    (hkind : cell.kind = .tableCell) (q : Place) : node config expand q cell = (do
      let outputs ← within ⟨q, cell⟩ (all config expand q .children 0 cell.children)
      tableCell config ⟨q, cell⟩ (spaced cell.children outputs)) := by
  have hcaption : printsCaption cell = false := by
    rw [printsCaption, Node.isFigure, hkind]
    rfl
  obtain ⟨width, he⟩ : ∃ width, cell.element = .tableCell width := by
    rw [Node.kind] at hkind
    cases he : cell.element with
    | tableCell width => exact ⟨width, rfl⟩
    | _ =>
      rw [he] at hkind
      cases hkind
  rw [node_eq_of_children hcell (by rw [hkind]; rfl) (by rw [hkind]; rfl) hcaption
    (by rw [Node.zone, he])]
  simp only [transcribeElement, he]

/-- A cell of a data row prints its text, with a separator before it unless it is the first. -/
theorem printed_of_tableCell {contents : String} {output : Option String}
    (hparent : c.parent? = some row) (hfind : c.table? = some table)
    (hplace : row.place = table.place.down .children k)
    (hindex : (Table.geometry config table.node).indexOf? k = some index)
    (hrun : tableCell config ⟨row.place.down .children column, cell⟩ contents c =
      (.ok output, d)) :
    output = some (Latex.cellText config (Table.geometry config table.node) table.node index column
      contents) ∧ d = c := by
  obtain ⟨rfl, row', table', hparent', hfind', hcell⟩ := ok_of_tableCell hrun
  obtain rfl : row = row' := Option.some.inj (hparent.symm.trans hparent')
  obtain rfl : table = table' := Option.some.inj (hfind.symm.trans hfind')
  rw [hplace, Place.childIndex?_down, Option.bind_some, hindex] at hcell
  obtain ⟨column', hcolumn, rfl⟩ := hcell
  rw [← hplace, Place.childIndex?_down] at hcolumn
  obtain rfl : column = column' := Option.some.inj hcolumn
  exact ⟨rfl, rfl⟩

/-- The cells of a data row are printed with separators between them. -/
theorem ok_of_cells {cells : List Node} {above : List Occurrence}
    (hcells : ∀ cell ∈ cells, cell.isWellTyped = true ∧ cell.kind = .tableCell)
    (htable : table.node.kind = .table) (hrow : row.node.kind = .tableRow)
    (hplace : row.place = table.place.down .children k)
    (hindex : (Table.geometry config table.node).indexOf? k = some index)
    (habove : c.ancestors = row :: table :: above) {outputs : List (Option String)}
    (hrun : all config (definitionText config depth) row.place .children column cells c =
      (.ok outputs, d)) :
    spaced cells outputs = separated column
      (cellsFrom config (definitionText config depth) table.node row index column cells c) := by
  induction cells generalizing column c outputs with
  | nil =>
    cases hrun
    rfl
  | cons cell cells ih =>
    obtain ⟨hcell, hkind⟩ := hcells cell List.mem_cons_self
    rw [all_cons (Node.isProper_of_isWellTyped hcell)] at hrun
    obtain ⟨output, c₁, hself, hrun⟩ := ok_of_bind hrun
    obtain ⟨rest, c₂, hrest, hrun⟩ := ok_of_bind hrun
    cases hrun
    have hspares := Sparing.nodeOfAny c config depth _ cell c (.refl c) output c₁ hself
    have hnext : (node config (definitionText config depth) (row.place.down .children column) cell
        c).2 = c₁ := by rw [hself]
    rw [node_tableCell hcell hkind] at hself
    obtain ⟨inner, e, hwithin, hself⟩ := ok_of_bind hself
    have hbelow := (Sparing.allOfAny c config depth (row.place.down .children column) .children 0
      cell.children).within ⟨_, cell⟩ c (.refl c) inner e hwithin
    have hancestors := hbelow.ancestors.trans habove
    have hparent : e.parent? = some row := by rw [parent?, hancestors]; rfl
    have hfind : e.table? = some table := by
      rw [table?, hancestors, List.find?_cons_of_neg (by rw [hrow]; decide),
        List.find?_cons_of_pos (by rw [htable]; decide)]
    obtain ⟨rfl, -⟩ := printed_of_tableCell hparent hfind hplace hindex hself
    rw [spaced, cellsFrom, separated, contentsIn_of_ok hwithin, hnext,
      ← ih (fun m hm ↦ hcells m (.tail _ hm)) (hspares.ancestors.trans habove) hrest, cellIn,
      Latex.cellText]
    split
    · rfl
    · simp only [String.append_assoc]

/-! ## Rows -/

/-- A row has given its text or, if it belongs to the foot of a long table, has held it back for the
table at a place. -/
def PrintedRow.IsDelivered (config : Config) (table : Node) (r : PrintedRow) (p : Place)
    (output : Option String) (c : Context) : Prop :=
  if r.isHeld config table then
    output = none ∧ (c.rowsOf p).getLast? = some (r.text config table)
  else output = some (r.text config table)

/-- What a data row prints are its cells. -/
theorem ok_of_dataRow {m : Node} (hm : m.isWellTyped = true) (hkind : m.kind = .tableRow)
    {above : List Occurrence} (htable : table.node.kind = .table)
    (habove : c.ancestors = table :: above)
    (hindex : (Table.geometry config table.node).indexOf? k = some index) {output : Option String}
    (hrun : node config (definitionText config depth) (table.place.down .children k) m c =
      (.ok output, d)) :
    let row : Occurrence := ⟨table.place.down .children k, m⟩
    let contents := contentsIn config (definitionText config depth) row c
    contents = String.intercalate " & "
        (printedCells config (definitionText config depth) table.node row index c) ∧
      PrintedRow.IsDelivered config table.node ⟨m, index, contents⟩ table.place output d := by
  intro row contents
  have hcells : ∀ cell ∈ m.children, cell.isWellTyped = true ∧ cell.kind = .tableCell := by
    intro cell hcell
    obtain ⟨hadmits, hcell⟩ := Node.isWellTyped_of_mem_branch (b := .children) hm hcell
    rw [hkind] at hadmits
    exact ⟨hcell, eq_of_beq hadmits⟩
  rw [node_tableRow hm hkind] at hrun
  obtain ⟨outputs, e, hwithin, hrun⟩ := ok_of_bind hrun
  have hbelow := (Sparing.allOfAny c config depth row.place .children 0 m.children).within row c
    (.refl c) outputs e hwithin
  have hfind : e.table? = some table := table?_of_ancestors (hbelow.ancestors.trans habove) htable
  have hcontents : contents = spaced m.children outputs := contentsIn_of_ok hwithin
  obtain ⟨e', hall, -⟩ := ok_of_within hwithin
  have hself := printed_of_tableRow hfind hrun
  rw [hindex, ← hcontents] at hself
  refine ⟨?_, ?_⟩
  · rw [hcontents, printedCells, ← separated_zero]
    exact ok_of_cells hcells htable hkind rfl hindex (congrArg (row :: ·) habove) hall
  · rw [PrintedRow.IsDelivered]
    rcases hself with ⟨hheld, rfl, rfl⟩ | ⟨hheld, rfl, rfl⟩
    · rw [if_pos hheld, rowsOf_hold, if_pos rfl, List.getLast?_concat]
      exact ⟨rfl, rfl⟩
    · rw [if_neg (Bool.eq_false_iff.mp hheld)]

/-! ## Tables -/

theorem sparing_onBranches_of_any (c₀ : Context) (config : Config) (depth : Nat) (o : Occurrence)
    (bs : List Branch) : Sparing c₀ (fun _ ↦ False)
      (onBranches config (definitionText config depth) o bs) := by
  have hbranch : ∀ b, Sparing c₀ (fun _ ↦ False)
      (onBranch config (definitionText config depth) o b) := by
    have hall := Sparing.allOfAny c₀ config depth o.place
    rintro (_ | _ | _ | _)
    · exact (hall .children 0 _).within o
    · exact hall .title 0 _
    · exact hall .tag 0 _
    · rw [onBranch]
      split
      · exact hall .caption 0 _
      · exact (Sparing.plain c₀ _).pure []
  induction bs with
  | nil => exact (Sparing.plain c₀ _).pure _
  | cons b bs ih =>
    exact (Sparing.plain c₀ _).bind (hbranch b) fun _ ↦ (Sparing.plain c₀ _).bind ih fun _ ↦
      (Sparing.plain c₀ _).pure _

/-- When a node has been printed, each of its children has been printed right below it. -/
theorem ok_of_child {n m : Node} (hn : n.isProper = true) {output : Option String}
    (hrun : node config (definitionText config depth) p n c = (.ok output, d))
    (hm : n.children[k]? = some m) :
    (arrival config (definitionText config depth) ⟨p, n⟩ .children k c).ancestors =
        ⟨p, n⟩ :: c.ancestors ∧
      ∃ output' d', node config (definitionText config depth) (p.down .children k) m
        (arrival config (definitionText config depth) ⟨p, n⟩ .children k c) =
          (.ok output', d') := by
  rw [node_eq_branches hn] at hrun
  obtain ⟨⟨⟩, c₁, hslot, hrun⟩ := ok_of_bind hrun
  obtain ⟨outputs, e, hbranches, -⟩ := ok_of_bind hrun
  have hbranches : onBranches config (definitionText config depth) ⟨p, n⟩
      (Branch.earlier .children ++ .children :: []) c₁ = (.ok outputs, e) := hbranches
  obtain ⟨first, c₂, d₂, last, hbefore, hchildren, -⟩ :=
    ok_of_onBranches (Branch.notMem_earlier _) hbranches
  obtain ⟨d₃, hall, -⟩ := ok_of_within hchildren
  obtain ⟨before, c', output', d', after, htake, hnode, -⟩ :=
    ok_of_all (((Node.isProper_iff n).mp hn).2 .children) hm hall
  rw [Nat.zero_add] at hnode
  have harrival : arrival config (definitionText config depth) ⟨p, n⟩ .children k c = c' := by
    rw [arrival, hslot, hbefore]
    exact congrArg Prod.snd htake
  rw [harrival]
  refine ⟨?_, output', d', hnode⟩
  have hslots := Sparing.reserveSlot (P := fun _ ↦ False) ⟨p, n⟩ c (.refl c) () c₁ hslot
  have hearlier := sparing_onBranches_of_any c₁ config depth ⟨p, n⟩ _ c₁ (.refl c₁) first c₂ hbefore
  have hrows := Sparing.allOfAny _ config depth p .children 0 (n.children.take k) _ (.refl _) before
    c' htake
  rw [hrows.ancestors]
  exact congrArg _ (hearlier.ancestors.trans hslots.ancestors)

/-- In the line of a data row there is one separator fewer than there are columns, however many
cells the row has, and so there is in the sizing row. Only a row without cells has one for each
column. -/
theorem rows_are_filled_with_separators {n : Node} (hn : n.isWellTyped = true)
    (hkind : n.kind = .table) {output : Option String}
    (hrun : node config (definitionText config depth) p n c = (.ok output, d)) :
    (∀ k m, n.children[k]? = some m → m.element = .tableRow .standard →
      let row : Occurrence := ⟨p.down .children k, m⟩
      let e := arrival config (definitionText config depth) ⟨p, n⟩ .children k c
      ∃ index, (Table.geometry config n).indexOf? k = some index ∧
        let r : PrintedRow := ⟨m, index, contentsIn config (definitionText config depth) row e⟩
        r.HasCells config n (printedCells config (definitionText config depth) n row index e) ∧
          ∃ output' e', node config (definitionText config depth) row.place m e =
            (.ok output', e') ∧ r.IsDelivered config n p output' e') ∧
      ∀ s, (Table.geometry config n).sizingRow = some s →
        tabs s = (Table.geometry config n).columnCount - 1 := by
  refine ⟨fun k m hm hstandard ↦ ?_, fun s hs ↦
    Geometry.tabs_sizingRow (Node.isProper_of_isWellTyped hn) hs⟩
  have hmem := List.mem_of_getElem? hm
  obtain ⟨hadmits, htyped⟩ := Node.isWellTyped_of_mem_branch (b := .children) hn hmem
  have hdata := (Table.rowClass_iff hn hkind hmem).1.mpr hstandard
  have hindex : (Table.geometry config n).indexOf? k = some _ :=
    Table.indexOf?_eq_some_iff.mpr ⟨m, hm, hdata, rfl⟩
  obtain ⟨habove, output', d', hself⟩ := ok_of_child (Node.isProper_of_isWellTyped hn) hrun hm
  have htable : (⟨p, n⟩ : Occurrence).node.kind = .table := hkind
  have hrow : m.kind = .tableRow := by rw [Node.kind, hstandard]; rfl
  obtain ⟨hcontents, hdelivered⟩ := ok_of_dataRow htyped hrow htable habove hindex hself
  refine ⟨_, hindex, .of_contents ?_ ?_ hcontents, output', d', hself, hdelivered⟩
  · exact length_cellsFrom ..
  · refine Table.length_le_columnCount (List.mem_filter.mpr ⟨hmem, ?_⟩)
    rw [Table.isData, hdata]
    rfl

/-- A table with a row that is one cell short and a row without cells. -/
def raggedTable : Node :=
  ⟨⟨.unknown, 0, none, [("float", .str "nil")], .table, []⟩, [row ["a", "b"], row ["c"], row []],
    [], none, none⟩
where
  row (cells : List String) : Node := footedTable.node (.tableRow .standard) (cells.map fun t ↦
    footedTable.node (.tableCell (some 3)) [footedTable.text t])

def raggedDocument : Node := footedTable.node (.document []) [raggedTable]

theorem raggedTable_rows_are_filled_with_separators : raggedTable.isWellTyped = true ∧
    raggedTable.kind = .table ∧
      ∃ output d, node .default (definitionText .default 0) (.down (.ofRoot 0) .children 0)
          raggedTable raggedDocument.context = (.ok output, d) ∧
        (∃ (r : PrintedRow) (cells : List String), r.node = raggedTable.row ["c"] ∧
          r.HasCells .default raggedTable cells ∧ tabs (r.line .default raggedTable) =
            tabs (r.style .default raggedTable) + (cells.map tabs).sum + 1) ∧
        ∃ s, (Table.geometry .default raggedTable).sizingRow = some s ∧ tabs s = 1 := by
  have htyped : raggedTable.isWellTyped = true := by decide +kernel
  have hcolumns : (Table.geometry .default raggedTable).columnCount = 2 := by decide +kernel
  obtain ⟨output, htext, -⟩ := exists_ok_of_any (p := Option.isSome)
    (x := (node .default (definitionText .default 0) (.down (.ofRoot 0) .children 0) raggedTable
      raggedDocument.context).1) (by decide +kernel)
  rcases hrun : node .default (definitionText .default 0) (.down (.ofRoot 0) .children 0)
    raggedTable raggedDocument.context with ⟨result, d⟩
  rw [hrun] at htext
  subst htext
  obtain ⟨hrows, hsizing⟩ := rows_are_filled_with_separators htyped rfl hrun
  obtain ⟨index, -, hcells, -⟩ := hrows 1 (raggedTable.row ["c"]) rfl rfl
  have hseparators := hcells.separators
  have hfilled : (raggedTable.row ["c"]).children ≠ [] := List.cons_ne_nil _ _
  rw [hcolumns, if_neg hfilled] at hseparators
  refine ⟨htyped, rfl, output, d, rfl, ⟨_, _, rfl, hcells, hseparators⟩, ?_⟩
  obtain ⟨s, hs⟩ : ∃ s, (Table.geometry .default raggedTable).sizingRow = some s :=
    Option.isSome_iff_exists.mp (by decide +kernel)
  exact ⟨s, hs, by rw [hsizing s hs, hcolumns]⟩

/-- What is printed of the table. -/
def raggedTable.printed : String := unlines [
  "\\begin\x7btabular\x7d\x7bll\x7d", "\\toprule",
  "\\rule\x7b3em\x7d\x7b0pt\x7d & \\rule\x7b3em\x7d\x7b0pt\x7d \\\\[-\\normalbaselineskip]",
  "a & b \\\\", "c & \\\\", " & & \\\\", "\\bottomrule", "\\end\x7btabular\x7d", ""]

/-- The row without cells has two separators where there are two columns. -/
theorem raggedTable_has_a_separator_too_many : raggedDocument.isWellTyped = true ∧
    (Table.geometry .default raggedTable).columnCount = 2 ∧
      ∃ t, typeset .default raggedDocument = .ok t ∧ t.text = raggedTable.printed ∧
        (lines t.text)[5]? = some " & & \\\\" ∧ tabs " & & \\\\" = 2 := by
  obtain ⟨t, htypeset, htext⟩ := exists_ok_of_any (x := typeset .default raggedDocument)
    (p := fun t ↦ t.text == raggedTable.printed) (by decide +kernel)
  rw [beq_iff_eq] at htext
  exact ⟨by decide +kernel, by decide +kernel, t, htypeset, htext,
    by rw [htext]; decide +kernel, by decide⟩

end Typeset

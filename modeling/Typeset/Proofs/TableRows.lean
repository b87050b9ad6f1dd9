import Typeset.Proofs.Render.PassedOn
import Typeset.Proofs.Render.Sparing
import Typeset.Proofs.Table.Arranged
import Typeset.Proofs.Tree.Prepared

/-!
# The rows of a printed table

Every data row of a table stands in the table once: in its place, or in the foot of a long table.
The rows of the foot wait in the context until the table itself is printed, so the table must not be
printed once more in the meantime.
-/

namespace Typeset

open Action Context Latex Render Text

/-! ## What rows print -/

/-- What the trees below an occurrence print in a context. -/
def contentsIn (config : Config) (expand : Occurrence → Action String) (o : Occurrence)
    (c : Context) : String :=
  match (within o (all config expand o.place .children 0 o.node.children) c).1 with
  | .ok outputs => spaced o.node.children outputs
  | .error _ => ""

/-- The data rows among the source rows of a table, from the `k`-th one on, when they are printed
in a context, one after the other. -/
def rowsFrom (config : Config) (expand : Occurrence → Action String) (table : Occurrence) (k : Nat) :
    List Node → Context → List PrintedRow
  | [], _ => []
  | row :: rows, c =>
    let o : Occurrence := ⟨table.place.down .children k, row⟩
    (((Table.geometry config table.node).indexOf? k).map fun index ↦
        ⟨row, index, contentsIn config expand o c⟩).toList ++
      rowsFrom config expand table (k + 1) rows (node config expand o.place row c).2

/-- The data rows of a table that is printed in a context. -/
def printedRows (config : Config) (expand : Occurrence → Action String) (table : Occurrence)
    (c : Context) : List PrintedRow :=
  rowsFrom config expand table 0 table.node.children (arrival config expand table .children 0 c)

variable {config : Config} {expand : Occurrence → Action String} {table : Occurrence}
  {c₀ c d : Context} {p : Place} {P : Place → Prop}

theorem contentsIn_of_ok {o : Occurrence} {outputs : List (Option String)}
    (h : within o (all config expand o.place .children 0 o.node.children) c = (.ok outputs, d)) :
    contentsIn config expand o c = spaced o.node.children outputs := by
  rw [contentsIn, h]

/-- The data rows are numbered in the order of the source. -/
theorem map_rowsFrom {rows : List Node} {k next : Nat}
    (h : (Table.geometry config table.node).indices.drop k = Table.rowIndices next rows) :
    (rowsFrom config expand table k rows c).map (·.node) = rows.filter Table.isData ∧
      (rowsFrom config expand table k rows c).map (·.index) =
        List.range' next (rows.filter Table.isData).length := by
  induction rows generalizing k next c with
  | nil => exact ⟨rfl, rfl⟩
  | cons row rows ih =>
    have hindex : (Table.geometry config table.node).indexOf? k =
        (Table.rowIndices next (row :: rows))[0]?.join := by
      rw [Geometry.indexOf?, ← h, List.getElem?_drop, Nat.add_zero]
    have hrest : (Table.geometry config table.node).indices.drop (k + 1) =
        (Table.rowIndices next (row :: rows)).tail := by
      rw [← h, List.tail_drop]
    rw [rowsFrom, hindex, List.filter_cons]
    cases hdata : Table.isData row with
    | true =>
      rw [Table.rowIndices, hdata, if_pos rfl] at hrest ⊢
      obtain ⟨hnodes, hindices⟩ := ih (c := (node config expand (table.place.down .children k) row c).2)
        hrest
      simp [hnodes, hindices, List.range'_succ]
    | false =>
      rw [Table.rowIndices, hdata, if_neg Bool.false_ne_true] at hrest ⊢
      obtain ⟨hnodes, hindices⟩ := ih (c := (node config expand (table.place.down .children k) row c).2)
        hrest
      simp [hnodes, hindices]

theorem map_printedRows (config : Config) (expand : Occurrence → Action String)
    (table : Occurrence) (c : Context) :
    (printedRows config expand table c).map (·.node) = Table.dataRows table.node ∧
      (printedRows config expand table c).map (·.index) =
        List.range (Table.geometry config table.node).rowCount := by
  rw [List.range_eq_range']
  exact map_rowsFrom rfl

/-! ## The run of a row -/

/-- A row is printed after its cells. -/
theorem node_tableRow {row : Node} (hrow : row.isWellTyped = true) (hkind : row.kind = .tableRow)
    (q : Place) : node config expand q row = (do
      let outputs ← within ⟨q, row⟩ (all config expand q .children 0 row.children)
      tableRow config ⟨q, row⟩ (spaced row.children outputs)) := by
  have hcaption : printsCaption row = false := by
    rw [printsCaption, Node.isFigure, hkind]
    rfl
  obtain ⟨kind, he⟩ : ∃ kind, row.element = .tableRow kind := by
    rw [Node.kind] at hkind
    cases he : row.element with
    | tableRow kind => exact ⟨kind, rfl⟩
    | _ =>
      rw [he] at hkind
      cases hkind
  rw [node_eq_of_children hrow (by rw [hkind]; rfl) (by rw [hkind]; rfl) hcaption
    (by rw [Node.zone, he])]
  simp only [transcribeElement, he]

/-- A row of a table that has a number prints its text or holds it back for the table. -/
theorem printed_of_tableRow {row : Node} {k : Nat} {contents : String} {output : Option String}
    (hfind : c.table? = some table)
    (hrun : tableRow config ⟨table.place.down .children k, row⟩ contents c = (.ok output, d)) :
    match (Table.geometry config table.node).indexOf? k with
    | none => output = none ∧ d = c
    | some index =>
      let r : PrintedRow := ⟨row, index, contents⟩
      (r.isHeld config table.node = true ∧ output = none ∧
        d = (hold table.place (r.text config table.node) c).2) ∨
      (r.isHeld config table.node = false ∧ output = some (r.text config table.node) ∧ d = c) := by
  obtain ⟨table', hfind', hrow⟩ := ok_of_tableRow hrun
  obtain rfl : table = table' := Option.some.inj (hfind.symm.trans hfind')
  rw [Place.childIndex?_down, Option.bind_some] at hrow
  cases hindex : (Table.geometry config table.node).indexOf? k with
  | none =>
    rw [hindex] at hrow
    exact hrow
  | some index =>
    rw [hindex] at hrow
    dsimp only at hrow ⊢
    split at hrow
    · next hheld =>
      obtain ⟨rfl, hhold⟩ := hrow
      exact .inl ⟨hheld, rfl, (congrArg Prod.snd hhold).symm⟩
    · next hheld => exact .inr ⟨Bool.eq_false_iff.mpr hheld, hrow⟩

/-- What a row prints, or what it holds back if it belongs to the foot of a long table. -/
theorem ok_of_row {row : Node} (hrow : row.isWellTyped = true) (hkind : row.kind = .tableRow)
    {k : Nat} {above : List Occurrence} (htable : table.node.kind = .table)
    (habove : c.ancestors = table :: above) (hc : Extends c₀ c)
    (hcells : Sparing c₀ P
      (all config expand (table.place.down .children k) .children 0 row.children))
    {output : Option String}
    (hrun : node config expand (table.place.down .children k) row c = (.ok output, d)) :
    Extends c d ∧ d.ancestors = c.ancestors ∧
      match (Table.geometry config table.node).indexOf? k with
      | none => output = none ∧ (P table.place → d.rowsOf table.place = c.rowsOf table.place)
      | some index =>
        let r : PrintedRow :=
          ⟨row, index, contentsIn config expand ⟨table.place.down .children k, row⟩ c⟩
        if r.isHeld config table.node then
          output = none ∧ (P table.place →
            d.rowsOf table.place = c.rowsOf table.place ++ [r.text config table.node])
        else output = some (r.text config table.node) ∧
          (P table.place → d.rowsOf table.place = c.rowsOf table.place) := by
  rw [node_tableRow hrow hkind] at hrun
  obtain ⟨outputs, c₁, hwithin, hrun⟩ := ok_of_bind hrun
  have hspares := hcells.within ⟨table.place.down .children k, row⟩ c hc outputs c₁ hwithin
  have hcontents := contentsIn_of_ok hwithin
  have hfind : c₁.table? = some table :=
    table?_of_ancestors (hspares.ancestors.trans habove) htable
  have hself := printed_of_tableRow hfind hrun
  rw [hcontents]
  split at hself
  · obtain ⟨rfl, rfl⟩ := hself
    exact ⟨hspares.toExtends, hspares.ancestors, rfl, hspares.rows _⟩
  · rcases hself with ⟨hheld, rfl, rfl⟩ | ⟨hheld, rfl, rfl⟩
    · rw [if_pos hheld]
      refine ⟨hspares.toExtends.trans ⟨rfl, fun _ h ↦ h, fun h ↦ Assoc.nodup_put h _⟩,
        hspares.ancestors, rfl, fun hP ↦ ?_⟩
      rw [rowsOf_hold, if_pos rfl, hspares.rows _ hP]
    · rw [if_neg (Bool.eq_false_iff.mp hheld)]
      exact ⟨hspares.toExtends, hspares.ancestors, rfl, hspares.rows _⟩

/-- The rows of a table are printed one after the other, but for those that are held back. -/
theorem ok_of_rows {rows : List Node}
    (hrows : ∀ row ∈ rows, row.isWellTyped = true ∧ row.kind = .tableRow) {k : Nat}
    {above : List Occurrence} (htable : table.node.kind = .table)
    (habove : c.ancestors = table :: above) (hc : Extends c₀ c)
    (hcells : ∀ j row, rows[j]? = some row → Sparing c₀ P
      (all config expand (table.place.down .children (k + j)) .children 0 row.children))
    {outputs : List (Option String)}
    (hrun : all config expand table.place .children k rows c = (.ok outputs, d)) :
    Extends c d ∧ d.ancestors = c.ancestors ∧
      spaced rows outputs = joined config table.node
        ((rowsFrom config expand table k rows c).filter fun r ↦ !r.isHeld config table.node) ∧
      (P table.place → d.rowsOf table.place = c.rowsOf table.place ++
        ((rowsFrom config expand table k rows c).filter (·.isHeld config table.node)).map
          (·.text config table.node)) := by
  induction rows generalizing k c outputs with
  | nil =>
    cases hrun
    exact ⟨.refl _, rfl, rfl, fun _ ↦ (List.append_nil _).symm⟩
  | cons row rows ih =>
    obtain ⟨hrow, hkind⟩ := hrows row List.mem_cons_self
    rw [all_cons (Node.isProper_of_isWellTyped hrow)] at hrun
    obtain ⟨output, c₁, hfirst, hrun⟩ := ok_of_bind hrun
    obtain ⟨rest, c₂, hrest, hrun⟩ := ok_of_bind hrun
    cases hrun
    have hcell := hcells 0 row rfl
    rw [Nat.add_zero] at hcell
    obtain ⟨hextends, hancestors, hself⟩ := ok_of_row hrow hkind htable habove hc hcell hfirst
    have hrestcells : ∀ j m, rows[j]? = some m → Sparing c₀ P
        (all config expand (table.place.down .children (k + 1 + j)) .children 0 m.children) := by
      intro j m hm
      rw [show k + 1 + j = k + (j + 1) by omega]
      exact hcells (j + 1) m hm
    obtain ⟨hextends', hancestors', hspaced, hheld⟩ := ih
      (fun m hm ↦ hrows m (.tail _ hm)) (hancestors.trans habove) (hc.trans hextends) hrestcells
      hrest
    have hnext : rowsFrom config expand table k (row :: rows) c =
        (((Table.geometry config table.node).indexOf? k).map fun index ↦
          (⟨row, index, contentsIn config expand ⟨table.place.down .children k, row⟩ c⟩ :
            PrintedRow)).toList ++ rowsFrom config expand table (k + 1) rows c₁ := by
      rw [rowsFrom, hfirst]
    have hblank : blankAfter row = newlines row.postBlank := by
      rw [blankAfter, Node.isBlock, hkind]
      rfl
    rw [hnext, List.filter_append, List.filter_append, List.map_append, joined_append, ← hspaced]
    refine ⟨hextends.trans hextends', hancestors'.trans hancestors, ?_⟩
    cases hindex : (Table.geometry config table.node).indexOf? k with
    | none =>
      rw [hindex] at hself
      obtain ⟨rfl, hrows⟩ := hself
      refine ⟨(String.empty_append).symm, fun hP ↦ ?_⟩
      rw [hheld hP, hrows hP]
      rfl
    | some index =>
      rw [hindex] at hself
      dsimp only at hself
      rw [Option.map_some, Option.toList_some]
      split at hself
      · next hisHeld =>
        obtain ⟨rfl, hrows⟩ := hself
        refine ⟨by simp [hisHeld, spaced, joined], fun hP ↦ ?_⟩
        rw [hheld hP, hrows hP]
        simp [hisHeld]
      · next hisHeld =>
        obtain ⟨rfl, hrows⟩ := hself
        refine ⟨by simp [hisHeld, spaced, joined, PrintedRow.withBlank, hblank], fun hP ↦ ?_⟩
        rw [hheld hP, hrows hP]
        simp [hisHeld]

/-! ## The run of a table -/

/-- A table lets go what has been held back for it if it is a long one. -/
theorem rowsOf_of_table {o : Occurrence} {parts : Parts} {t : String}
    (hkeys : (c.heldRows.map (·.1)).Nodup) (hrun : Render.table config o parts c = (.ok t, d)) :
    ∃ label, if isLong config o.node then
        t = longTableText config (Table.geometry config o.node) o.node parts.contents
            parts.caption label (c.rowsOf o.place) ∧ d.rowsOf o.place = []
      else
        t = tableText config (Table.geometry config o.node) o.node parts.contents parts.caption
            label ∧ d.rowsOf o.place = c.rowsOf o.place := by
  obtain ⟨label, c', hlabel, hrun⟩ := ok_of_table hrun
  have hheld := heldRows_of_label? hlabel
  refine ⟨label, ?_⟩
  split at hrun
  · next hlong =>
    obtain ⟨rfl, rfl⟩ := hrun
    rw [if_pos hlong, rowsOf_release (hheld ▸ hkeys), if_pos rfl]
    exact ⟨rfl, rfl⟩
  · next hlong =>
    obtain ⟨rfl, rfl⟩ := hrun
    rw [if_neg hlong, rowsOf, rowsOf, hheld]
    exact ⟨rfl, rfl⟩

/-- No footnote that printing a table leads to holds the table. -/
def Context.KeepsApart (c : Context) (n : Node) (p : Place) : Prop :=
  ∀ definition, c.LeadsTo (n.printed p) definition →
    ∀ o ∈ definition.node.printedOn definition.place .children, o.IsApartFrom (· = p)

section

variable {n : Node} {depth : Nat} (hn : n.isWellTyped = true) (hkind : n.kind = .table)
  (hproper : ∀ definition, c.LeadsTo (n.printed p) definition → definition.node.isProper = true)
  (hP : ∀ q, P q → q = p) (hapart : P p → c.KeepsApart n p)

include hproper hP hapart in
theorem sparing_of_leadsTo {o : Occurrence} (ho : o ∈ n.printed p) {definition : Occurrence}
    (hnote : c.noteOf? o = some definition) :
    Sparing c P (definitionText config depth definition) := by
  refine .definitionText hproper (fun d hd o ho ↦ ⟨fun hq ↦ ?_, fun q hq ↦ ?_⟩) depth definition
    (.first ho hnote)
  · exact (hapart (hP _ hq ▸ hq) d hd o ho).table (hP _ hq)
  · exact (hapart (hP _ hq ▸ hq) d hd o ho).row q (hP _ hq)

include hn hkind hproper hP hapart

omit hkind in
/-- The cells of a row leave the rows of the table alone. -/
theorem sparing_cells {k : Nat} {row : Node} (hrow : n.children[k]? = some row) :
    Sparing c P (all config (definitionText config depth) (p.down .children k) .children 0
      row.children) := by
  have hmem : row ∈ n.branch .children := List.mem_of_getElem? hrow
  have hrowProper := Node.isProper_of_isWellTyped (Node.isWellTyped_of_mem_branch hn hmem).2
  have hprinted : ∀ o ∈ Node.printedIn (p.down .children k) .children 0 row.children,
      o ∈ n.printed p := by
    intro o ho
    obtain ⟨i, m, hm, ho⟩ := Node.mem_printedIn_iff.mp ho
    rw [Nat.zero_add] at ho
    refine Node.mem_printed_iff.mpr (.inr ⟨.children, Node.mem_printedOn_iff.mpr
      ⟨by simp, k, row, hrow, Node.mem_printed_iff.mpr (.inr ⟨.children, ?_⟩)⟩⟩)
    exact Node.mem_printedOn_iff.mpr ⟨by simp, i, m, hm, ho⟩
  refine .all (((Node.isProper_iff row).mp hrowProper).2 .children) (fun o ho ↦ ?_) fun o ho _ ↦
    sparing_of_leadsTo hproper hP hapart (hprinted o ho)
  obtain ⟨i, -, hbelow⟩ := Node.isBelow_of_mem_printedIn ho
  exact .of_isBelow_row hP hbelow

/-- The caption of a table leaves its rows alone. -/
theorem sparing_onBranch {b : Branch} (hb : b ≠ .children) :
    Sparing c P (onBranch config (definitionText config depth) ⟨p, n⟩ b) := by
  have hbelow := ((Node.isProper_iff n).mp (Node.isProper_of_isWellTyped hn)).2
  have hcaption : printsCaption n = true := by
    rw [printsCaption, hkind]
    simp
  have hprinted : n.printedOn p b = Node.printedIn p b 0 (n.branch b) :=
    if_neg fun h ↦ by simp [hcaption] at h
  have hall : Sparing c P (all config (definitionText config depth) p b 0 (n.branch b)) := by
    refine .all (hbelow b) (fun o ho ↦ ?_) fun o ho _ ↦ sparing_of_leadsTo hproper hP hapart ?_
    · obtain ⟨i, -, hbelow⟩ := Node.isBelow_of_mem_printedIn ho
      exact .of_isBelow_branch hP hb hbelow
    · exact Node.mem_printed_iff.mpr (.inr ⟨b, hprinted ▸ ho⟩)
  cases b with
  | title | tag => exact hall
  | caption =>
    rw [onBranch, if_pos hcaption]
    exact hall
  | children => exact absurd rfl hb

theorem sparing_onBranches {bs : List Branch} (hbs : ∀ b ∈ bs, b ≠ .children) :
    Sparing c P (onBranches config (definitionText config depth) ⟨p, n⟩ bs) := by
  induction bs with
  | nil => exact (Sparing.plain c P).pure _
  | cons b bs ih =>
    refine (Sparing.plain c P).bind ?_ fun _ ↦ (Sparing.plain c P).bind ?_ fun _ ↦
      (Sparing.plain c P).pure _
    · exact sparing_onBranch hn hkind hproper hP hapart (hbs b List.mem_cons_self)
    · exact ih fun b hb ↦ hbs b (.tail _ hb)

omit hn hproper hP hapart in
theorem element_eq_table : n.element = .table := by
  rw [Node.kind] at hkind
  cases he : n.element <;> simp_all [Element.kind]

omit hn hproper hP hapart in
/-- A table holds no slot. -/
theorem reserveSlot_table : reserveSlot ⟨p, n⟩ c = (.ok (), c) := by
  rw [reserveSlot, if_pos (by rw [Node.zone, element_eq_table hkind])]
  rfl

/-- The rows of a table that are not held back are its contents, and those that are wait for its
end. -/
theorem ok_of_tableBranches (hkeys : (c.heldRows.map (·.1)).Nodup) (hheld : c.rowsOf p = [])
    {outputs : Branch → List (Option String)} {e : Context}
    (hrun : onBranches config (definitionText config depth) ⟨p, n⟩ Branch.printOrder c =
      (.ok outputs, e)) :
    let rows := printedRows config (definitionText config depth) ⟨p, n⟩ c
    (e.heldRows.map (·.1)).Nodup ∧
      (Parts.ofOutputs n outputs).contents =
        joined config n (rows.filter fun r ↦ !r.isHeld config n) ∧
      (P p → e.rowsOf p = (rows.filter (·.isHeld config n)).map (·.text config n)) := by
  have hrun : onBranches config (definitionText config depth) ⟨p, n⟩
      (Branch.earlier .children ++ .children :: []) c = (.ok outputs, e) := hrun
  obtain ⟨first, c₁, d₁, last, hbefore, hchildren, hafter⟩ :=
    ok_of_onBranches (Branch.notMem_earlier _) hrun
  obtain ⟨-, rfl⟩ := ok_of_pure hafter
  -- what comes before the rows
  have hspares : Spares P c c₁ := sparing_onBranches hn hkind hproper hP hapart
    (fun b hb ↦ by rintro rfl; exact Branch.notMem_earlier _ hb) c (.refl c) first c₁ hbefore
  have harrival : arrival config (definitionText config depth) ⟨p, n⟩ .children 0 c =
      { c₁ with ancestors := ⟨p, n⟩ :: c₁.ancestors } := by
    rw [arrival, reserveSlot_table hkind, hbefore]
    rfl
  -- the rows
  obtain ⟨d', hall, he⟩ := ok_of_within hchildren
  have hrows : ∀ row ∈ n.children, row.isWellTyped = true ∧ row.kind = .tableRow := by
    intro row hrow
    obtain ⟨hadmits, hrow⟩ := Node.isWellTyped_of_mem_branch (b := .children) hn hrow
    rw [hkind] at hadmits
    exact ⟨hrow, eq_of_beq hadmits⟩
  have hcells : ∀ k row, n.children[k]? = some row → Sparing c P
      (all config (definitionText config depth) (p.down .children (0 + k)) .children 0
        row.children) := by
    intro k row hrow
    rw [Nat.zero_add]
    exact sparing_cells hn hproper hP hapart hrow
  have htable : (⟨p, n⟩ : Occurrence).node.kind = .table := hkind
  have hpush : Extends c₁ { c₁ with ancestors := ⟨p, n⟩ :: c₁.ancestors } :=
    ⟨rfl, fun _ h ↦ h, id⟩
  obtain ⟨hextends, -, hcontents, hheldRows⟩ := ok_of_rows hrows htable rfl
    (hspares.toExtends.trans hpush) hcells hall
  rw [← harrival] at hcontents hheldRows
  have hstart : P p →
      (arrival config (definitionText config depth) ⟨p, n⟩ .children 0 c).rowsOf p = [] := by
    intro hp
    rw [harrival]
    exact (hspares.rows p hp).trans hheld
  rw [he]
  refine ⟨hextends.keys (hspares.keys hkeys), hcontents, fun hp ↦ (hheldRows hp).trans ?_⟩
  rw [hstart hp, List.nil_append]
  rfl

/-- A table is printed from its rows that are not held back and from those that are. -/
theorem ok_of_tableNode (hkeys : (c.heldRows.map (·.1)).Nodup) (hheld : c.rowsOf p = [])
    {output : Option String} (hrun : node config (definitionText config depth) p n c =
      (.ok output, d)) :
    ∃ caption label,
      let rows := printedRows config (definitionText config depth) ⟨p, n⟩ c
      let contents := joined config n (rows.filter fun r ↦ !r.isHeld config n)
      let held := (rows.filter (·.isHeld config n)).map (·.text config n)
      (P p → d.rowsOf p = []) ∧
        if isLong config n then
          P p → output = some
            (longTableText config (Table.geometry config n) n contents caption label held)
        else output = some
          (tableText config (Table.geometry config n) n contents caption label) := by
  rw [node_eq_branches (Node.isProper_of_isWellTyped hn), bind_of_ok (reserveSlot_table hkind)]
    at hrun
  obtain ⟨outputs, e, hbranches, hself⟩ := ok_of_bind hrun
  obtain ⟨hkeys', hparts, hrowsOf⟩ :=
    ok_of_tableBranches hn hkind hproper hP hapart hkeys hheld hbranches
  simp only [transcribeElement, element_eq_table hkind] at hself
  obtain ⟨t, hprint, rfl⟩ := ok_of_map hself
  obtain ⟨label, ht⟩ := rowsOf_of_table hkeys' hprint
  rw [hparts] at ht
  refine ⟨(Parts.ofOutputs n outputs).caption, label, ?_⟩
  cases hlong : isLong config n with
  | true =>
    rw [if_pos hlong] at ht
    refine ⟨fun _ ↦ ht.2, fun hp ↦ ?_⟩
    rw [← hrowsOf hp]
    exact congrArg some ht.1
  | false =>
    rw [if_neg (by rw [hlong]; exact Bool.false_ne_true)] at ht
    refine ⟨fun hp ↦ ht.2.trans ((hrowsOf hp).trans ?_), congrArg some ht.1⟩
    -- no row of a table on one page is held back
    have hnone : ∀ r : PrintedRow, r.isHeld config n = false := fun r ↦ by
      rw [PrintedRow.isHeld, hlong, Bool.false_and]
    simp [hnone]

end

/-- The data rows of a table stand in it in their order. In a long table the rows of its footer
stand right behind its header instead, unless the table is printed once more in the meantime. -/
theorem table_rows_stand_once {n : Node} {depth : Nat} (hn : n.isWellTyped = true)
    (hkind : n.kind = .table) (hkeys : (c.heldRows.map (·.1)).Nodup) (hheld : c.rowsOf p = [])
    (hproper : ∀ definition, c.LeadsTo (n.printed p) definition → definition.node.isProper = true)
    {output : Option String}
    (hrun : node config (definitionText config depth) p n c = (.ok output, d)) :
    ∃ rows caption label, rows = printedRows config (definitionText config depth) ⟨p, n⟩ c ∧
      rows.map (·.node) = Table.dataRows n ∧
      (isLong config n = false → output =
        some (tableText config (Table.geometry config n) n (joined config n rows) caption label)) ∧
      (isLong config n = true → c.KeepsApart n p → (∀ r ∈ rows, r.IsUnmarked config n) →
        output = some (longTable config n rows caption label)) ∧
      (rowsIn config n rows .head ++ rowsIn config n rows .foot ++
        rowsIn config n rows .body).Perm rows ∧
      (∀ r ∈ rows, r.text config n = unlines (r.lines config n) ++ "\n" ++
          (if r.endsHead config n then "\\endhead\n" else "") ∧
        (r.endsHead config n = true ↔
          isLong config n = true ∧ (rowsIn config n rows .head).getLast? = some r) ∧
        ∀ s, r.sizing? config n = some s ↔ (Table.geometry config n).sizingRow = some s ∧
          rows.find? (·.part config n == .body) = some r) ∧
      ((Table.geometry config n).sizingRow.isSome = true ↔
        ∃ row, (Table.dataRows n).head? = some row ∧
          ∃ cell ∈ row.children, ∃ w, cell.element = .tableCell (some w) ∧ w ≠ 0) ∧
      (c.KeepsApart n p → d.rowsOf p = []) := by
  have htable := Node.isProper_of_isWellTyped hn
  -- if the table is printed again below itself, nothing is known of the rows that are held back
  let P : Place → Prop := fun q ↦ q = p ∧ c.KeepsApart n p
  obtain ⟨caption, label, hgone, houtput⟩ := ok_of_tableNode hn hkind hproper
    (fun q (hq : P q) ↦ hq.1) (fun hp ↦ hp.2) hkeys hheld hrun
  obtain ⟨hnodes, hindices⟩ := map_printedRows config (definitionText config depth) ⟨p, n⟩ c
  refine ⟨_, caption, label, rfl, hnodes, fun hlong ↦ ?_, fun hlong hapart hmarks ↦ ?_,
    rowsIn_perm config n _, fun r hr ↦ ⟨r.text_eq, endsHead_iff hindices hr,
      fun _ ↦ sizing?_eq_some_iff hindices hr⟩, PrintedRow.isSome_sizingRow_iff htable,
    fun hapart ↦ hgone ⟨rfl, hapart⟩⟩
  · have hnone : ∀ r : PrintedRow, r.isHeld config n = false := fun r ↦ by
      rw [PrintedRow.isHeld, hlong, Bool.false_and]
    rw [hlong, if_neg Bool.false_ne_true] at houtput
    simpa [hnone] using houtput
  · have hfoot : ∀ r : PrintedRow, r.isHeld config n = (r.part config n == .foot) := fun r ↦ by
      rw [PrintedRow.isHeld, hlong, Bool.true_and]
    rw [if_pos hlong] at houtput
    have houtput := houtput ⟨rfl, hapart⟩
    simp only [hfoot] at houtput
    rw [houtput]
    exact congrArg some (longTableText_eq htable hindices hmarks hlong caption label)

/-- A long table that has a header, a row and a footer of two rows, with a footnote in the last. -/
def footedTable : Node :=
  ⟨⟨.unknown, 0, none, attributes, .table, []⟩, rows, [], none, none⟩
where
  attributes : Attributes :=
    [("environment", .str "longtable"), ("header", .str "yes"), ("footer", .str "")]
  node (e : Element) (children : List Node) : Node :=
    ⟨⟨.unknown, 0, none, [], e, []⟩, children, [], none, none⟩
  row (cell : List Node) : Node := node (.tableRow .standard) [node (.tableCell (some 3)) cell]
  text (t : String) : Node := .inline .unknown 0 (.text t) []
  footnote (label : String) : Node := .inline .unknown 0 (.footnoteReference (some label)) []
  rule : Node := node (.tableRow .rule) []
  rows : List Node := [row [text "x"], rule, row [text "y"], rule, row [text "v"],
    row [text "w", footnote "b"]]

/-- The table in a document, and a footnote for it. -/
def footedDocument : Node := footedTable.node (.document []) [footedTable, note]
where
  note : Node := footedTable.node (.footnoteDefinition "b")
    [footedTable.node .paragraph [footedTable.text "z"]]

/-- The context in which a document is printed. -/
def Node.context (doc : Node) : Context :=
  match References.empty.add? (.ofRoot 0) doc with
  | .ok r => .ofReferences r
  | .error _ => .empty

/-- The table leads to the one footnote, and that to no other. -/
theorem eq_note_of_leadsTo {definition : Occurrence}
    (h : footedDocument.context.LeadsTo
      (footedTable.printed (.down (.ofRoot 0) .children 0)) definition) :
    definition = ⟨.down (.ofRoot 0) .children 1, footedDocument.note⟩ := by
  have hfirst : (footedTable.printed (.down (.ofRoot 0) .children 0)).filterMap
      footedDocument.context.noteOf? =
        [⟨.down (.ofRoot 0) .children 1, footedDocument.note⟩] := by
    rfl
  have hnext : (footedDocument.note.printedOn (.down (.ofRoot 0) .children 1) .children).filterMap
      footedDocument.context.noteOf? = [] := by
    rfl
  induction h with
  | first ho hnote => exact List.mem_singleton.mp (hfirst ▸ List.mem_filterMap.mpr ⟨_, ho, hnote⟩)
  | next _ ho hnote ih =>
    subst ih
    exact absurd (List.mem_filterMap.mpr ⟨_, ho, hnote⟩) (hnext ▸ List.not_mem_nil)

theorem footedDocument_keepsApart :
    footedDocument.context.KeepsApart footedTable (.down (.ofRoot 0) .children 0) := by
  intro definition hleads o ho
  obtain rfl := eq_note_of_leadsTo hleads
  obtain ⟨i, hbelow⟩ := Node.isBelow_of_mem_printedOn ho
  refine .of_not_isBelow fun q hq htable ↦ ?_
  subst hq
  exact absurd ((hbelow.trans (Place.isBelow_down _ _ _)).eq_of_down htable).2 (by decide)

theorem footedTable_rows_stand_once :
    footedTable.isWellTyped = true ∧ ∃ d rows caption label,
      node .default (definitionText .default 1) (.down (.ofRoot 0) .children 0) footedTable
        footedDocument.context = (.ok (some (longTable .default footedTable rows caption label)), d) ∧
      rows.map (·.node) = Table.dataRows footedTable ∧
        (rowsIn .default footedTable rows .foot).length = 2 ∧
          d.rowsOf (.down (.ofRoot 0) .children 0) = [] := by
  obtain ⟨output, htext, -⟩ := exists_ok_of_any (p := Option.isSome)
    (x := (node .default (definitionText .default 1) (.down (.ofRoot 0) .children 0) footedTable
      footedDocument.context).1) (by decide +kernel)
  rcases hrun : node .default (definitionText .default 1) (.down (.ofRoot 0) .children 0) footedTable
    footedDocument.context with ⟨result, d⟩
  rw [hrun] at htext
  subst htext
  obtain ⟨rows, caption, label, hrows, hnodes, -, hprinted, -, -, -, hgone⟩ :=
    table_rows_stand_once (by decide +kernel) (by decide) (by decide +kernel) (by decide +kernel)
      (fun definition hleads ↦ eq_note_of_leadsTo hleads ▸ (by decide)) hrun
  have hfacts : (printedRows .default (definitionText .default 1)
      ⟨.down (.ofRoot 0) .children 0, footedTable⟩ footedDocument.context).all (fun r ↦
        decide (r.IsUnmarked .default footedTable)) = true ∧
      (rowsIn .default footedTable (printedRows .default (definitionText .default 1)
        ⟨.down (.ofRoot 0) .children 0, footedTable⟩ footedDocument.context) .foot).length = 2 := by
    decide +kernel
  rw [← hrows, List.all_eq_true] at hfacts
  have houtput := hprinted (by decide +kernel) footedDocument_keepsApart fun r hr ↦
    of_decide_eq_true (hfacts.1 r hr)
  exact ⟨by decide +kernel, d, rows, caption, label, houtput ▸ rfl, hnodes, hfacts.2,
    hgone footedDocument_keepsApart⟩

/-- The table in a footnote that is defined in the definition of the footnote in its last row. -/
def selfCitedTable : Node := footedTable.node (.document [])
  [footedTable.node .paragraph [footedTable.footnote "a"],
    footedTable.node (.footnoteDefinition "b")
      [footedTable.node (.footnoteDefinition "a") [footedTable]]]

/-- The row that is held back when the table is printed once more below the row after it goes with
the other table. -/
theorem selfCitedTable_loses_row :
    selfCitedTable.isWellTyped = true ∧
      ∃ p t d r, (⟨p, footedTable⟩ : Occurrence) ∈ selfCitedTable.occurrences (.ofRoot 0) ∧
        selfCitedTable.context.rowsOf p = [] ∧
          node .default (definitionText .default 2) p footedTable selfCitedTable.context =
            (.ok (some t), d) ∧
          (printedRows .default (definitionText .default 2) ⟨p, footedTable⟩
            selfCitedTable.context)[2]? = some r ∧ ¬ Occurs (r.text .default footedTable) t := by
  have hmem : (⟨(((Place.ofRoot 0).down .children 1).down .children 0).down .children 0,
      footedTable⟩ : Occurrence) ∈ selfCitedTable.occurrences (.ofRoot 0) := by
    refine Node.mem_occurrences_iff.mpr (.inr ⟨.children, 1, _, rfl, ?_⟩)
    refine Node.mem_occurrences_iff.mpr (.inr ⟨.children, 0, _, rfl, ?_⟩)
    exact Node.mem_occurrences_iff.mpr (.inr ⟨.children, 0, _, rfl,
      Node.mem_occurrences_iff.mpr (.inl rfl)⟩)
  generalize hp : (((Place.ofRoot 0).down .children 1).down .children 0).down .children 0 = p at hmem
  obtain ⟨output, hself, hlost⟩ := exists_ok_of_any
    (x := (node .default (definitionText .default 2) p footedTable selfCitedTable.context).1)
    (p := fun output ↦ output.any fun t ↦ (printedRows .default (definitionText .default 2)
      ⟨p, footedTable⟩ selfCitedTable.context)[2]?.any fun r ↦
        decide (¬ Occurs (r.text .default footedTable) t)) (by subst hp; decide +kernel)
  simp only [Option.any_eq_true, decide_eq_true_eq] at hlost
  obtain ⟨t', rfl, r, hr, hlost⟩ := hlost
  exact ⟨by decide +kernel, p, t', _, r, hmem, by subst hp; decide +kernel, Prod.ext hself rfl,
    hr, hlost⟩

end Typeset

import Typeset.Proofs.Table.Layout
import Typeset.Proofs.Table.Tiling

/-!
# The layout of a table

The data rows of a table are numbered in the order of the source, and its groups tile them: a new
group begins where a rule row stands between two data rows. The header is the first of several
groups, or the first row, and the footer is the last one of more than two. So the rows of the header
come first, then those of the body, of which there is one at least if there is a footer, and then
those of the footer.
-/

namespace Typeset

namespace Table

variable {config : Config} {table row : Node} {rows : List Node} {span : Nat × Nat}
  {column i j k : Nat}

/-! ## The rows of a well-typed table -/

theorem element_of_mem_children (h : table.isWellTyped = true) (hkind : table.kind = .table)
    (hrow : row ∈ table.children) : row.element = .tableRow .standard ∨
      row.element = .tableRow .rule ∨ row.element = .tableRow .colgroup := by
  obtain ⟨hadmits, htyped⟩ := Node.isWellTyped_of_mem_branch (b := .children) h hrow
  rw [hkind] at hadmits
  have hrowKind : row.kind = .tableRow := by
    simpa [Kind.content, Kind.childContent, Content.admits] using hadmits
  have helement : row.element.isWellTyped = true := by
    have hinfo := Node.info_isWellTyped htyped
    rw [NodeInfo.isWellTyped, Bool.and_eq_true] at hinfo
    exact hinfo.2
  rw [Node.kind] at hrowKind
  cases he : row.element with
  | tableRow kind =>
    rw [he] at helement
    cases kind with
    | standard => exact .inl rfl
    | rule => exact .inr (.inl rfl)
    | colgroup => exact .inr (.inr rfl)
    | undeclared name => cases helement
  | _ =>
    rw [he] at hrowKind
    cases hrowKind

theorem rowClass_iff (h : table.isWellTyped = true) (hkind : table.kind = .table)
    (hrow : row ∈ table.children) :
    (rowClass row = .data ↔ row.element = .tableRow .standard) ∧
      (rowClass row = .rule ↔ row.element = .tableRow .rule) := by
  rcases element_of_mem_children h hkind hrow with he | he | he
  all_goals simp [rowClass, rowKind?, he]

/-! ## Columns and their marks

The marks in column-group rows tell where groups of columns begin and end. Every data row has at
most as many cells as there are columns.
-/

/-- A column-group row has a mark in the column. -/
def IsMarked (table : Node) (mark : String) (column : Nat) : Prop :=
  ∃ row ∈ table.children, row.element = .tableRow .colgroup ∧
    ∃ cell, row.children[column]? = some cell ∧ Text.holds (cellText cell) mark = true

/-- No row is wider than the widest one. -/
theorem length_le_widest (hrow : row ∈ rows) : row.children.length ≤ widest rows := by
  rw [widest, List.foldl_max, Nat.zero_max]
  exact List.le_max?_getD_of_mem (List.mem_map_of_mem hrow)

theorem length_le_columnCount (hrow : row ∈ dataRows table) :
    row.children.length ≤ (geometry config table).columnCount := length_le_widest hrow

theorem mem_colgroups_iff (h : table.isWellTyped = true) (hkind : table.kind = .table) :
    row ∈ colgroups table ↔ row ∈ table.children ∧ row.element = .tableRow .colgroup := by
  rw [colgroups, List.mem_filter, beq_iff_eq]
  refine and_congr_right fun hrow ↦ ?_
  rcases element_of_mem_children h hkind hrow with he | he | he
  all_goals simp [rowClass, rowKind?, he]

/-- The columns with a mark are those in which a cell holds it. -/
theorem mem_markedColumns_iff (h : table.isWellTyped = true) (hkind : table.kind = .table)
    {mark : String} (hmark : Text.holds "" mark = false) :
    column ∈ markedColumns mark table ↔ IsMarked table mark column := by
  rw [markedColumns, List.mem_filter, List.mem_range, List.any_eq_true]
  constructor
  · rintro ⟨-, row, hrow, hholds⟩
    obtain ⟨hrow, helement⟩ := (mem_colgroups_iff h hkind).mp hrow
    rw [textAt] at hholds
    cases hcell : row.children[column]? with
    | none =>
      rw [hcell, Option.map_none, Option.getD_none, hmark] at hholds
      cases hholds
    | some cell =>
      rw [hcell, Option.map_some, Option.getD_some] at hholds
      exact ⟨row, hrow, helement, cell, hcell, hholds⟩
  · rintro ⟨row, hrow, helement, cell, hcell, hholds⟩
    have hgroup := (mem_colgroups_iff h hkind).mpr ⟨hrow, helement⟩
    obtain ⟨hlt, -⟩ := List.getElem?_eq_some_iff.mp hcell
    refine ⟨Nat.lt_of_lt_of_le hlt (length_le_widest hgroup), row, hgroup, ?_⟩
    rw [textAt, hcell, Option.map_some, Option.getD_some]
    exact hholds

/-! ## Numbers of rows -/

/-- A data row has the number of data rows before it. -/
theorem indexOf?_eq_some_iff : (geometry config table).indexOf? k = some i ↔
    ∃ row, table.children[k]? = some row ∧ rowClass row = .data ∧
      (table.children.take k).countP isData = i := by
  have hjoin : (geometry config table).indexOf? k = (rowIndices 0 table.children)[k]?.join := rfl
  rw [hjoin, join_getElem?_rowIndices, Option.bind_eq_some_iff]
  simp [isData]

/-- The source rows behind one and before another one. -/
def rowsBetween (table : Node) (j k : Nat) : List Node :=
  (table.children.drop (j + 1)).take (k - (j + 1))

theorem mem_rowsBetween :
    row ∈ rowsBetween table j k ↔ ∃ m, j < m ∧ m < k ∧ table.children[m]? = some row := by
  rw [rowsBetween, List.mem_iff_getElem?]
  simp only [List.getElem?_take, List.getElem?_drop]
  constructor
  · rintro ⟨m, hm⟩
    split at hm
    · exact ⟨j + 1 + m, by omega, by omega, hm⟩
    · cases hm
  · rintro ⟨m, hj, hk, hm⟩
    refine ⟨m - (j + 1), ?_⟩
    rwa [if_pos (by omega), Nat.add_sub_cancel' (by omega)]

/-- Between the rows of two numbers that follow each other there are no data rows. -/
theorem exists_rowsBetween (hj : (geometry config table).indexOf? j = some i)
    (hk : (geometry config table).indexOf? k = some (i + 1)) :
    ∃ first second, table.children = table.children.take j ++
        first :: (rowsBetween table j k ++ second :: table.children.drop (k + 1)) ∧
      rowClass first = .data ∧ rowClass second = .data ∧
        ∀ row ∈ rowsBetween table j k, rowClass row ≠ .data := by
  obtain ⟨first, hfirst, hdata, hcount⟩ := indexOf?_eq_some_iff.mp hj
  obtain ⟨second, hsecond, hdata', hcount'⟩ := indexOf?_eq_some_iff.mp hk
  unfold rowsBetween
  generalize table.children = rows at *
  obtain ⟨hjlt, rfl⟩ := List.getElem?_eq_some_iff.mp hfirst
  obtain ⟨hklt, rfl⟩ := List.getElem?_eq_some_iff.mp hsecond
  have hjk : j < k := by
    by_contra hle
    have hprefix := (List.take_prefix_take_left (l := rows) (Nat.not_lt.mp hle)).sublist
    have hle := hprefix.countP_le (p := isData)
    omega
  have hbefore : (rows.take (j + 1)).countP isData = i + 1 := by
    rw [List.take_succ_eq_append_getElem hjlt, List.countP_append, hcount,
      List.countP_cons_of_pos (by rw [isData, hdata]; rfl)]
    rfl
  have hsplit : rows.take k = rows.take (j + 1) ++ (rows.drop (j + 1)).take (k - (j + 1)) := by
    rw [← List.take_add, Nat.add_sub_cancel' hjk]
  have hnone : ((rows.drop (j + 1)).take (k - (j + 1))).countP isData = 0 := by
    rw [hsplit, List.countP_append, hbefore] at hcount'
    omega
  refine ⟨rows[j], rows[k], ?_, hdata, hdata', fun row hrow hclass ↦ ?_⟩
  · rw [← List.drop_eq_getElem_cons hklt, ← List.singleton_append, ← List.append_assoc,
      ← List.take_succ_eq_append_getElem hjlt, ← List.append_assoc, ← hsplit,
      List.take_append_drop]
  · refine List.countP_eq_zero.mp hnone row hrow ?_
    rw [isData, hclass]
    rfl

/-- Two data rows whose numbers follow each other are in one group exactly if no rule row stands
between them. -/
theorem exists_group_iff_of_indexOf? (hj : (geometry config table).indexOf? j = some i)
    (hk : (geometry config table).indexOf? k = some (i + 1)) :
    (∃ group ∈ (geometry config table).groups, group.1 ≤ i ∧ i + 1 ≤ group.2) ↔
      ∀ row ∈ rowsBetween table j k, rowClass row ≠ .rule := by
  obtain ⟨first, second, hchildren, hfirst, hsecond, hbetween⟩ := exists_rowsBetween hj hk
  obtain ⟨-, -, -, hcount⟩ := indexOf?_eq_some_iff.mp hj
  have hiff := @exists_group_iff (table.children.take j) (rowsBetween table j k)
    (table.children.drop (k + 1)) first second hfirst hsecond hbetween
  rwa [← hchildren, hcount] at hiff

/-! ## Header, body and footer -/

theorem flatMap_rowsOf_groups (config : Config) (table : Node) :
    (geometry config table).groups.flatMap rowsOf =
      List.range (geometry config table).rowCount := by
  have hself := @flatMap_rowsOf_groupsFrom none 0 nofun table.children
  rw [Option.getD_none, Nat.sub_self, Nat.zero_add, ← List.range_eq_range'] at hself
  exact hself

theorem fst_le_snd_of_mem_groups {group : Nat × Nat} (h : group ∈ (geometry config table).groups) :
    group.1 ≤ group.2 ∧ group.2 < (geometry config table).rowCount := by
  obtain ⟨-, hspan, hlast⟩ := @bounds_of_mem_groupsFrom none 0 table.children nofun group h
  rw [Nat.zero_add] at hlast
  exact ⟨hspan, hlast⟩

/-- The last group ends with the table. -/
theorem snd_getLast_groups (h : (geometry config table).groups.getLast? = some span) :
    span.2 + 1 = (geometry config table).rowCount := by
  obtain ⟨hspan, hlast⟩ := fst_le_snd_of_mem_groups (List.mem_of_getLast? h)
  obtain ⟨groups, hgroups⟩ := List.getLast?_eq_some_iff.mp h
  have htiles := congrArg List.getLast? (flatMap_rowsOf_groups config table)
  rw [hgroups, List.flatMap_append, List.flatMap_singleton, List.getLast?_append, rowsOf,
    List.getLast?_range', List.getLast?_range, if_neg (by omega), if_neg (by omega),
    Option.some_or] at htiles
  have hend := Option.some.inj htiles
  omega

theorem header_eq (config : Config) (table : Node) : (geometry config table).header =
    if 0 < (geometry config table).rowCount && headerEnabled table config then
      match (geometry config table).groups with
      | first :: _ :: _ => some first
      | _ => some (0, 0)
    else none := rfl

theorem footer_eq (config : Config) (table : Node) : (geometry config table).footer =
    if footerEnabled table (geometry config table).groups.length config then
      (geometry config table).groups.getLast?
    else none := rfl

/-- The footer is the last group. -/
theorem getLast?_of_footer (h : (geometry config table).footer = some span) :
    (geometry config table).groups.getLast? = some span := by
  rw [footer_eq] at h
  split at h
  · exact h
  · cases h

/-- The row that the footer begins with, or the one behind the table if there is no footer. -/
def footStart (g : Geometry) : Nat := (g.footer.map (·.1)).getD g.rowCount

theorem footStart_le (config : Config) (table : Node) :
    footStart (geometry config table) ≤ (geometry config table).rowCount := by
  unfold footStart
  cases hfooter : (geometry config table).footer with
  | none => exact Nat.le_refl _
  | some span =>
    have hmem := List.mem_of_getLast? (getLast?_of_footer hfooter)
    obtain ⟨hspan, hlast⟩ := fst_le_snd_of_mem_groups hmem
    exact Nat.le_of_lt (Nat.lt_of_le_of_lt hspan hlast)

theorem bodyStart_le_footStart (config : Config) (table : Node) :
    (geometry config table).bodyStart ≤ footStart (geometry config table) := by
  unfold footStart
  cases hfooter : (geometry config table).footer with
  | none => exact bodyStart_le
  | some span => exact Nat.le_of_lt (bodyStart_lt_footer hfooter)

/-- The rows of the footer are those from its first one on. -/
theorem within_footer_iff (hi : i < (geometry config table).rowCount) :
    Geometry.within (geometry config table).footer i = true ↔
      footStart (geometry config table) ≤ i := by
  unfold footStart
  cases hfooter : (geometry config table).footer with
  | none =>
    constructor
    · intro hwithin
      cases hwithin
    · intro hle
      exact absurd hi (Nat.not_lt.mpr hle)
  | some span =>
    have hlast := snd_getLast_groups (getLast?_of_footer hfooter)
    have hle : i ≤ span.2 := by omega
    simp [Geometry.within, hle]

theorem part_eq_foot_iff (hi : i < (geometry config table).rowCount) :
    (geometry config table).part i = .foot ↔ footStart (geometry config table) ≤ i := by
  have hle := bodyStart_le_footStart config table
  rw [← within_footer_iff hi]
  constructor
  · intro hfoot
    by_contra hwithin
    rw [Geometry.part, if_neg hwithin] at hfoot
    split at hfoot
    · cases hfoot
    · cases hfoot
  · intro hwithin
    have hbody : ¬ (geometry config table).part i = .head := by
      rw [part_eq_head_iff]
      have := (within_footer_iff hi).mp hwithin
      omega
    rw [part_eq_head_iff_within] at hbody
    rw [Geometry.part, if_neg hbody, if_pos hwithin]

/-- A part that some rows in a row belong to. -/
theorem map_part_eq_replicate {g : Geometry} {part : TablePart} {first count : Nat}
    (h : ∀ i, first ≤ i → i < first + count → g.part i = part) :
    (List.range' first count).map g.part = List.replicate count part := by
  refine List.eq_replicate_iff.mpr ⟨by rw [List.length_map, List.length_range'], ?_⟩
  intro p hp
  obtain ⟨i, hi, rfl⟩ := List.mem_map.mp hp
  obtain ⟨hfirst, hlast⟩ := List.mem_range'_1.mp hi
  exact h i hfirst hlast

/-- Numbers up to the last of three bounds that follow each other. -/
theorem range_eq_append {first second last : Nat} (h : first ≤ second) (h' : second ≤ last) :
    List.range last = List.range' 0 first ++
      (List.range' first (second - first) ++ List.range' second (last - second)) := by
  have hrest : List.range' first (second - first) ++ List.range' second (last - second) =
      List.range' first (last - first) := by
    have happend := List.range'_append_1 (s := first) (m := second - first) (n := last - second)
    rw [Nat.add_sub_cancel' h] at happend
    rw [happend]
    congr 1
    omega
  have happend := List.range'_append_1 (s := 0) (m := first) (n := last - first)
  rw [Nat.zero_add, Nat.add_sub_cancel' (Nat.le_trans h h')] at happend
  rw [hrest, happend, List.range_eq_range']

/-- The rows of the header come first, then those of the body and then those of the footer. -/
theorem map_part_range {g : Geometry} (hg : g = geometry config table) :
    (List.range g.rowCount).map g.part =
      List.replicate g.bodyStart .head ++ (List.replicate (footStart g - g.bodyStart) .body ++
        List.replicate (g.rowCount - footStart g) .foot) := by
  subst hg
  have hbody := bodyStart_le_footStart config table
  have hfoot := footStart_le config table
  have hhead : ∀ i, (geometry config table).part i = .head ↔
      i < (geometry config table).bodyStart := fun i ↦ part_eq_head_iff
  have hlast : ∀ i, i < (geometry config table).rowCount →
      ((geometry config table).part i = .foot ↔ footStart (geometry config table) ≤ i) :=
    fun i ↦ part_eq_foot_iff
  generalize geometry config table = g at *
  rw [range_eq_append hbody hfoot, List.map_append, List.map_append]
  congr 1
  · refine map_part_eq_replicate fun i _ hi ↦ (hhead i).mpr ?_
    rwa [Nat.zero_add] at hi
  congr 1
  · refine map_part_eq_replicate fun i hfirst hi ↦ ?_
    cases hpart : g.part i with
    | head =>
      have := (hhead i).mp hpart
      omega
    | body => rfl
    | foot =>
      have := (hlast i (by omega)).mp hpart
      omega
  · exact map_part_eq_replicate fun i hfirst hi ↦ (hlast i (by omega)).mpr hfirst

/-- There is a header if it is enabled and there is a row for it. -/
theorem isSome_header_iff : (geometry config table).header.isSome = true ↔
    headerEnabled table config = true ∧ 0 < (geometry config table).rowCount := by
  rw [header_eq]
  by_cases h : (0 < (geometry config table).rowCount && headerEnabled table config) = true
  · rw [if_pos h]
    rw [Bool.and_eq_true, decide_eq_true_iff] at h
    constructor
    · intro _
      exact ⟨h.2, h.1⟩
    · intro _
      split <;> rfl
  · rw [if_neg h]
    constructor
    · intro hsome
      cases hsome
    · rintro ⟨henabled, hrows⟩
      refine absurd ?_ h
      rw [henabled, Bool.and_true, decide_eq_true_iff]
      exact hrows

/-- The header is the first of several groups, or the first row. -/
theorem header_cases (h : (geometry config table).header = some span) :
    (2 ≤ (geometry config table).groups.length →
        (geometry config table).groups.head? = some span) ∧
      ((geometry config table).groups.length < 2 → span = (0, 0)) := by
  rw [header_eq] at h
  split at h
  · split at h
    · next first second rest hgroups =>
      rw [hgroups]
      refine ⟨fun _ ↦ h, fun hlt ↦ ?_⟩
      simp only [List.length_cons] at hlt
      omega
    · next hfew =>
      refine ⟨fun hle ↦ ?_, fun _ ↦ (Option.some.inj h).symm⟩
      match hgroups : (geometry config table).groups, hle with
      | first :: second :: rest, _ => exact absurd hgroups (hfew first second rest)
  · cases h

/-- There is a footer if there are more than two groups and a reason for it. -/
theorem isSome_footer_iff : (geometry config table).footer.isSome = true ↔
    2 < (geometry config table).groups.length ∧
      ((table.attributes.lookup "footer").isSome = true ∨
        Text.isBlankText config.tableFooterContent = false) := by
  have henabled : footerEnabled table (geometry config table).groups.length config = true ↔
      2 < (geometry config table).groups.length ∧
        ((table.attributes.lookup "footer").isSome = true ∨
          Text.isBlankText config.tableFooterContent = false) := by
    simp [footerEnabled]
  rw [← henabled, footer_eq]
  by_cases h : footerEnabled table (geometry config table).groups.length config = true
  · rw [if_pos h]
    have hgroups : (geometry config table).groups ≠ [] := by
      intro hnil
      rw [henabled, hnil] at h
      exact absurd h.1 (Nat.not_lt_zero 2)
    rw [List.getLast?_eq_some_getLast hgroups, Option.isSome_some, h]
  · rw [if_neg h]
    simp [h]

end Table

/-- What the layout of a table says about its rows. -/
structure Geometry.LaysOut (g : Geometry) (config : Config) (table : Node) : Prop where
  /-- The data rows are numbered from zero in the order of the source. -/
  numbers : (List.range table.children.length).filterMap g.indexOf? = List.range g.rowCount
  /-- Rule rows and column-group rows have no numbers. -/
  numbered : ∀ k row, table.children[k]? = some row →
    ((g.indexOf? k).isSome = true ↔ row.element = .tableRow .standard)
  nonempty : ∀ group ∈ g.groups, group.1 ≤ group.2
  /-- The groups, one after the other, have all rows in order. -/
  tiles : g.groups.flatMap Table.rowsOf = List.range g.rowCount
  /-- Two neighbours are in one group exactly if no rule row stands between them. -/
  neighbours : ∀ j k i, g.indexOf? j = some i → g.indexOf? k = some (i + 1) →
    ((∃ group ∈ g.groups, group.1 ≤ i ∧ i + 1 ≤ group.2) ↔
      ∀ m row, j < m → m < k → table.children[m]? = some row → row.element ≠ .tableRow .rule)
  header : g.header.isSome = true ↔ Table.headerEnabled table config = true ∧ 0 < g.rowCount
  header_group : ∀ span, g.header = some span → 2 ≤ g.groups.length → g.groups.head? = some span
  header_row : ∀ span, g.header = some span → g.groups.length < 2 → span = (0, 0)
  footer : g.footer.isSome = true ↔ 2 < g.groups.length ∧
    ((table.attributes.lookup "footer").isSome = true ∨
      Text.isBlankText config.tableFooterContent = false)
  footer_group : ∀ span, g.footer = some span → g.groups.getLast? = some span
  apart : ∀ head foot, g.header = some head → g.footer = some foot → head.2 < foot.1
  body : g.footer.isSome = true → ∃ i, i < g.rowCount ∧ g.part i = .body
  /-- The header, of as many rows as there are before the body, then the body, then the footer. -/
  parts : ∃ body foot, (List.range g.rowCount).map g.part =
    List.replicate g.bodyStart .head ++ (List.replicate body .body ++ List.replicate foot .foot)

namespace Table

/-- Every table has a layout, which numbers, groups and parts its rows. -/
theorem tables_are_laid_out {table : Node} (h : table.isWellTyped = true)
    (hkind : table.kind = .table) (config : Config) :
    ∃ g, geometry? config table = .ok g ∧ g.LaysOut config table := by
  refine ⟨_, geometry?_of_isProper (Node.isProper_of_isWellTyped h) config, ?_⟩
  have hclass : ∀ {k row}, table.children[k]? = some row →
      (rowClass row = .data ↔ row.element = .tableRow .standard) ∧
        (rowClass row = .rule ↔ row.element = .tableRow .rule) := fun hrow ↦
    rowClass_iff h hkind (List.mem_of_getElem? hrow)
  constructor
  case numbers =>
    have hself := filterMap_rowIndices 0 table.children
    rwa [← List.range_eq_range'] at hself
  case numbered =>
    intro k row hrow
    rw [← (hclass hrow).1, Option.isSome_iff_exists]
    constructor
    · rintro ⟨i, hi⟩
      obtain ⟨row', hrow', hdata, -⟩ := indexOf?_eq_some_iff.mp hi
      rw [hrow] at hrow'
      exact (Option.some.inj hrow') ▸ hdata
    · intro hdata
      exact ⟨_, indexOf?_eq_some_iff.mpr ⟨row, hrow, hdata, rfl⟩⟩
  case nonempty => exact fun group hgroup ↦ (fst_le_snd_of_mem_groups hgroup).1
  case tiles => exact flatMap_rowsOf_groups config table
  case neighbours =>
    intro j k i hj hk
    rw [exists_group_iff_of_indexOf? hj hk]
    constructor
    · intro hbetween m row hjm hmk hrow hrule
      exact hbetween row (mem_rowsBetween.mpr ⟨m, hjm, hmk, hrow⟩) ((hclass hrow).2.mpr hrule)
    · intro hbetween row hmem hrule
      obtain ⟨m, hjm, hmk, hrow⟩ := mem_rowsBetween.mp hmem
      exact hbetween m row hjm hmk hrow ((hclass hrow).2.mp hrule)
  case header => exact isSome_header_iff
  case header_group => exact fun span hspan ↦ (header_cases hspan).1
  case header_row => exact fun span hspan ↦ (header_cases hspan).2
  case footer => exact isSome_footer_iff
  case footer_group => exact fun span hspan ↦ getLast?_of_footer hspan
  case apart =>
    intro head foot hhead hfoot
    have hlt := bodyStart_lt_footer hfoot
    rw [Geometry.bodyStart, hhead] at hlt
    exact Nat.lt_of_succ_lt hlt
  case body =>
    intro hsome
    obtain ⟨foot, hfoot⟩ := Option.isSome_iff_exists.mp hsome
    have hlt := bodyStart_lt_footer hfoot
    have hle := footStart_le config table
    rw [footStart, hfoot] at hle
    exact ⟨_, Nat.lt_of_lt_of_le hlt hle, part_bodyStart⟩
  case parts => exact ⟨_, _, map_part_range rfl⟩

/-- A table with rule rows at its ends, two of them in a row, and a column-group row in a group. -/
def groupedTable : Node :=
  ⟨⟨.unknown, 0, none, [("header", .str "yes"), ("footer", .str "")], .table, []⟩,
    [row .rule, row .standard, row .colgroup, row .standard, row .rule, row .rule, row .standard,
      row .rule, row .standard, row .rule], [], none, none⟩
where
  row (kind : RowKind) : Node := ⟨⟨.unknown, 0, none, [], .tableRow kind, []⟩, [], [], none, none⟩

theorem groupedTable_is_laid_out : groupedTable.isWellTyped = true ∧ groupedTable.kind = .table ∧
    ∃ g, geometry? .default groupedTable = .ok g ∧ g.LaysOut .default groupedTable :=
  ⟨by decide +kernel, rfl, tables_are_laid_out (by decide +kernel) rfl .default⟩

example : (geometry .default groupedTable).groups = [(0, 1), (2, 2), (3, 3)] := by decide +kernel

end Table

end Typeset

import Typeset.Proofs.TableLayout

/-!
# The roles of rows and cells

The roles of rows and of cells are ranked. A row can be fit for several roles and plays the first
of them. It is found without trying them all, since no row lies in two groups or in both the header
and the footer.
-/

namespace Typeset

namespace Geometry

/-- The header and the footer, as far as the table has them. -/
def spans (g : Geometry) : List (Nat × Nat) := g.header.toList ++ g.footer.toList

end Geometry

namespace RowRole

/-- The roles of rows, by rank. -/
def ranked : List RowRole :=
  [.single, .top, .bottom, .mid, .first, .last, .groupStart, .groupEnd, .none]

/-- What makes a row fit for a role, whatever else it is fit for. -/
def Fits (g : Geometry) (i : Nat) : RowRole → Prop
  | .single => ∃ span ∈ g.spans, span.1 = i ∧ span.2 = i
  | .top => ∃ span ∈ g.spans, span.1 = i
  | .bottom => ∃ span ∈ g.spans, span.2 = i
  | .mid => ∃ span ∈ g.spans, span.1 < i ∧ i < span.2
  | .first => i = 0
  | .last => i + 1 = g.rowCount
  | .groupStart => ∃ group ∈ g.groups, group.1 = i
  | .groupEnd => ∃ group ∈ g.groups, group.2 = i
  | .none => True

instance (g : Geometry) (i : Nat) : (role : RowRole) → Decidable (role.Fits g i)
  | .single => inferInstanceAs (Decidable (∃ span ∈ g.spans, span.1 = i ∧ span.2 = i))
  | .top => inferInstanceAs (Decidable (∃ span ∈ g.spans, span.1 = i))
  | .bottom => inferInstanceAs (Decidable (∃ span ∈ g.spans, span.2 = i))
  | .mid => inferInstanceAs (Decidable (∃ span ∈ g.spans, span.1 < i ∧ i < span.2))
  | .first => inferInstanceAs (Decidable (i = 0))
  | .last => inferInstanceAs (Decidable (i + 1 = g.rowCount))
  | .groupStart => inferInstanceAs (Decidable (∃ group ∈ g.groups, group.1 = i))
  | .groupEnd => inferInstanceAs (Decidable (∃ group ∈ g.groups, group.2 = i))
  | .none => inferInstanceAs (Decidable True)

end RowRole

namespace CellRole

/-- The roles of cells, by rank. -/
def ranked : List CellRole := [.corner, .edge, .groupStart, .groupEnd, .none]

/-- What makes a cell fit for a role, whatever else it is fit for. -/
def Fits (g : Geometry) (i column : Nat) : CellRole → Prop
  | .corner => (i = 0 ∨ i + 1 = g.rowCount) ∧ (column = 0 ∨ column + 1 = g.columnCount)
  | .edge => column = 0 ∨ column + 1 = g.columnCount
  | .groupStart => column ∈ g.groupStarts
  | .groupEnd => column ∈ g.groupEnds
  | .none => True

instance (g : Geometry) (i column : Nat) : (role : CellRole) → Decidable (role.Fits g i column)
  | .corner => inferInstanceAs
    (Decidable ((i = 0 ∨ i + 1 = g.rowCount) ∧ (column = 0 ∨ column + 1 = g.columnCount)))
  | .edge => inferInstanceAs (Decidable (column = 0 ∨ column + 1 = g.columnCount))
  | .groupStart => inferInstanceAs (Decidable (column ∈ g.groupStarts))
  | .groupEnd => inferInstanceAs (Decidable (column ∈ g.groupEnds))
  | .none => inferInstanceAs (Decidable True)

end CellRole

namespace Geometry

variable {g : Geometry} {i column : Nat} {span : Nat × Nat} {groups : List (Nat × Nat)}

/-! ## Rows in a header or a footer -/

/-- Where a row lies in one part only, its role there is the first one it is fit for. -/
theorem find?_ranked_of_mem_spans (hmem : span ∈ g.spans) (hspans : ∀ s ∈ g.spans, s.1 ≤ s.2)
    (hone : ∀ s ∈ g.spans, s.1 ≤ i → i ≤ s.2 → s = span) (hin : span.1 ≤ i ∧ i ≤ span.2) :
    RowRole.ranked.find? (fun role ↦ decide (role.Fits g i)) = some (spanRole span i) := by
  have hiff : ∀ P : Nat × Nat → Prop, (∀ s ∈ g.spans, P s → s.1 ≤ i ∧ i ≤ s.2) →
      ((∃ s ∈ g.spans, P s) ↔ P span) := by
    intro P hP
    refine ⟨?_, fun h ↦ ⟨span, hmem, h⟩⟩
    rintro ⟨s, hs, h⟩
    obtain ⟨hfirst, hlast⟩ := hP s hs h
    exact hone s hs hfirst hlast ▸ h
  have hsingle : RowRole.Fits g i .single ↔ span.1 = i ∧ span.2 = i :=
    hiff (fun s ↦ s.1 = i ∧ s.2 = i) fun s _ h ↦ by omega
  have htop : RowRole.Fits g i .top ↔ span.1 = i :=
    hiff (fun s ↦ s.1 = i) fun s hs h ↦ by have := hspans s hs; omega
  have hbottom : RowRole.Fits g i .bottom ↔ span.2 = i :=
    hiff (fun s ↦ s.2 = i) fun s hs h ↦ by have := hspans s hs; omega
  have hmid : RowRole.Fits g i .mid ↔ span.1 < i ∧ i < span.2 :=
    hiff (fun s ↦ s.1 < i ∧ i < s.2) fun s _ h ↦ by omega
  rw [spanRole]
  split
  · next hsame =>
    have hself := hsingle.mpr (by omega)
    simp [RowRole.ranked, hself]
  · next hsame =>
    have hseveral := mt hsingle.mp (by omega)
    split
    · next hfirst =>
      have hself := htop.mpr hfirst.symm
      simp [RowRole.ranked, hseveral, hself]
    · next hfirst =>
      have hbelow := mt htop.mp (Ne.symm hfirst)
      split
      · next hlast =>
        have hself := hbottom.mpr hlast.symm
        simp [RowRole.ranked, hseveral, hbelow, hself]
      · next hlast =>
        have habove := mt hbottom.mp (Ne.symm hlast)
        have hself := hmid.mpr (by omega)
        simp [RowRole.ranked, hseveral, hbelow, habove, hself]

/-! ## Other rows -/

/-- In groups that follow each other, a row that begins one ends none before it. -/
theorem groupRole_eq (horder : Table.AreInOrder groups)
    (hspans : ∀ group ∈ groups, group.1 ≤ group.2) :
    groupRole i groups =
      if ∃ group ∈ groups, group.1 = i then .groupStart
      else if ∃ group ∈ groups, group.2 = i then .groupEnd else .none := by
  induction groups with
  | nil => simp [groupRole]
  | cons group groups ih =>
    obtain ⟨hfirst, hrest⟩ := List.pairwise_cons.mp horder
    have hself := hspans group List.mem_cons_self
    have ih := ih hrest fun s hs ↦ hspans s (.tail _ hs)
    rw [groupRole, ih]
    split
    · next hstart => rw [if_pos ⟨group, List.mem_cons_self, hstart.symm⟩]
    · next hstart =>
      split
      · next hend =>
        have hnone : ¬ ∃ s ∈ group :: groups, s.1 = i := by
          rintro ⟨s, hs, hi⟩
          rcases List.mem_cons.mp hs with rfl | hs
          · exact hstart hi.symm
          · have := hfirst s hs
            omega
        rw [if_neg hnone, if_pos ⟨group, List.mem_cons_self, hend.symm⟩]
      · next hend =>
        simp only [List.mem_cons, exists_eq_or_imp, Ne.symm hstart, Ne.symm hend, false_or]

/-- Where a row lies in neither of the two parts, its role is one that the whole table or its group
gives it. -/
theorem find?_ranked_of_notMem_spans (hspans : ∀ s ∈ g.spans, s.1 ≤ s.2)
    (hout : ∀ s ∈ g.spans, ¬ (s.1 ≤ i ∧ i ≤ s.2)) (horder : Table.AreInOrder g.groups)
    (hgroups : ∀ group ∈ g.groups, group.1 ≤ group.2) :
    RowRole.ranked.find? (fun role ↦ decide (role.Fits g i)) = some
      (if i = 0 then .first else if i + 1 = g.rowCount then .last else groupRole i g.groups) := by
  have hnone : ∀ P : Nat × Nat → Prop, (∀ s ∈ g.spans, P s → s.1 ≤ i ∧ i ≤ s.2) →
      ¬ ∃ s ∈ g.spans, P s := by
    rintro P hP ⟨s, hs, h⟩
    exact hout s hs (hP s hs h)
  have hsingle : ¬ RowRole.Fits g i .single :=
    hnone (fun s ↦ s.1 = i ∧ s.2 = i) fun s _ h ↦ by omega
  have htop : ¬ RowRole.Fits g i .top :=
    hnone (fun s ↦ s.1 = i) fun s hs h ↦ by have := hspans s hs; omega
  have hbottom : ¬ RowRole.Fits g i .bottom :=
    hnone (fun s ↦ s.2 = i) fun s hs h ↦ by have := hspans s hs; omega
  have hmid : ¬ RowRole.Fits g i .mid :=
    hnone (fun s ↦ s.1 < i ∧ i < s.2) fun s _ h ↦ by omega
  have hfits : (RowRole.Fits g i .first ↔ i = 0) ∧ (RowRole.Fits g i .last ↔ i + 1 = g.rowCount) ∧
      (RowRole.Fits g i .groupStart ↔ ∃ group ∈ g.groups, group.1 = i) ∧
        (RowRole.Fits g i .groupEnd ↔ ∃ group ∈ g.groups, group.2 = i) ∧
          RowRole.Fits g i .none := ⟨.rfl, .rfl, .rfl, .rfl, trivial⟩
  obtain ⟨hfirst, hlast, hstart, hend, hany⟩ := hfits
  rw [groupRole_eq horder hgroups]
  split_ifs with h h' hs he
  · simp [RowRole.ranked, hsingle, htop, hbottom, hmid, hfirst.mpr h]
  · simp [RowRole.ranked, hsingle, htop, hbottom, hmid, mt hfirst.mp h, hlast.mpr h']
  · simp [RowRole.ranked, hsingle, htop, hbottom, hmid, mt hfirst.mp h, mt hlast.mp h',
      hstart.mpr hs]
  · simp [RowRole.ranked, hsingle, htop, hbottom, hmid, mt hfirst.mp h, mt hlast.mp h',
      mt hstart.mp hs, hend.mpr he]
  · simp [RowRole.ranked, hsingle, htop, hbottom, hmid, mt hfirst.mp h, mt hlast.mp h',
      mt hstart.mp hs, mt hend.mp he, hany]

/-- The role of a row is the one in the first part that it lies in, or else one that the whole table
or its group gives it. -/
theorem rowRole_eq (g : Geometry) (i : Nat) : g.rowRole i =
    match g.spans.find? fun span ↦ within (some span) i with
    | some span => spanRole span i
    | none =>
      if i = 0 then .first else if i + 1 = g.rowCount then .last else groupRole i g.groups := by
  have hfilter : ∀ o : Option (Nat × Nat),
      o.toList.find? (fun span ↦ within (some span) i) =
        o.filter fun span ↦ within (some span) i := by
    rintro (_ | span)
    · rfl
    · cases h : within (some span) i <;> simp [Option.filter, h]
  rw [spans, List.find?_append, hfilter, hfilter, rowRole]
  cases g.header.filter fun span ↦ within (some span) i <;> rfl

/-! ## Cells -/

theorem find?_ranked_cell (g : Geometry) (i column : Nat) :
    CellRole.ranked.find? (fun role ↦ decide (role.Fits g i column)) =
      some (g.cellRole i column) := by
  have hcorner : CellRole.Fits g i column .corner ↔
      (i = 0 ∨ i + 1 = g.rowCount) ∧ (column = 0 ∨ column + 1 = g.columnCount) := .rfl
  have hedge : CellRole.Fits g i column .edge ↔ column = 0 ∨ column + 1 = g.columnCount := .rfl
  have hstart : CellRole.Fits g i column .groupStart ↔ column ∈ g.groupStarts := .rfl
  have hend : CellRole.Fits g i column .groupEnd ↔ column ∈ g.groupEnds := .rfl
  have hany : CellRole.Fits g i column .none := trivial
  simp only [cellRole, Bool.and_eq_true, Bool.or_eq_true, beq_iff_eq, List.contains_iff_mem]
  split_ifs with h h' hs he
  · simp [CellRole.ranked, hcorner.mpr h]
  · simp [CellRole.ranked, mt hcorner.mp h, hedge.mpr h']
  · simp [CellRole.ranked, mt hcorner.mp h, mt hedge.mp h', hstart.mpr hs]
  · simp [CellRole.ranked, mt hcorner.mp h, mt hedge.mp h', mt hstart.mp hs, hend.mpr he]
  · simp [CellRole.ranked, mt hcorner.mp h, mt hedge.mp h', mt hstart.mp hs, mt hend.mp he, hany]

end Geometry

namespace Table

variable {config : Config} {table : Node} {span : Nat × Nat} {i : Nat}

/-! ## The parts of a table -/

theorem fst_le_snd_of_mem_spans (h : span ∈ (geometry config table).spans) : span.1 ≤ span.2 := by
  rcases List.mem_append.mp h with h | h
  · obtain ⟨hfirst, -⟩ := header_of_geometry (Option.mem_toList.mp h)
    omega
  · exact (fst_le_snd_of_mem_groups
      (List.mem_of_getLast? (getLast?_of_footer (Option.mem_toList.mp h)))).1

/-- No row lies in both the header and the footer. -/
theorem eq_of_mem_spans {span' : Nat × Nat} (h : span ∈ (geometry config table).spans)
    (h' : span' ∈ (geometry config table).spans) (hin : span.1 ≤ i ∧ i ≤ span.2)
    (hin' : span'.1 ≤ i ∧ i ≤ span'.2) : span' = span := by
  have hapart : ∀ {head foot}, (geometry config table).header = some head →
      (geometry config table).footer = some foot → head.2 < foot.1 := by
    intro head foot hhead hfoot
    have hlt := bodyStart_lt_footer hfoot
    rw [Geometry.bodyStart, hhead] at hlt
    exact Nat.lt_of_succ_lt hlt
  rcases List.mem_append.mp h with h | h <;> rcases List.mem_append.mp h' with h' | h'
  all_goals rw [Option.mem_toList] at h h'
  · exact Option.some.inj (h'.symm.trans h)
  · have := hapart h h'
    omega
  · have := hapart h' h
    omega
  · exact Option.some.inj (h'.symm.trans h)

theorem groups_areInOrder (config : Config) (table : Node) :
    AreInOrder (geometry config table).groups := groupsFrom_areInOrder nofun

/-- The role of a row in the layout of a table is the first that it is fit for. -/
theorem find?_ranked_row (config : Config) (table : Node) (i : Nat) :
    RowRole.ranked.find? (fun role ↦ decide (role.Fits (geometry config table) i)) =
      some ((geometry config table).rowRole i) := by
  have hspans : ∀ s ∈ (geometry config table).spans, s.1 ≤ s.2 :=
    fun s hs ↦ fst_le_snd_of_mem_spans hs
  rw [Geometry.rowRole_eq]
  split
  · next span hfind =>
    have hin : span.1 ≤ i ∧ i ≤ span.2 := by simpa [Geometry.within] using List.find?_some hfind
    have hmem := List.mem_of_find?_eq_some hfind
    exact Geometry.find?_ranked_of_mem_spans hmem hspans
      (fun s hs hfirst hlast ↦ eq_of_mem_spans hmem hs hin ⟨hfirst, hlast⟩) hin
  · next hfind =>
    refine Geometry.find?_ranked_of_notMem_spans hspans (fun s hs hin ↦ ?_)
      (groups_areInOrder config table) fun group hgroup ↦ (fst_le_snd_of_mem_groups hgroup).1
    exact List.find?_eq_none.mp hfind s hs (by simpa [Geometry.within] using hin)

/-- Each data row plays the first role that it is fit for, and so does each of its cells. A column
begins or ends a group if it is marked so. -/
theorem roles_are_first_fit {table : Node} (h : table.isWellTyped = true)
    (hkind : table.kind = .table) (config : Config) :
    ∃ g, geometry? config table = .ok g ∧
      (∀ i < g.rowCount,
        RowRole.ranked.find? (fun role ↦ decide (role.Fits g i)) = some (g.rowRole i) ∧
        ∀ column < g.columnCount,
          CellRole.ranked.find? (fun role ↦ decide (role.Fits g i column)) =
            some (g.cellRole i column)) ∧
      ∀ column, (column ∈ g.groupStarts ↔ IsMarked table "<" column) ∧
        (column ∈ g.groupEnds ↔ IsMarked table ">" column) := by
  refine ⟨_, geometry?_of_isProper (Node.isProper_of_isWellTyped h) config, ?_, fun column ↦ ?_⟩
  · intro i _
    exact ⟨find?_ranked_row config table i, fun column _ ↦ Geometry.find?_ranked_cell _ i column⟩
  · exact ⟨mem_markedColumns_iff h hkind (by decide), mem_markedColumns_iff h hkind (by decide)⟩

/-- A table with a header of two rows, a footer of one, a row that is too short, and a group of
columns in the middle. -/
def markedTable : Node :=
  node .table [("header", .str "yes"), ("footer", .str "")]
    [row .colgroup ["", "<", ">", ""], row .standard ["Item", "Price", "Count", "Note"],
      row .standard ["", "EUR", "", ""], row .rule [], row .standard ["tea", "3", "12%", "x"],
      row .standard ["jam", "1,5"], row .rule [], row .standard ["sum", "4.5", "2e1", "-"]]
where
  node (e : Element) (attributes : Attributes) (children : List Node) : Node :=
    ⟨⟨.unknown, 0, none, attributes, e, []⟩, children, [], none, none⟩
  row (kind : RowKind) (cells : List String) : Node :=
    node (.tableRow kind) [] (cells.map fun t ↦
      node (.tableCell none) [] [.inline .unknown 0 (.text t) []])

theorem markedTable_roles_are_first_fit : markedTable.isWellTyped = true ∧
    markedTable.kind = .table ∧ ∃ g, geometry? .default markedTable = .ok g ∧
      (List.range g.rowCount).map g.rowRole =
        [.top, .bottom, .groupStart, .groupEnd, .single] ∧
      (∀ i < g.rowCount,
        RowRole.ranked.find? (fun role ↦ decide (role.Fits g i)) = some (g.rowRole i) ∧
        ∀ column < g.columnCount,
          CellRole.ranked.find? (fun role ↦ decide (role.Fits g i column)) =
            some (g.cellRole i column)) ∧
      (List.range g.columnCount).map (g.cellRole 2) = [.edge, .groupStart, .groupEnd, .edge] ∧
      IsMarked markedTable "<" 1 := by
  have htyped : markedTable.isWellTyped = true := by decide +kernel
  obtain ⟨g, hg, hroles, hmarks⟩ := roles_are_first_fit htyped rfl .default
  obtain rfl := geometry_of_geometry? hg
  exact ⟨htyped, rfl, _, hg, by decide +kernel, hroles, by decide +kernel,
    (hmarks 1).1.mp (by decide +kernel)⟩

end Table

end Typeset

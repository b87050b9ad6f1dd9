import Typeset.Proofs.Table.Groups

/-!
# Groups tile the rows of a table

The rows of the groups, one group after the other, are the data rows of the table from the first to
the last. A rule row between two data rows puts them into different groups, and nothing else does.
-/

namespace Typeset.Table

/-! ## Numbers of rows -/

/-- A data row has the number of data rows before it, and no other row has a number. -/
theorem join_getElem?_rowIndices (next : Nat) (rows : List Node) (k : Nat) :
    (rowIndices next rows)[k]?.join = rows[k]?.bind fun row ↦
      if isData row then some (next + (rows.take k).countP isData) else none := by
  induction rows generalizing next k with
  | nil => rfl
  | cons row rows ih =>
    rw [rowIndices]
    cases k with
    | zero => split <;> simp [*]
    | succ k =>
      split
      · next hdata =>
        rw [List.getElem?_cons_succ, List.getElem?_cons_succ, ih, List.take_succ_cons,
          List.countP_cons_of_pos hdata]
        simp only [Nat.add_assoc, Nat.add_comm 1]
      · next hdata =>
        rw [List.getElem?_cons_succ, List.getElem?_cons_succ, ih, List.take_succ_cons,
          List.countP_cons_of_neg hdata]

/-- The numbers of the data rows follow each other. -/
theorem filterMap_rowIndices (next : Nat) (rows : List Node) :
    (List.range rows.length).filterMap (fun k ↦ (rowIndices next rows)[k]?.join) =
      List.range' next (rows.filter isData).length := by
  induction rows generalizing next with
  | nil => rfl
  | cons row rows ih =>
    rw [List.length_cons, List.range_succ_eq_map, List.filterMap_cons, List.filterMap_map,
      rowIndices, List.filter_cons]
    cases isData row with
    | true =>
      rw [if_pos rfl, if_pos rfl, List.length_cons, List.range'_succ, ← ih]
      rfl
    | false =>
      rw [if_neg Bool.false_ne_true, if_neg Bool.false_ne_true, ← ih]
      rfl

/-! ## Tiling -/

/-- The rows of a group. -/
def rowsOf (group : Nat × Nat) : List Nat := List.range' group.1 (group.2 + 1 - group.1)

theorem flatMap_rowsOf_closeGroup {start : Option Nat} {next : Nat}
    (hstart : ∀ s, start = some s → s < next) :
    (closeGroup start next).flatMap rowsOf =
      List.range' (start.getD next) (next - start.getD next) := by
  cases start with
  | none => simp [closeGroup]
  | some s =>
    have hs := hstart s rfl
    have hlast : next - 1 + 1 - s = next - s := by omega
    simp [closeGroup, rowsOf, hlast]

/-- The groups from an open one on hold its rows and all data rows that come. -/
theorem flatMap_rowsOf_groupsFrom {start : Option Nat} {next : Nat}
    (hstart : ∀ s, start = some s → s < next) (rows : List Node) :
    (groupsFrom start next rows).flatMap rowsOf =
      List.range' (start.getD next) (next - start.getD next + (rows.filter isData).length) := by
  induction rows generalizing start next with
  | nil => exact flatMap_rowsOf_closeGroup hstart
  | cons row rows ih =>
    have hgetD := getD_le hstart
    rw [groupsFrom, List.filter_cons]
    split
    · next hrule =>
      have hdata : isData row = false := by rw [isData, hrule]; rfl
      have hrest := @ih none next (by rintro _ ⟨⟩)
      rw [Option.getD_none, Nat.sub_self, Nat.zero_add] at hrest
      rw [hdata, if_neg Bool.false_ne_true, List.flatMap_append, flatMap_rowsOf_closeGroup hstart,
        hrest, ← List.range'_append_1, Nat.add_sub_cancel' hgetD]
    · next hclass =>
      have hdata : isData row = true := by rw [isData, hclass]; rfl
      rw [hdata, if_pos rfl, List.length_cons, ih (lt_succ_of_some_getD hstart), Option.getD_some]
      congr 1
      omega
    · next hrule hclass =>
      have hdata : isData row = false := beq_eq_false_iff_ne.mpr hclass
      rw [hdata, if_neg Bool.false_ne_true, ih hstart]

/-! ## Neighbouring rows -/

/-- The search for groups goes on behind some rows: the groups closed there end with them. -/
theorem exists_groupsFrom_append {start : Option Nat} {next : Nat}
    (hstart : ∀ s, start = some s → s < next) (before rest : List Node) :
    ∃ closed start', groupsFrom start next (before ++ rest) =
        closed ++ groupsFrom start' (next + before.countP isData) rest ∧
      (∀ group ∈ closed, group.2 < next + before.countP isData) ∧
        ∀ s, start' = some s → s < next + before.countP isData := by
  induction before generalizing start next with
  | nil => exact ⟨[], start, rfl, List.forall_mem_nil _, hstart⟩
  | cons row before ih =>
    rw [List.cons_append, groupsFrom]
    split
    · next hrule =>
      have hdata : isData row = false := by rw [isData, hrule]; rfl
      obtain ⟨closed, start', heq, hclosed, hstart'⟩ := @ih none next (by rintro _ ⟨⟩)
      rw [List.countP_cons_of_neg (Bool.eq_false_iff.mp hdata)]
      refine ⟨closeGroup start next ++ closed, start', ?_, ?_, hstart'⟩
      · rw [heq, List.append_assoc]
      · intro group hgroup
        rcases List.mem_append.mp hgroup with hgroup | hgroup
        · obtain ⟨hfirst, hlast⟩ := mem_closeGroup hgroup
          have := hstart group.1 hfirst
          omega
        · exact hclosed group hgroup
    · next hclass =>
      have hdata : isData row = true := by rw [isData, hclass]; rfl
      obtain ⟨closed, start', heq, hrest⟩ := ih (lt_succ_of_some_getD hstart)
      rw [List.countP_cons_of_pos hdata, ← Nat.add_assoc, Nat.add_right_comm]
      exact ⟨closed, start', heq, hrest⟩
    · next hrule hclass =>
      have hdata : isData row = false := beq_eq_false_iff_ne.mpr hclass
      rw [List.countP_cons_of_neg (Bool.eq_false_iff.mp hdata)]
      exact ih hstart

/-- An open group is closed somewhere. -/
theorem exists_mem_groupsFrom {s next : Nat} (hs : s < next) (rows : List Node) :
    ∃ last, (s, last) ∈ groupsFrom (some s) next rows ∧ next ≤ last + 1 := by
  have hclose : ∃ last, (s, last) ∈ closeGroup (some s) next ∧ next ≤ last + 1 :=
    ⟨next - 1, List.mem_singleton_self _, by omega⟩
  induction rows generalizing next with
  | nil => exact hclose
  | cons row rows ih =>
    rw [groupsFrom]
    split
    · obtain ⟨last, hmem, hlast⟩ := hclose
      exact ⟨last, List.mem_append_left _ hmem, hlast⟩
    · obtain ⟨last, hmem, hlast⟩ := ih (Nat.lt_succ_of_lt hs)
        ⟨next, List.mem_singleton_self _, Nat.le_refl _⟩
      exact ⟨last, hmem, Nat.le_of_succ_le hlast⟩
    · exact ih hs hclose

/-- Rows that are neither data nor rules change nothing. -/
theorem groupsFrom_append_of_other {between : List Node}
    (hother : ∀ row ∈ between, rowClass row ≠ .data ∧ rowClass row ≠ .rule) (start : Option Nat)
    (next : Nat) (rest : List Node) :
    groupsFrom start next (between ++ rest) = groupsFrom start next rest := by
  induction between with
  | nil => rfl
  | cons row between ih =>
    obtain ⟨hdata, hrule⟩ := hother row List.mem_cons_self
    rw [List.cons_append, groupsFrom]
    split
    · next hclass => exact absurd hclass hrule
    · next hclass => exact absurd hclass hdata
    · exact ih fun row hrow ↦ hother row (.tail _ hrow)

/-- Where no group is open, rows without data change nothing. -/
theorem groupsFrom_none_append {between : List Node}
    (hdata : ∀ row ∈ between, rowClass row ≠ .data) (next : Nat) (rest : List Node) :
    groupsFrom none next (between ++ rest) = groupsFrom none next rest := by
  induction between with
  | nil => rfl
  | cons row between ih =>
    have hrest := ih fun row hrow ↦ hdata row (.tail _ hrow)
    rw [List.cons_append, groupsFrom]
    split
    · exact hrest
    · next hclass => exact absurd hclass (hdata row List.mem_cons_self)
    · exact hrest

/-- A rule row closes the open group. -/
theorem groupsFrom_append_of_rule {between : List Node}
    (hdata : ∀ row ∈ between, rowClass row ≠ .data) (hrule : ∃ row ∈ between, rowClass row = .rule)
    (s next : Nat) (rest : List Node) :
    groupsFrom (some s) next (between ++ rest) = (s, next - 1) :: groupsFrom none next rest := by
  induction between with
  | nil =>
    obtain ⟨row, hrow, -⟩ := hrule
    cases hrow
  | cons row between ih =>
    have hdata' : ∀ row ∈ between, rowClass row ≠ .data := fun row hrow ↦ hdata row (.tail _ hrow)
    rw [List.cons_append, groupsFrom]
    split
    · rw [groupsFrom_none_append hdata']
      rfl
    · next hclass => exact absurd hclass (hdata row List.mem_cons_self)
    · next hnot _ =>
      refine ih hdata' ?_
      obtain ⟨row', hrow', hclass⟩ := hrule
      rcases List.mem_cons.mp hrow' with rfl | hrow'
      · exact absurd hclass hnot
      · exact ⟨row', hrow', hclass⟩

/-- Two data rows with no data row between them are in one group exactly if no rule row stands
between them. -/
theorem exists_group_iff {before between after : List Node} {first second : Node}
    (hfirst : rowClass first = .data) (hsecond : rowClass second = .data)
    (hdata : ∀ row ∈ between, rowClass row ≠ .data) :
    (∃ group ∈ groupsFrom none 0 (before ++ first :: (between ++ second :: after)),
        group.1 ≤ before.countP isData ∧ before.countP isData + 1 ≤ group.2) ↔
      ∀ row ∈ between, rowClass row ≠ .rule := by
  obtain ⟨closed, start, heq, hclosed, hstart⟩ :=
    @exists_groupsFrom_append none 0 (by rintro _ ⟨⟩) before (first :: (between ++ second :: after))
  rw [Nat.zero_add] at heq hclosed hstart
  generalize before.countP isData = i at *
  have hopen := getD_le hstart
  have hgroups : groupsFrom start i (first :: (between ++ second :: after)) =
      groupsFrom (some (start.getD i)) (i + 1) (between ++ second :: after) := by
    rw [groupsFrom, hfirst]
  rw [heq, hgroups]
  constructor
  · rintro ⟨group, hgroup, hle, hlt⟩ row hrow hrule
    rw [groupsFrom_append_of_rule hdata ⟨row, hrow, hrule⟩] at hgroup
    rcases List.mem_append.mp hgroup with hgroup | hgroup
    · have := hclosed group hgroup
      omega
    · rcases List.mem_cons.mp hgroup with rfl | hgroup
      · dsimp only at hlt
        omega
      · have hbound := (bounds_of_mem_groupsFrom (by rintro _ ⟨⟩) hgroup).1
        rw [Option.getD_none] at hbound
        omega
  · intro hrule
    have hrest : groupsFrom (some (start.getD i)) (i + 1) (between ++ second :: after) =
        groupsFrom (some (start.getD i)) (i + 2) after := by
      rw [groupsFrom_append_of_other fun row hrow ↦ ⟨hdata row hrow, hrule row hrow⟩, groupsFrom,
        hsecond]
      rfl
    have hlt : start.getD i < i + 2 := Nat.lt_succ_of_le (Nat.le_succ_of_le hopen)
    obtain ⟨last, hmem, hlast⟩ := exists_mem_groupsFrom hlt after
    rw [hrest]
    exact ⟨_, List.mem_append_right _ hmem, hopen, by dsimp only; omega⟩

end Typeset.Table

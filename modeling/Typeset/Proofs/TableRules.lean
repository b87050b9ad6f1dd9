import Mathlib.Data.List.Nodup
import Typeset.Latex.Command
import Typeset.Proofs.TableRoles

/-!
# The rules of a table

A rule stands above the table, one below it, and one before each row that lies in another group or
in another part than the row before it. Where groups and parts begin together there is one rule.
-/

namespace Typeset

namespace Geometry

/-- Two rows lie in one group. -/
def InOneGroup (g : Geometry) (i j : Nat) : Prop :=
  ∃ group ∈ g.groups, i ∈ Table.rowsOf group ∧ j ∈ Table.rowsOf group

/-- The header is the first row of the only group, and there are other rows in the group. -/
def CarvesHeader (g : Geometry) : Prop :=
  g.header.isSome = true ∧ ∃ group, g.groups = [group] ∧ group.1 < group.2

/-- The rules of the table, row by row. -/
def ruleLines (g : Geometry) (booktabs : Bool) : List String :=
  (List.range g.rowCount).flatMap fun i ↦
    Latex.lineOf (g.rules booktabs i).1 ++ Latex.lineOf (g.rules booktabs i).2

/-- The row is the first of a group. -/
def opensGroup (g : Geometry) (i : Nat) : Bool := g.groups.any fun group ↦ group.1 == i

variable (g : Geometry) (booktabs : Bool) (i : Nat)

theorem ruleNames_ne_empty : (ruleNames booktabs).1 ≠ "" ∧ (ruleNames booktabs).2.1 ≠ "" ∧
    (ruleNames booktabs).2.2 ≠ "" := by
  cases booktabs <;> decide

theorem fst_rules : (g.rules booktabs i).1 =
    if i = 0 then (ruleNames booktabs).1
    else if g.opensSection i then (ruleNames booktabs).2.1 else "" := rfl

theorem snd_rules : (g.rules booktabs i).2 =
    if i + 1 = g.rowCount then (ruleNames booktabs).2.2 else "" := rfl

theorem fst_rules_ne_empty_iff :
    (g.rules booktabs i).1 ≠ "" ↔ i = 0 ∨ g.opensSection i = true := by
  obtain ⟨htop, hmid, -⟩ := ruleNames_ne_empty booktabs
  rw [fst_rules]
  split_ifs with h h' <;> simp [*]

theorem snd_rules_ne_empty_iff : (g.rules booktabs i).2 ≠ "" ↔ i + 1 = g.rowCount := by
  obtain ⟨-, -, hbottom⟩ := ruleNames_ne_empty booktabs
  rw [snd_rules]
  split_ifs with h <;> simp [*]

theorem lineOf_ite {p : Prop} [Decidable p] {t : String} (h : t ≠ "") :
    Latex.lineOf (if p then t else "") = if p then [t] else [] := by
  split <;> simp [Latex.lineOf, h]

theorem flatMap_ite_eq_replicate {α : Type} (p : α → Bool) (t : String) (is : List α) :
    (is.flatMap fun i ↦ if p i then [t] else []) = List.replicate (is.countP p) t := by
  induction is with
  | nil => rfl
  | cons i is ih =>
    rw [List.flatMap_cons, ih, List.countP_cons]
    split
    · rfl
    · rfl

/-- The rules are one above the table, one before each row that opens a section, and one below the
table. -/
theorem ruleLines_eq (h : 0 < g.rowCount) : g.ruleLines booktabs = (ruleNames booktabs).1 ::
    (List.replicate ((List.range' 1 (g.rowCount - 1)).countP g.opensSection)
      (ruleNames booktabs).2.1 ++ [(ruleNames booktabs).2.2]) := by
  obtain ⟨htop, hmid, hbottom⟩ := ruleNames_ne_empty booktabs
  obtain ⟨last, hlast⟩ : ∃ last, g.rowCount = last + 1 := ⟨g.rowCount - 1, by omega⟩
  have hlineOf : ∀ t, t ≠ "" → Latex.lineOf t = [t] := fun t ht ↦ by simp [Latex.lineOf, ht]
  have hbefore : (List.range g.rowCount).flatMap (fun i ↦ Latex.lineOf (g.rules booktabs i).1) =
      (ruleNames booktabs).1 :: List.replicate
        ((List.range' 1 last).countP g.opensSection) (ruleNames booktabs).2.1 := by
    rw [hlast, List.range_eq_range', List.range'_succ, List.flatMap_cons, fst_rules, if_pos rfl,
      hlineOf _ htop, List.singleton_append, ← flatMap_ite_eq_replicate]
    refine congrArg _ (List.flatMap_congr fun i hi ↦ ?_)
    have hpos : i ≠ 0 := by
      rw [List.mem_range'_1] at hi
      omega
    rw [fst_rules, if_neg hpos, lineOf_ite hmid]
  have hafter : (List.range last).flatMap (fun i ↦
      Latex.lineOf (g.rules booktabs i).1 ++ Latex.lineOf (g.rules booktabs i).2) =
        (List.range last).flatMap fun i ↦ Latex.lineOf (g.rules booktabs i).1 := by
    refine List.flatMap_congr fun i hi ↦ ?_
    rw [List.mem_range] at hi
    rw [snd_rules, lineOf_ite hbottom, if_neg (by omega), List.append_nil]
  calc g.ruleLines booktabs
    _ = (List.range g.rowCount).flatMap (fun i ↦ Latex.lineOf (g.rules booktabs i).1) ++
        [(ruleNames booktabs).2.2] := by
      rw [ruleLines, hlast, List.range_succ, List.flatMap_append, List.flatMap_append, hafter,
        List.flatMap_singleton, List.flatMap_singleton, snd_rules, if_pos hlast.symm,
        hlineOf _ hbottom, List.append_assoc]
    _ = _ := by rw [hbefore, hlast, List.cons_append, Nat.add_sub_cancel]

end Geometry

namespace Table

open Geometry

variable {config : Config} {table : Node} {a b : Nat × Nat} {i : Nat}

/-! ## Rows and groups -/

theorem mem_rowsOf (h : a.1 ≤ a.2) : i ∈ rowsOf a ↔ a.1 ≤ i ∧ i ≤ a.2 := by
  rw [rowsOf, List.mem_range'_1]
  omega

theorem exists_mem_rowsOf (hi : i < (geometry config table).rowCount) :
    ∃ group ∈ (geometry config table).groups, i ∈ rowsOf group := by
  rw [← List.mem_range, ← flatMap_rowsOf_groups, List.mem_flatMap] at hi
  exact hi

/-- A row lies in one group only. -/
theorem eq_of_mem_rowsOf (ha : a ∈ (geometry config table).groups)
    (hb : b ∈ (geometry config table).groups) (hia : i ∈ rowsOf a) (hib : i ∈ rowsOf b) :
    a = b := by
  obtain ⟨k, hk, rfl⟩ := List.mem_iff_getElem.mp ha
  obtain ⟨m, hm, rfl⟩ := List.mem_iff_getElem.mp hb
  have horder := List.pairwise_iff_getElem.mp (groups_areInOrder config table)
  rw [mem_rowsOf (fst_le_snd_of_mem_groups ha).1] at hia
  rw [mem_rowsOf (fst_le_snd_of_mem_groups hb).1] at hib
  rcases Nat.lt_trichotomy k m with hlt | rfl | hlt
  · have := horder k m hk hm hlt
    omega
  · rfl
  · have := horder m k hm hk hlt
    omega

theorem opensGroup_iff : (geometry config table).opensGroup i = true ↔
    ∃ group ∈ (geometry config table).groups, group.1 = i := by
  simp [opensGroup]

/-- A row opens the group that it lies in if it is the first one there. -/
theorem opensGroup_iff_of_mem (ha : a ∈ (geometry config table).groups) (hi : i ∈ rowsOf a) :
    (geometry config table).opensGroup i = true ↔ a.1 = i := by
  rw [opensGroup_iff]
  constructor
  · rintro ⟨group, hgroup, rfl⟩
    have hself := (mem_rowsOf (fst_le_snd_of_mem_groups hgroup).1).mpr
      ⟨Nat.le_refl _, (fst_le_snd_of_mem_groups hgroup).1⟩
    rw [eq_of_mem_rowsOf ha hgroup hi hself]
  · intro hfirst
    exact ⟨a, ha, hfirst⟩

/-- Every row but the first of its group lies in the same group as the row before. -/
theorem opensGroup_iff_not_inOneGroup (hpos : 0 < i) (hi : i < (geometry config table).rowCount) :
    (geometry config table).opensGroup i = true ↔
      ¬ (geometry config table).InOneGroup (i - 1) i := by
  obtain ⟨group, hgroup, hmem⟩ := exists_mem_rowsOf hi
  have hspan := (fst_le_snd_of_mem_groups hgroup).1
  have hbounds := (mem_rowsOf hspan).mp hmem
  rw [opensGroup_iff_of_mem hgroup hmem]
  constructor
  · rintro hfirst ⟨group', hgroup', hbefore, hmem'⟩
    obtain rfl := eq_of_mem_rowsOf hgroup hgroup' hmem hmem'
    have := (mem_rowsOf hspan).mp hbefore
    omega
  · intro hapart
    by_contra hfirst
    exact hapart ⟨group, hgroup, (mem_rowsOf hspan).mpr (by omega), hmem⟩

/-- As many rows open a group as there are groups. -/
theorem countP_opensGroup (config : Config) (table : Node) :
    (List.range (geometry config table).rowCount).countP (geometry config table).opensGroup =
      (geometry config table).groups.length := by
  have hone : ∀ group ∈ (geometry config table).groups,
      (List.countP (geometry config table).opensGroup ∘ rowsOf) group = 1 := by
    intro group hgroup
    obtain ⟨hspan, -⟩ := fst_le_snd_of_mem_groups hgroup
    have hfirst : (geometry config table).opensGroup group.1 = true :=
      opensGroup_iff.mpr ⟨group, hgroup, rfl⟩
    have hrest : (List.range' (group.1 + 1) (group.2 - group.1)).countP
        (geometry config table).opensGroup = 0 := by
      refine List.countP_eq_zero.mpr fun i hi ↦ ?_
      rw [List.mem_range'_1] at hi
      rw [opensGroup_iff_of_mem hgroup ((mem_rowsOf hspan).mpr (by omega))]
      omega
    rw [Function.comp_apply, rowsOf, Nat.succ_sub hspan, List.range'_succ,
      List.countP_cons_of_pos hfirst, hrest]
  rw [← flatMap_rowsOf_groups, List.flatMap_def, List.countP_flatten, List.map_map,
    List.map_congr_left hone, List.map_const', List.sum_replicate_nat, Nat.mul_one]

/-- Behind the first row, which opens a group, each further group is opened. -/
theorem countP_opensGroup_behind (h : 0 < (geometry config table).rowCount) :
    (List.range' 1 ((geometry config table).rowCount - 1)).countP
      (geometry config table).opensGroup + 1 = (geometry config table).groups.length := by
  obtain ⟨group, hgroup, hmem⟩ := exists_mem_rowsOf h
  have hfirst : (geometry config table).opensGroup 0 = true := by
    have hbounds := (mem_rowsOf (fst_le_snd_of_mem_groups hgroup).1).mp hmem
    exact (opensGroup_iff_of_mem hgroup hmem).mpr (Nat.le_zero.mp hbounds.1)
  obtain ⟨last, hlast⟩ : ∃ last, (geometry config table).rowCount = last + 1 :=
    ⟨(geometry config table).rowCount - 1, by omega⟩
  rw [← countP_opensGroup, hlast, List.range_eq_range', List.range'_succ,
    List.countP_cons_of_pos hfirst, Nat.add_sub_cancel]

/-! ## Rows and parts -/

theorem header_of_bodyStart_pos (h : 0 < (geometry config table).bodyStart) :
    ∃ span, (geometry config table).header = some span ∧
      (geometry config table).bodyStart = span.2 + 1 := by
  cases hheader : (geometry config table).header with
  | none => simp [bodyStart, hheader] at h
  | some span => exact ⟨span, rfl, by simp [bodyStart, hheader]⟩

/-- Behind the first row, sections begin with groups and with the body. -/
theorem opensSection_iff (hpos : 0 < i) : (geometry config table).opensSection i = true ↔
    (geometry config table).opensGroup i = true ∨ i = (geometry config table).bodyStart := by
  rw [opensSection, Bool.or_eq_true]
  refine or_congr_right ?_
  cases hheader : (geometry config table).header with
  | none => simpa [bodyStart, hheader] using Nat.ne_of_gt hpos
  | some span => simp [bodyStart, hheader]

/-- The part changes where the body begins and where the footer does. -/
theorem part_ne_iff (hpos : 0 < i) (hi : i < (geometry config table).rowCount) :
    (geometry config table).part (i - 1) ≠ (geometry config table).part i ↔
      i = (geometry config table).bodyStart ∨ i = footStart (geometry config table) := by
  have hhead : ∀ j, (geometry config table).part j = .head ↔
    j < (geometry config table).bodyStart := fun j ↦ part_eq_head_iff
  have hfoot : ∀ j, j ≤ i → ((geometry config table).part j = .foot ↔
    footStart (geometry config table) ≤ j) := fun j hj ↦ part_eq_foot_iff (by omega)
  have hle := bodyStart_le_footStart config table
  have hsame : ∀ p q : TablePart, p = q ↔ (p = .head ↔ q = .head) ∧ (p = .foot ↔ q = .foot) := by
    rintro (_ | _ | _) (_ | _ | _) <;> decide
  rw [Ne, hsame, hhead, hhead, hfoot _ (by omega), hfoot _ (by omega)]
  omega

/-- The footer is a group. -/
theorem opensGroup_footStart
    (h : footStart (geometry config table) < (geometry config table).rowCount) :
    (geometry config table).opensGroup (footStart (geometry config table)) = true := by
  rw [opensGroup_iff]
  rw [footStart] at h ⊢
  cases hfooter : (geometry config table).footer with
  | none =>
    rw [hfooter] at h
    exact absurd h (Nat.lt_irrefl _)
  | some span => exact ⟨span, List.mem_of_getLast? (getLast?_of_footer hfooter), rfl⟩

/-- A section begins where a row lies in another group or in another part than the row before. -/
theorem opensSection_iff_ne (hpos : 0 < i) (hi : i < (geometry config table).rowCount) :
    (geometry config table).opensSection i = true ↔ ¬ (geometry config table).InOneGroup (i - 1) i ∨
      (geometry config table).part (i - 1) ≠ (geometry config table).part i := by
  rw [opensSection_iff hpos, ← opensGroup_iff_not_inOneGroup hpos hi, part_ne_iff hpos hi]
  constructor
  · exact Or.imp_right .inl
  · rintro (h | h | rfl)
    · exact .inl h
    · exact .inr h
    · exact .inl (opensGroup_footStart hi)

/-! ## The number of rules -/

/-- The body begins within a group only where a header is carved out of it. -/
theorem carvesHeader_iff : (geometry config table).CarvesHeader ↔
    0 < (geometry config table).bodyStart ∧
      (geometry config table).bodyStart < (geometry config table).rowCount ∧
        (geometry config table).opensGroup (geometry config table).bodyStart = false := by
  constructor
  · rintro ⟨hsome, group, hgroups, hrows⟩
    obtain ⟨span, hheader⟩ := Option.isSome_iff_exists.mp hsome
    obtain rfl := (header_cases hheader).2 (by rw [hgroups]; exact Nat.one_lt_two)
    have hmem : group ∈ (geometry config table).groups := hgroups ▸ List.mem_singleton_self _
    have hlast := (fst_le_snd_of_mem_groups hmem).2
    have hstart : (geometry config table).bodyStart = 1 := by rw [bodyStart, hheader]
    have hfirst : group.1 = 0 := by
      have hhead := @fst_head_groupsFrom none 0 table.children group (congrArg List.head? hgroups)
      exact hhead
    refine ⟨by omega, by omega, ?_⟩
    rw [← Bool.not_eq_true, opensGroup_iff_of_mem hmem ((mem_rowsOf (by omega)).mpr (by omega))]
    omega
  · rintro ⟨hpos, hlt, hopens⟩
    obtain ⟨span, hheader, hstart⟩ := header_of_bodyStart_pos hpos
    refine ⟨by rw [hheader]; rfl, ?_⟩
    obtain ⟨group, hgroup, hmem⟩ := exists_mem_rowsOf hlt
    rw [← Bool.not_eq_true, opensGroup_iff_of_mem hgroup hmem] at hopens
    have hspan := (fst_le_snd_of_mem_groups hgroup).1
    have hbounds := (mem_rowsOf hspan).mp hmem
    rcases Nat.lt_or_ge (geometry config table).groups.length 2 with hfew | hmany
    · obtain ⟨group', hgroups⟩ : ∃ group', (geometry config table).groups = [group'] := by
        rw [← List.length_eq_one_iff]
        have := List.length_pos_of_mem hgroup
        omega
      obtain rfl := List.mem_singleton.mp (hgroups ▸ hgroup)
      exact ⟨group, hgroups, by omega⟩
    · -- the header is a group, so its last row and the row behind it lie in different ones
      have hspanMem := List.mem_of_head? ((header_cases hheader).1 hmany)
      have hspan' := (fst_le_snd_of_mem_groups hspanMem).1
      obtain rfl := eq_of_mem_rowsOf (i := span.2) hgroup hspanMem
        ((mem_rowsOf hspan).mpr (by omega)) ((mem_rowsOf hspan').mpr (by omega))
      omega

theorem countP_or_of_disjoint {α : Type} {p q : α → Bool} {as : List α}
    (h : ∀ a ∈ as, p a = true → q a = false) :
    as.countP (fun a ↦ p a || q a) = as.countP p + as.countP q := by
  induction as with
  | nil => rfl
  | cons a as ih =>
    rw [List.countP_cons, List.countP_cons, List.countP_cons, ih fun b hb ↦ h b (.tail _ hb)]
    cases hp : p a with
    | true =>
      rw [h a List.mem_cons_self hp, Bool.true_or, if_pos rfl, if_neg Bool.false_ne_true]
      omega
    | false =>
      rw [Bool.false_or, if_neg Bool.false_ne_true, Nat.add_zero, Nat.add_assoc]

/-- Behind the first row a section begins with each further group, and with the body where a header
is carved out of a group. -/
theorem countP_opensSection (h : 0 < (geometry config table).rowCount) :
    ((geometry config table).CarvesHeader →
      (List.range' 1 ((geometry config table).rowCount - 1)).countP
        (geometry config table).opensSection = (geometry config table).groups.length) ∧
    (¬ (geometry config table).CarvesHeader →
      (List.range' 1 ((geometry config table).rowCount - 1)).countP
        (geometry config table).opensSection + 1 = (geometry config table).groups.length) := by
  have hgroups := countP_opensGroup_behind h
  have hpos : ∀ i ∈ List.range' 1 ((geometry config table).rowCount - 1),
      0 < i ∧ i < (geometry config table).rowCount := by
    intro i hi
    rw [List.mem_range'_1] at hi
    omega
  rw [carvesHeader_iff]
  constructor
  · rintro ⟨hstart, hlt, hopens⟩
    have hone : (List.range' 1 ((geometry config table).rowCount - 1)).countP
        (· == (geometry config table).bodyStart) = 1 :=
      List.count_eq_one_of_mem List.nodup_range' (List.mem_range'_1.mpr (by omega))
    have hapart : ∀ i, (geometry config table).opensGroup i = true →
        (i == (geometry config table).bodyStart) = false := by
      intro i hi
      refine beq_eq_false_iff_ne.mpr ?_
      rintro rfl
      rw [hopens] at hi
      cases hi
    rw [← hgroups]
    refine Eq.trans ?_ (congrArg _ hone)
    rw [← countP_or_of_disjoint fun i _ ↦ hapart i]
    refine List.countP_congr fun i hi ↦ (opensSection_iff (hpos i hi).1).trans ?_
    rw [Bool.or_eq_true, beq_iff_eq]
  · intro hcarves
    rw [← hgroups]
    refine congrArg (· + 1) (List.countP_congr fun i hi ↦ ?_)
    rw [opensSection_iff (hpos i hi).1, or_iff_left_iff_imp]
    rintro rfl
    by_contra hopens
    exact hcarves ⟨(hpos _ hi).1, (hpos _ hi).2, Bool.eq_false_iff.mpr hopens⟩

/-- A rule stands above the table, below it, and wherever a row lies in another group or in another
part than the row before. So there is one rule more than there are groups, and one more still where
a header is carved out of the only group. -/
theorem rules_separate_groups_and_parts {table : Node} (h : table.isWellTyped = true)
    (config : Config) :
    ∃ g, geometry? config table = .ok g ∧
      (∀ booktabs, ∀ i < g.rowCount,
        ((g.rules booktabs i).1 ≠ "" ↔
          i = 0 ∨ ¬ g.InOneGroup (i - 1) i ∨ g.part (i - 1) ≠ g.part i) ∧
        ((g.rules booktabs i).2 ≠ "" ↔ i + 1 = g.rowCount)) ∧
      (0 < g.rowCount → ∀ booktabs,
        (g.CarvesHeader → (g.ruleLines booktabs).length = g.groups.length + 2) ∧
        (¬ g.CarvesHeader → (g.ruleLines booktabs).length = g.groups.length + 1)) ∧
      ∀ i, ((g.rules true i).1 = "" ↔ (g.rules false i).1 = "") ∧
        ((g.rules true i).2 = "" ↔ (g.rules false i).2 = "") := by
  refine ⟨_, geometry?_of_isProper (Node.isProper_of_isWellTyped h) config, ?_, ?_, fun i ↦ ?_⟩
  · intro booktabs i hi
    refine ⟨?_, snd_rules_ne_empty_iff _ booktabs i⟩
    rw [fst_rules_ne_empty_iff]
    refine or_congr_right' fun hpos ↦ ?_
    exact opensSection_iff_ne (Nat.pos_of_ne_zero hpos) hi
  · intro hrows booktabs
    obtain ⟨hcarved, hwhole⟩ := countP_opensSection hrows
    rw [ruleLines_eq _ booktabs hrows]
    simp only [List.length_cons, List.length_append, List.length_replicate, List.length_nil]
    exact ⟨fun hcarves ↦ by rw [hcarved hcarves], fun hcarves ↦ by rw [← hwhole hcarves]⟩
  · have hbefore := fun booktabs ↦
      not_congr (fst_rules_ne_empty_iff (geometry config table) booktabs i)
    have hafter := fun booktabs ↦
      not_congr (snd_rules_ne_empty_iff (geometry config table) booktabs i)
    simp only [ne_eq, not_not] at hbefore hafter
    exact ⟨(hbefore true).trans (hbefore false).symm, (hafter true).trans (hafter false).symm⟩

/-- A table with a header and no rule rows, so that the header is its first row. -/
def ungroupedTable : Node :=
  markedTable.node .table [("header", .str "t")] (["name", "tea", "jam"].map fun t ↦
    markedTable.row .standard [t])

theorem ungroupedTable_rules_separate_groups_and_parts : ungroupedTable.isWellTyped = true ∧
    ∃ g, geometry? .default ungroupedTable = .ok g ∧ g.CarvesHeader ∧
      ((g.rules true 1).1 ≠ "" ↔ 1 = 0 ∨ ¬ g.InOneGroup 0 1 ∨ g.part 0 ≠ g.part 1) ∧
      g.groups = [(0, 2)] ∧ (g.ruleLines true).length = 3 ∧
      g.ruleLines false = ["\\hline", "\\hline", "\\hline"] := by
  have htyped : ungroupedTable.isWellTyped = true := by decide +kernel
  obtain ⟨g, hg, hplaces, hcount, -⟩ := rules_separate_groups_and_parts htyped .default
  obtain rfl := geometry_of_geometry? hg
  have hgroups : (geometry .default ungroupedTable).groups = [(0, 2)] := by decide +kernel
  have hcarves : (geometry .default ungroupedTable).CarvesHeader :=
    ⟨by decide +kernel, _, hgroups, by decide⟩
  have hlength := (hcount (by decide +kernel) true).1 hcarves
  rw [hgroups] at hlength
  exact ⟨htyped, _, hg, hcarves, (hplaces true 1 (by decide +kernel)).1, hgroups, hlength,
    by decide +kernel⟩

end Table

end Typeset

import Mathlib.Data.List.Basic
import Typeset.Table.Geometry

/-!
# The parts of a table, in order

The groups of a table follow each other from its first row on. So the header is where the table
begins, and the footer, for which there must be more than two groups, leaves a row between itself
and the header.
-/

namespace Typeset.Table

/-- Groups of rows, each of which begins behind the one before. -/
def AreInOrder (groups : List (Nat × Nat)) : Prop := groups.Pairwise fun a b ↦ a.2 < b.1

theorem mem_closeGroup {start : Option Nat} {next : Nat} {g : Nat × Nat}
    (h : g ∈ closeGroup start next) : start = some g.1 ∧ g.2 = next - 1 := by
  cases start with
  | none => cases h
  | some first =>
    obtain rfl := List.mem_singleton.mp h
    exact ⟨rfl, rfl⟩

/-- The group that a data row is put into begins with that row or before it. -/
theorem getD_le {start : Option Nat} {next : Nat} (hstart : ∀ s, start = some s → s < next) :
    start.getD next ≤ next := by
  cases start with
  | none => exact Nat.le_refl _
  | some s => exact Nat.le_of_lt (hstart s rfl)

theorem lt_succ_of_some_getD {start : Option Nat} {next : Nat}
    (hstart : ∀ s, start = some s → s < next) :
    ∀ s, some (start.getD next) = some s → s < next + 1 := by
  intro s hs
  obtain rfl := Option.some.inj hs
  exact Nat.lt_succ_of_le (getD_le hstart)

/-- The rows of a group are rows of the table from where the group, or the search for it, began. -/
theorem bounds_of_mem_groupsFrom {start : Option Nat} {next : Nat} {rows : List Node}
    (hstart : ∀ s, start = some s → s < next) {g : Nat × Nat} (h : g ∈ groupsFrom start next rows) :
    start.getD next ≤ g.1 ∧ g.1 ≤ g.2 ∧ g.2 < next + (rows.filter isData).length := by
  have hclose : g ∈ closeGroup start next →
      start.getD next = g.1 ∧ g.1 ≤ g.2 ∧ g.2 < next := fun hg ↦ by
    obtain ⟨rfl, hlast⟩ := mem_closeGroup hg
    have hfirst := hstart g.1 rfl
    exact ⟨rfl, by omega, by omega⟩
  induction rows generalizing start next with
  | nil =>
    obtain ⟨hfirst, hspan, hlast⟩ := hclose h
    exact ⟨Nat.le_of_eq hfirst, hspan, by omega⟩
  | cons row rows ih =>
    rw [groupsFrom] at h
    rw [List.filter_cons]
    split at h
    · next hrule =>
      have hdata : isData row = false := by rw [isData, hrule]; rfl
      rw [hdata, if_neg Bool.false_ne_true]
      rcases List.mem_append.mp h with h | h
      · obtain ⟨hfirst, hspan, hlast⟩ := hclose h
        exact ⟨Nat.le_of_eq hfirst, hspan, by omega⟩
      · obtain ⟨hfirst, hspan, hlast⟩ := ih (by nofun) h (fun hg ↦ absurd hg List.not_mem_nil)
        exact ⟨Nat.le_trans (getD_le hstart) hfirst, hspan, hlast⟩
    · next hclass =>
      have hdata : isData row = true := by rw [isData, hclass]; rfl
      have hopen := lt_succ_of_some_getD hstart
      rw [hdata, if_pos rfl, List.length_cons]
      obtain ⟨hfirst, hspan, hlast⟩ := ih hopen h fun hg ↦ by
        obtain ⟨hfirst, hlast⟩ := mem_closeGroup hg
        have := hopen g.1 hfirst
        exact ⟨Option.some.inj hfirst, by omega, by omega⟩
      exact ⟨hfirst, hspan, by omega⟩
    · next hrule hclass =>
      have hdata : isData row = false := beq_eq_false_iff_ne.mpr hclass
      rw [hdata, if_neg Bool.false_ne_true]
      exact ih hstart h hclose

theorem groupsFrom_areInOrder {start : Option Nat} {next : Nat} {rows : List Node}
    (hstart : ∀ s, start = some s → s < next) : AreInOrder (groupsFrom start next rows) := by
  have hclose : AreInOrder (closeGroup start next) := by
    cases start with
    | none => exact .nil
    | some first => exact List.pairwise_singleton _ _
  induction rows generalizing start next with
  | nil => exact hclose
  | cons row rows ih =>
    rw [groupsFrom]
    split
    · refine List.pairwise_append.mpr ⟨hclose, ih (by nofun) .nil, fun a ha b hb ↦ ?_⟩
      obtain ⟨hfirst, hlast⟩ := mem_closeGroup ha
      have hnext : next ≤ b.1 := (bounds_of_mem_groupsFrom (by nofun) hb).1
      have := hstart a.1 hfirst
      omega
    · exact ih (lt_succ_of_some_getD hstart) (List.pairwise_singleton _ _)
    · exact ih hstart hclose

/-- The first group begins where the search for groups did. -/
theorem fst_head_groupsFrom {start : Option Nat} {next : Nat} {rows : List Node} {g : Nat × Nat}
    (h : (groupsFrom start next rows).head? = some g) : g.1 = start.getD next := by
  induction rows generalizing start next with
  | nil =>
    obtain ⟨hfirst, -⟩ := mem_closeGroup (List.mem_of_head? h)
    rw [hfirst]
    rfl
  | cons row rows ih =>
    rw [groupsFrom] at h
    split at h
    · cases start with
      | none => exact ih h
      | some first =>
        obtain rfl := Option.some.inj h
        rfl
    · have hfirst := ih h
      rwa [Option.getD_some] at hfirst
    · exact ih h

/-! ## Header and footer -/

variable {config : Config} {table : Node} {span : Nat × Nat}

theorem geometry_of_geometry? {g : Geometry} (h : geometry? config table = .ok g) :
    g = geometry config table := by
  unfold geometry? at h
  split at h
  · cases h
  · exact (Except.ok.inj h).symm

/-- The header has the first rows of the table. -/
theorem header_of_geometry (h : (geometry config table).header = some span) :
    span.1 = 0 ∧ span.2 < (geometry config table).rowCount := by
  simp only [geometry] at h
  split at h
  · next henabled =>
    rw [Bool.and_eq_true, decide_eq_true_iff] at henabled
    split at h
    · next first second rest hgroups =>
      obtain rfl := Option.some.inj h
      have hmem : first ∈ groupsFrom none 0 table.children := hgroups ▸ List.mem_cons_self
      have hlast := (bounds_of_mem_groupsFrom (by nofun) hmem).2.2
      rw [Nat.zero_add] at hlast
      exact ⟨fst_head_groupsFrom (congrArg List.head? hgroups), hlast⟩
    · obtain rfl := Option.some.inj h
      exact ⟨rfl, henabled.1⟩
  · cases h

theorem bodyStart_le : (geometry config table).bodyStart ≤ (geometry config table).rowCount := by
  rw [Geometry.bodyStart]
  split
  · next hheader => exact (header_of_geometry hheader).2
  · exact Nat.zero_le _

/-- The footer comes after the first row behind the header. -/
theorem bodyStart_lt_footer (h : (geometry config table).footer = some span) :
    (geometry config table).bodyStart < span.1 := by
  have hfooter : (if footerEnabled table (groupsFrom none 0 table.children).length config then
      (groupsFrom none 0 table.children).getLast? else none) = some span := h
  split at hfooter
  · next henabled =>
    rw [footerEnabled, Bool.and_eq_true, decide_eq_true_iff] at henabled
    have horder : AreInOrder (groupsFrom none 0 table.children) := groupsFrom_areInOrder (by nofun)
    have hbounds : ∀ g ∈ groupsFrom none 0 table.children, g.1 ≤ g.2 := fun g hg ↦
      (bounds_of_mem_groupsFrom (by nofun) hg).2.1
    have hheader : ∀ g rest, groupsFrom none 0 table.children = g :: rest → rest ≠ [] →
        (geometry config table).bodyStart ≤ g.2 + 1 := by
      intro g rest hgroups hrest
      obtain ⟨second, rest, rfl⟩ := List.exists_cons_of_ne_nil hrest
      simp only [Geometry.bodyStart, geometry, hgroups]
      split
      · next last hsome =>
        split at hsome
        · obtain rfl := Option.some.inj hsome
          exact Nat.le_refl _
        · cases hsome
      · exact Nat.zero_le _
    generalize groupsFrom none 0 table.children = groups at *
    match groups, henabled.1 with
    | first :: second :: third :: rest, _ =>
      have hspan : span ∈ third :: rest := List.mem_of_getLast? (by simpa using hfooter)
      obtain ⟨hfirst, hrest⟩ := List.pairwise_cons.mp horder
      have hbefore := (List.pairwise_cons.mp hrest).1 span hspan
      have hstart := hheader first _ rfl (List.cons_ne_nil _ _)
      have hsecond := hfirst second List.mem_cons_self
      have := hbounds second (by simp)
      omega
  · cases hfooter

theorem part_eq_head_iff_within (g : Geometry) (index : Nat) :
    g.part index = .head ↔ Geometry.within g.header index = true := by
  unfold Geometry.part
  cases Geometry.within g.header index <;> cases Geometry.within g.footer index <;> simp

/-- The rows of the header are those before the body. -/
theorem part_eq_head_iff {index : Nat} :
    (geometry config table).part index = .head ↔
      index < (geometry config table).bodyStart := by
  rw [part_eq_head_iff_within, Geometry.bodyStart]
  cases hheader : (geometry config table).header with
  | none => simp [Geometry.within]
  | some span =>
    have hfirst := (header_of_geometry hheader).1
    simp only [Geometry.within, Option.any_some, hfirst, Bool.and_eq_true, decide_eq_true_eq]
    omega

/-- The first row behind the header belongs to the body. -/
theorem part_bodyStart :
    (geometry config table).part (geometry config table).bodyStart = .body := by
  have hhead : Geometry.within (geometry config table).header
      (geometry config table).bodyStart = false := by
    refine Bool.eq_false_iff.mpr fun hwithin ↦ ?_
    exact Nat.lt_irrefl _ (part_eq_head_iff.mp ((part_eq_head_iff_within _ _).mpr hwithin))
  have hfoot : Geometry.within (geometry config table).footer
      (geometry config table).bodyStart = false := by
    refine Bool.eq_false_iff.mpr fun hwithin ↦ ?_
    obtain ⟨span, hfooter, hspan⟩ := (Option.any_eq_true _ _).mp hwithin
    rw [Bool.and_eq_true, decide_eq_true_iff] at hspan
    exact Nat.not_le_of_lt (bodyStart_lt_footer hfooter) hspan.1
  rw [Geometry.part, hhead, hfoot]
  rfl

end Typeset.Table

import Typeset.Proofs.Tree.WellTyped
import Typeset.Tree.Prepare

/-!
# Prepared documents

Wrapping the math runs of a proper tree and cleaning its metadata leaves a proper tree.
-/

namespace Typeset

theorem exists_of_bind_eq_ok {ε α β : Type} {x : Except ε α} {k : α → Except ε β} {b : β}
    (h : x >>= k = .ok b) : ∃ a, x = .ok a ∧ k a = .ok b := by
  cases x with
  | error e => cases h
  | ok a => exact ⟨a, rfl, h⟩

theorem eq_ok_of_toOption {ε α : Type} {x : Except ε α} {a : α} (h : x.toOption = some a) :
    x = .ok a := by
  cases x with
  | error e => cases h
  | ok b => rw [Option.some.inj h]

theorem exists_ok_of_any {ε α : Type} {x : Except ε α} {p : α → Bool}
    (h : x.toOption.any p = true) : ∃ a, x = .ok a ∧ p a = true := by
  cases x with
  | error e => cases h
  | ok a => exact ⟨a, rfl, h⟩

namespace Node

section

variable {gate : Branch → Node → Except Failure Unit} {skip : Node → Bool}
  {f : Node → Except Failure (Option Node)}

/-- What an edit leaves of some proper trees is proper if what it leaves of each is. -/
theorem isProper_of_editAllM {ns left : List Node}
    (ih : ∀ n ∈ ns, ∀ n', editM gate skip f n = .ok (some n') → n'.isProper = true)
    (h : editAllM gate skip f ns = .ok left) : ∀ m ∈ left, m.isProper = true := by
  induction ns generalizing left with
  | nil =>
    cases h
    simp
  | cons n ns ihns =>
    obtain ⟨first, hfirst, h⟩ := exists_of_bind_eq_ok h
    obtain ⟨rest, hrest, h⟩ := exists_of_bind_eq_ok h
    cases h
    intro m hm
    rcases List.mem_append.mp hm with hm | hm
    · have hsome : first.filter (fun n ↦ !n.isNull) = some m := by simpa using hm
      exact ih n List.mem_cons_self m (Option.eq_some_of_filter_eq_some hsome ▸ hfirst)
    · exact ihns (fun k hk ↦ ih k (.tail _ hk)) hrest m hm

theorem isProper_of_editAllM? {ns left : Option (List Node)}
    (ih : ∀ n ∈ ns.getD [], ∀ n', editM gate skip f n = .ok (some n') → n'.isProper = true)
    (h : editAllM? gate skip f ns = .ok left) : ∀ m ∈ left.getD [], m.isProper = true := by
  cases ns with
  | none =>
    cases h
    simp
  | some ns =>
    cases hleft : editAllM gate skip f ns with
    | error e =>
      rw [editAllM?, hleft] at h
      cases h
    | ok ms =>
      rw [editAllM?, hleft] at h
      cases h
      exact isProper_of_editAllM ih hleft

/-- An edit leaves proper trees if the function that it applies does. -/
theorem isProper_of_editM
    (hf : ∀ n n', n.isProper = true → f n = .ok (some n') → n'.isProper = true) {n n' : Node}
    (hn : n.isProper = true) (h : editM gate skip f n = .ok (some n')) : n'.isProper = true := by
  induction n using Node.induction generalizing n' with
  | step n ih =>
    have hbelow := ((isProper_iff n).mp hn).2
    have hinfo := ((isProper_iff n).mp hn).1
    have hedit : ∀ b, ∀ m ∈ n.branch b, ∀ m', editM gate skip f m = .ok (some m') →
        m'.isProper = true := fun b m hm m' ↦ ih b m hm (hbelow b m hm)
    obtain ⟨info, children, title, tag, caption⟩ := n
    rw [editM] at h
    split at h
    · cases h
      exact hn
    · obtain ⟨_, -, h⟩ := exists_of_bind_eq_ok h
      obtain ⟨children', hchildren, h⟩ := exists_of_bind_eq_ok h
      obtain ⟨_, -, h⟩ := exists_of_bind_eq_ok h
      obtain ⟨title', htitle, h⟩ := exists_of_bind_eq_ok h
      obtain ⟨_, -, h⟩ := exists_of_bind_eq_ok h
      obtain ⟨tag', htag, h⟩ := exists_of_bind_eq_ok h
      obtain ⟨_, -, h⟩ := exists_of_bind_eq_ok h
      obtain ⟨caption', hcaption, h⟩ := exists_of_bind_eq_ok h
      refine hf ⟨info, children', title', tag', caption'⟩ n'
        ((isProper_iff _).mpr ⟨hinfo, fun b ↦ ?_⟩) h
      cases b with
      | children => exact isProper_of_editAllM (hedit .children) hchildren
      | title => exact isProper_of_editAllM (hedit .title) htitle
      | tag => exact isProper_of_editAllM? (hedit .tag) htag
      | caption => exact isProper_of_editAllM? (hedit .caption) hcaption

end

theorem branch_withoutBlank (n : Node) (b : Branch) : n.withoutBlank.branch b = n.branch b := by
  cases b <;> rfl

theorem isProper_withoutBlank {n : Node} (h : n.isProper = true) :
    n.withoutBlank.isProper = true := by
  obtain ⟨hinfo, hbelow⟩ := (isProper_iff n).mp h
  refine (isProper_iff _).mpr ⟨?_, fun b ↦ ?_⟩
  · simpa [NodeInfo.isProper, withoutBlank, loose_eq_nil h] using hinfo
  · rw [branch_withoutBlank]
    exact hbelow b

end Node

namespace MathRun

/-- What stands below a run are its members, the last one without the blank behind it. -/
theorem mem_branch_close {last m : Node} {earlier : List Node} {b : Branch}
    (hm : m ∈ (close last earlier).branch b) :
    b = .children ∧ (m ∈ earlier ∨ m = last.withoutBlank) := by
  cases b with
  | children =>
    have hm : m ∈ earlier.reverse ++ [last.withoutBlank] := hm
    exact ⟨rfl, (List.mem_append.mp hm).imp List.mem_reverse.mp List.mem_singleton.mp⟩
  | title | tag | caption => cases hm

theorem isProper_close {last : Node} {earlier : List Node} (hlast : last.isProper = true)
    (hearlier : ∀ n ∈ earlier, n.isProper = true) : (close last earlier).isProper = true := by
  refine (Node.isProper_iff _).mpr ⟨?_, fun b m hm ↦ ?_⟩
  · simp [close, NodeInfo.isProper, looseBlank, Node.loose_eq_nil hlast]
  · obtain ⟨-, hm | rfl⟩ := mem_branch_close hm
    · exact hearlier m hm
    · exact Node.isProper_withoutBlank hlast

/-- What all nodes of a sequence have, and every run of nodes that have it, all nodes have when the
runs of the sequence are wrapped. -/
theorem forall_mem_merge {P : Node → Prop}
    (hclose : ∀ last earlier, P last → (∀ n ∈ earlier, P n) → P (close last earlier))
    {ns : List Node} (h : ∀ n ∈ ns, P n) :
    (∀ m ∈ merge ns, P m) ∧ ∀ last earlier, P last → (∀ n ∈ earlier, P n) →
      ∀ m ∈ extend last earlier ns, P m := by
  induction ns with
  | nil =>
    refine ⟨by simp [merge], fun last earlier hlast hearlier m hm ↦ ?_⟩
    rw [extend, List.mem_singleton] at hm
    exact hm ▸ hclose last earlier hlast hearlier
  | cons n ns ih =>
    have hn := h n List.mem_cons_self
    obtain ⟨hmerge, hextend⟩ := ih fun m hm ↦ h m (.tail _ hm)
    have hrest : ∀ m ∈ (if opens n then extend n [] ns else n :: merge ns), P m := by
      intro m hm
      split at hm
      · exact hextend n [] hn (by simp) m hm
      · rcases List.mem_cons.mp hm with rfl | hm
        · exact hn
        · exact hmerge m hm
    refine ⟨hrest, fun last earlier hlast hearlier m hm ↦ ?_⟩
    rw [extend] at hm
    split at hm
    · refine hextend n (last :: earlier) hn (fun k hk ↦ ?_) m hm
      rcases List.mem_cons.mp hk with rfl | hk
      · exact hlast
      · exact hearlier k hk
    · rcases List.mem_cons.mp hm with rfl | hm
      · exact hclose last earlier hlast hearlier
      · exact hrest m hm

theorem branch_wrap (n : Node) (b : Branch) : (wrap n).branch b = merge (n.branch b) := by
  obtain ⟨info, children, title, tag, caption⟩ := n
  cases b with
  | children | title => rfl
  | tag => cases tag <;> rfl
  | caption => cases caption <;> rfl

theorem isProper_wrap {n : Node} (h : n.isProper = true) : (wrap n).isProper = true := by
  obtain ⟨hinfo, hbelow⟩ := (Node.isProper_iff n).mp h
  refine (Node.isProper_iff _).mpr ⟨hinfo, fun b ↦ ?_⟩
  rw [branch_wrap]
  exact (forall_mem_merge (fun _ _ ↦ isProper_close) (hbelow b)).1

end MathRun

theorem Metadata.isProper_of_clean? {n n' : Node} (hn : n.isProper = true)
    (h : clean? n = .ok n') : n'.isProper = true := by
  obtain ⟨hinfo, hbelow⟩ := (Node.isProper_iff n).mp hn
  unfold clean? at h
  split at h
  · next properties he =>
    split at h
    · cases h
    · cases h
      rw [clean, he]
      refine (Node.isProper_iff _).mpr ⟨?_, fun b ↦ ?_⟩
      · simpa [NodeInfo.isProper, Node.withElement, he] using hinfo
      · have hbranch : (n.withElement (.document (properties.map cleaned))).branch b =
            n.branch b := by
          cases b <;> rfl
        rw [hbranch]
        exact hbelow b
  · cases h
    exact hn

/-- A proper document is still proper when it has been prepared. -/
theorem isProper_of_prepare? {doc tree : Node} (hdoc : doc.isProper = true)
    (h : prepare? doc = .ok tree) : tree.isProper = true := by
  obtain ⟨merged, hmerged, h⟩ := exists_of_bind_eq_ok h
  refine Metadata.isProper_of_clean? ?_ h
  unfold MathRun.mergeTree? at hmerged
  cases hedit : Node.editM Node.editGate MathRun.isRun
    (fun n ↦ .ok (some (MathRun.wrap n))) doc with
  | error e =>
    rw [hedit] at hmerged
    cases hmerged
  | ok left =>
    rw [hedit] at hmerged
    obtain rfl := Except.ok.inj hmerged
    cases left with
    | none => exact hdoc
    | some n =>
      refine Node.isProper_of_editM (fun n n' hn hn' ↦ ?_) hdoc hedit
      cases hn'
      exact MathRun.isProper_wrap hn

end Typeset

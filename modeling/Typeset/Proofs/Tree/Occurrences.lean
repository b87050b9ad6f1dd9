import Mathlib.Data.List.Basic
import Typeset.Tree.Walkable

/-!
# The occurrences of a tree

Induction over trees by what stands below a node, and the occurrences of a tree: the node itself,
and those of what stands one step below.
-/

namespace Typeset

/-- What holds of a node as soon as it holds of all nodes one step below holds of every tree. -/
theorem Node.induction {motive : Node → Prop}
    (step : ∀ n : Node, (∀ b, ∀ m ∈ n.branch b, motive m) → motive n) (n : Node) : motive n := by
  refine Node.rec (motive_1 := motive) (motive_2 := fun ns ↦ ∀ m ∈ ns, motive m)
    (motive_3 := fun ns ↦ ∀ m ∈ ns.getD [], motive m) ?_ ?_ ?_ ?_ ?_ n
  · intro info children title tag caption hchildren htitle htag hcaption
    apply step
    intro b
    cases b with
    | children => exact hchildren
    | title => exact htitle
    | tag => exact htag
    | caption => exact hcaption
  · simp
  · intro m ms hm hms k hk
    rcases List.mem_cons.mp hk with rfl | hk
    · exact hm
    · exact hms k hk
  · simp
  · intro ns hns
    exact hns

namespace Node

@[simp] theorem branch_children (n : Node) : n.branch .children = n.children := rfl

@[simp] theorem branch_title (n : Node) : n.branch .title = n.title := rfl

@[simp] theorem branch_tag (n : Node) : n.branch .tag = n.tag.getD [] := rfl

@[simp] theorem branch_caption (n : Node) : n.branch .caption = n.caption.getD [] := rfl

/-- Two nodes are one if they hold the same besides nodes and in all branches, and miss the same
branches. -/
theorem eq_of_branch_eq {n n' : Node} (hinfo : n.info = n'.info) (h : ∀ b, n.branch b = n'.branch b)
    (htag : n.tag.isSome = n'.tag.isSome) (hcaption : n.caption.isSome = n'.caption.isSome) :
    n = n' := by
  have hbranch : ∀ x y : Option (List Node), x.isSome = y.isSome → x.getD [] = y.getD [] →
      x = y := by
    intro x y hsome hgetD
    cases x <;> cases y <;> simp_all
  have hchildren : n.children = n'.children := h .children
  have htitle : n.title = n'.title := h .title
  have htag := hbranch _ _ htag (h .tag)
  have hcaption := hbranch _ _ hcaption (h .caption)
  cases n
  cases n'
  simp_all

@[simp] theorem occurrencesIn?_eq (p : Place) (b : Branch) (ns : Option (List Node)) :
    occurrencesIn? p b ns = occurrencesIn p b 0 (ns.getD []) := by
  cases ns <;> rfl

theorem occurrences_eq (p : Place) (n : Node) :
    n.occurrences p = ⟨p, n⟩ :: (occurrencesIn p .children 0 n.children ++
      occurrencesIn p .title 0 n.title ++ occurrencesIn p .tag 0 (n.tag.getD []) ++
      occurrencesIn p .caption 0 (n.caption.getD [])) := by
  obtain ⟨info, children, title, tag, caption⟩ := n
  simp [occurrences]

/-! ## What stands below a node -/

section Around

variable {f : Place → Node → List Occurrence} {p : Place} {b : Branch} {i : Nat} {n : Node}
  {ns : List Node} {o : Occurrence}

/-- What a function gives for each tree of a branch at its place, from an index on. -/
def gatherIn (f : Place → Node → List Occurrence) (p : Place) (b : Branch) (i : Nat) :
    List Node → List Occurrence
  | [] => []
  | n :: ns => f (p.down b i) n ++ gatherIn f p b (i + 1) ns

/-- What a function gives for each tree one step below a node, branch by branch. -/
def gather (f : Place → Node → List Occurrence) (p : Place) (n : Node) : List Occurrence :=
  Branch.all.flatMap fun b ↦ gatherIn f p b 0 (n.branch b)

theorem mem_gatherIn_iff :
    o ∈ gatherIn f p b i ns ↔ ∃ k m, ns[k]? = some m ∧ o ∈ f (p.down b (i + k)) m := by
  induction ns generalizing i with
  | nil => simp [gatherIn]
  | cons n ns ih =>
    rw [gatherIn, List.mem_append, ih]
    constructor
    · rintro (h | ⟨k, m, hk, hm⟩)
      · exact ⟨0, n, rfl, h⟩
      · exact ⟨k + 1, m, hk, by rwa [show i + (k + 1) = i + 1 + k by omega]⟩
    · rintro ⟨k, m, hk, hm⟩
      cases k with
      | zero => exact .inl (by simpa [Option.some.inj hk] using hm)
      | succ k => exact .inr ⟨k, m, hk, by rwa [show i + 1 + k = i + (k + 1) by omega]⟩

theorem mem_gather_iff :
    o ∈ gather f p n ↔ ∃ b i m, (n.branch b)[i]? = some m ∧ o ∈ f (p.down b i) m := by
  simp only [gather, List.mem_flatMap, mem_gatherIn_iff, Nat.zero_add]
  exact ⟨fun ⟨b, _, h⟩ ↦ ⟨b, h⟩, fun ⟨b, h⟩ ↦ ⟨b, by cases b <;> decide, h⟩⟩

theorem map_gatherIn {α : Type} {φ : Occurrence → α} {φs : Node → List α}
    (h : ∀ m ∈ ns, ∀ q, (f q m).map φ = φs m) : (gatherIn f p b i ns).map φ = ns.flatMap φs := by
  induction ns generalizing i with
  | nil => rfl
  | cons n ns ih =>
    rw [gatherIn, List.map_append, List.flatMap_cons, h n List.mem_cons_self,
      ih fun m hm ↦ h m (.tail _ hm)]

theorem map_gather {α : Type} {φ : Occurrence → α} {φs : Node → List α}
    (h : ∀ b, ∀ m ∈ n.branch b, ∀ q, (f q m).map φ = φs m) :
    (gather f p n).map φ = Branch.all.flatMap fun b ↦ (n.branch b).flatMap φs := by
  rw [gather, List.map_flatMap]
  exact List.flatMap_congr fun b _ ↦ map_gatherIn (h b)

theorem occurrencesIn_eq_gatherIn : occurrencesIn p b i ns = gatherIn occurrences p b i ns := by
  induction ns generalizing i with
  | nil => rfl
  | cons n ns ih => rw [occurrencesIn, gatherIn, ih]

theorem occurrences_eq_gather (p : Place) (n : Node) :
    n.occurrences p = ⟨p, n⟩ :: gather occurrences p n := by
  simp [occurrences_eq, gather, Branch.all, occurrencesIn_eq_gatherIn]

theorem mem_occurrencesIn_iff :
    o ∈ occurrencesIn p b i ns ↔
      ∃ (k : Nat) (m : Node), ns[k]? = some m ∧ o ∈ m.occurrences (p.down b (i + k)) := by
  rw [occurrencesIn_eq_gatherIn, mem_gatherIn_iff]

/-- An occurrence of a tree is the root or an occurrence of a tree one step below. -/
theorem mem_occurrences_iff :
    o ∈ n.occurrences p ↔
      o = ⟨p, n⟩ ∨ ∃ (b : Branch) (i : Nat) (m : Node),
        (n.branch b)[i]? = some m ∧ o ∈ m.occurrences (p.down b i) := by
  rw [occurrences_eq_gather, List.mem_cons, mem_gather_iff]

end Around

theorem self_mem_occurrences (p : Place) (n : Node) : ⟨p, n⟩ ∈ n.occurrences p :=
  mem_occurrences_iff.mpr (.inl rfl)

/-- What every occurrence passes on to those one step below it, all occurrences of a tree have if the
root has it. -/
theorem forall_of_passes_down {P : Occurrence → Prop}
    (hdown : ∀ o b i m, (o.node.branch b)[i]? = some m → P o → P ⟨o.place.down b i, m⟩) {n : Node}
    {p : Place} (h : P ⟨p, n⟩) {o : Occurrence} (ho : o ∈ n.occurrences p) : P o := by
  induction n using Node.induction generalizing p with
  | step n ih =>
    rcases mem_occurrences_iff.mp ho with rfl | ⟨b, i, m, hm, ho⟩
    · exact h
    · exact ih b m (List.mem_of_getElem? hm) (hdown ⟨p, n⟩ b i m hm h) ho

theorem mem_occurrences_trans {n : Node} {p : Place} {o u : Occurrence} (h : o ∈ n.occurrences p)
    (hu : u ∈ o.node.occurrences o.place) : u ∈ n.occurrences p := by
  induction n using Node.induction generalizing p with
  | step n ih =>
    rcases mem_occurrences_iff.mp h with rfl | ⟨b, i, m, hm, h⟩
    · exact hu
    · exact mem_occurrences_iff.mpr (.inr ⟨b, i, m, hm, ih b m (List.mem_of_getElem? hm) h⟩)

theorem mem_occurrences_of_getElem? {doc : Node} {o : Occurrence} {b : Branch} {i : Nat} {m : Node}
    (ho : o ∈ doc.occurrences (.ofRoot 0)) (hm : (o.node.branch b)[i]? = some m) :
    ⟨o.place.down b i, m⟩ ∈ doc.occurrences (.ofRoot 0) := by
  refine mem_occurrences_trans ho (mem_occurrences_iff.mpr (.inr ⟨b, i, m, hm, ?_⟩))
  exact self_mem_occurrences _ _

/-- The steps of an occurrence lead to its node. -/
theorem at?_of_mem_occurrences {doc n : Node} {p : Place} {o : Occurrence}
    (hn : doc.at? p.steps = some n) (ho : o ∈ n.occurrences p) :
    doc.at? o.place.steps = some o.node := by
  refine forall_of_passes_down (P := fun o ↦ doc.at? o.place.steps = some o.node) ?_ hn ho
  intro o b i m hm hat
  rw [Place.down, at?, hat]
  exact hm

/-- The nodes of a tree are the same wherever it stands. -/
theorem map_node_occurrences (p : Place) (n : Node) :
    (n.occurrences p).map Occurrence.node = n.visit := by
  suffices h : ∀ p, (n.occurrences p).map Occurrence.node =
      n :: Branch.all.flatMap fun b ↦ (n.branch b).flatMap visit by
    rw [visit, h, h]
  induction n using Node.induction with
  | step n ih =>
    intro p
    rw [occurrences_eq_gather, List.map_cons, map_gather fun b m hm q ↦ ?_]
    rw [visit, ih b m hm, ih b m hm]

/-- The nodes of a branch are those that its trees hold. -/
theorem map_node_branch (p : Place) (n : Node) (b : Branch) :
    (occurrencesIn p b 0 (n.branch b)).map Occurrence.node = (n.branch b).flatMap visit := by
  rw [occurrencesIn_eq_gatherIn]
  exact map_gatherIn fun m _ q ↦ map_node_occurrences q m

theorem mem_visit_self (n : Node) : n ∈ n.visit :=
  List.mem_map_of_mem (f := Occurrence.node) (self_mem_occurrences _ n)

theorem mem_visit_of_mem_occurrences {doc k : Node} {o : Occurrence}
    (ho : o ∈ doc.occurrences (.ofRoot 0)) (hk : k ∈ o.node.visit) : k ∈ doc.visit := by
  rw [← map_node_occurrences o.place] at hk
  obtain ⟨u, hu, rfl⟩ := List.mem_map.mp hk
  exact List.mem_map_of_mem (mem_occurrences_trans ho hu)

theorem mem_visit_of_mem_branch {n m k : Node} {b : Branch} (hm : m ∈ n.branch b)
    (hk : k ∈ m.visit) : k ∈ n.visit := by
  obtain ⟨i, hi⟩ := List.mem_iff_getElem?.mp hm
  rw [← map_node_occurrences ((Place.ofRoot 0).down b i)] at hk
  obtain ⟨o, ho, rfl⟩ := List.mem_map.mp hk
  exact List.mem_map_of_mem (mem_occurrences_iff.mpr (.inr ⟨b, i, m, hi, ho⟩))

/-- What all nodes of a tree have, the root has and all nodes of the trees one step below. -/
theorem forall_mem_visit_iff {P : Node → Prop} {n : Node} :
    (∀ k ∈ n.visit, P k) ↔ P n ∧ ∀ b, ∀ m ∈ n.branch b, ∀ k ∈ m.visit, P k := by
  constructor
  · exact fun h ↦ ⟨h n (mem_visit_self n), fun b m hm k hk ↦ h k (mem_visit_of_mem_branch hm hk)⟩
  · rintro ⟨hn, hbelow⟩ k hk
    obtain ⟨o, ho, rfl⟩ := List.mem_map.mp hk
    rcases mem_occurrences_iff.mp ho with rfl | ⟨b, i, m, hm, ho⟩
    · exact hn
    · refine hbelow b m (List.mem_of_getElem? hm) o.node ?_
      rw [← map_node_occurrences]
      exact List.mem_map_of_mem ho

end Node

end Typeset

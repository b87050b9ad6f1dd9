import Mathlib.Data.List.Nodup
import Typeset.Proofs.Tree.Occurrences
import Typeset.Render.Walk

/-!
# The order of printing

A node is printed after everything below it: its title, its tag, its caption if it prints one, and
then its children.
-/

namespace Typeset

open Render

namespace Place

/-- The first place is the second one or stands below it. -/
def IsBelow (p q : Place) : Prop := p.root = q.root ∧ q.steps <:+ p.steps

theorem IsBelow.refl (p : Place) : p.IsBelow p := ⟨rfl, List.suffix_rfl⟩

theorem IsBelow.trans {p q r : Place} (h : p.IsBelow q) (h' : q.IsBelow r) : p.IsBelow r :=
  ⟨h.1.trans h'.1, h'.2.trans h.2⟩

theorem isBelow_down (p : Place) (b : Branch) (i : Nat) : (p.down b i).IsBelow p :=
  ⟨rfl, List.suffix_cons _ _⟩

theorem IsBelow.ne_of_down {p q : Place} {b : Branch} {i : Nat} (h : p.IsBelow (q.down b i)) :
    p ≠ q := by
  rintro rfl
  exact absurd h.2.length_le (by simp [down])

/-- Nothing stands below two steps at once. -/
theorem IsBelow.eq_of_down {p q : Place} {b b' : Branch} {i i' : Nat}
    (h : p.IsBelow (q.down b i)) (h' : p.IsBelow (q.down b' i')) : b = b' ∧ i = i' := by
  have heq := (List.suffix_or_suffix_of_suffix h.2 h'.2).elim
    (fun h ↦ h.eq_of_length (by simp [down])) fun h ↦ (h.eq_of_length (by simp [down])).symm
  simpa [down] using heq

theorem eq_of_isSome_childIndex? {p q : Place} {b : Branch} {i : Nat}
    (h : ((p.down b i).childIndex? q).isSome = true) : b = .children ∧ p = q := by
  cases b with
  | children =>
    by_cases heq : p.root = q.root ∧ p.steps = q.steps
    · exact ⟨rfl, by rwa [Place.mk.injEq]⟩
    · simp [childIndex?, down, heq] at h
  | title | tag | caption => cases h

theorem eq_down_of_childIndex? {p q : Place} {i : Nat} (h : p.childIndex? q = some i) :
    p = q.down .children i := by
  unfold childIndex? at h
  split at h
  · next j above hsteps =>
    split at h
    · next heq =>
      obtain rfl := Option.some.inj h
      obtain ⟨root, steps⟩ := p
      obtain rfl : steps = _ := hsteps
      obtain rfl : root = q.root := heq.1
      rw [down, heq.2]
    · cases h
  · cases h

end Place

namespace Branch

/-- The branches of a node in the order in which they are printed. -/
def printOrder : List Branch := [.title, .tag, .caption, .children]

theorem mem_printOrder (b : Branch) : b ∈ printOrder := by cases b <;> decide

theorem nodup_printOrder : printOrder.Nodup := by decide

/-- The branches that are printed before a branch. -/
def earlier (b : Branch) : List Branch := printOrder.takeWhile (· != b)

theorem notMem_earlier (b : Branch) : b ∉ b.earlier := by cases b <;> decide

theorem exists_printOrder_eq (b : Branch) : ∃ later, printOrder = b.earlier ++ b :: later := by
  cases b <;> exact ⟨_, rfl⟩

end Branch

namespace Node

mutual

/-- The occurrences of a tree that are printed, in the order in which they are. -/
def printed (p : Place) : Node → List Occurrence
  | ⟨info, children, title, tag, caption⟩ =>
    let n : Node := ⟨info, children, title, tag, caption⟩
    printedIn p .title 0 title ++ printedIn? p .tag tag ++
      (if printsCaption n then printedIn? p .caption caption else []) ++
      printedIn p .children 0 children ++ [⟨p, n⟩]
termination_by structural n => n

/-- The occurrences of the trees of a branch that are printed, from an index on. -/
def printedIn (p : Place) (branch : Branch) (index : Nat) : List Node → List Occurrence
  | [] => []
  | n :: ns => n.printed (p.down branch index) ++ printedIn p branch (index + 1) ns
termination_by structural ns => ns

/-- The occurrences of the trees of a branch that may be missing that are printed. -/
def printedIn? (p : Place) (branch : Branch) : Option (List Node) → List Occurrence
  | none => []
  | some ns => printedIn p branch 0 ns
termination_by structural ns => ns

end

@[simp] theorem printedIn?_eq (p : Place) (b : Branch) (ns : Option (List Node)) :
    printedIn? p b ns = printedIn p b 0 (ns.getD []) := by
  cases ns <;> rfl

/-- The occurrences below one node that are printed on a branch. -/
def printedOn (p : Place) (n : Node) (b : Branch) : List Occurrence :=
  if b = .caption ∧ printsCaption n = false then [] else printedIn p b 0 (n.branch b)

theorem printed_eq (p : Place) (n : Node) :
    n.printed p = Branch.printOrder.flatMap (n.printedOn p) ++ [⟨p, n⟩] := by
  obtain ⟨info, children, title, tag, caption⟩ := n
  cases h : printsCaption ⟨info, children, title, tag, caption⟩ <;>
    simp [printed, printedOn, Branch.printOrder, h]

theorem printedIn_eq_gatherIn {p : Place} {b : Branch} {i : Nat} {ns : List Node} :
    printedIn p b i ns = gatherIn printed p b i ns := by
  induction ns generalizing i with
  | nil => rfl
  | cons n ns ih => rw [printedIn, gatherIn, ih]

theorem mem_printedIn_iff {p : Place} {b : Branch} {i : Nat} {ns : List Node} {o : Occurrence} :
    o ∈ printedIn p b i ns ↔
      ∃ (k : Nat) (m : Node), ns[k]? = some m ∧ o ∈ m.printed (p.down b (i + k)) := by
  rw [printedIn_eq_gatherIn, mem_gatherIn_iff]

/-- What is printed of trees in a row is printed before one of them, of it, or after it. -/
theorem printedIn_eq_of_getElem? {p : Place} {b : Branch} {i k : Nat} {ns : List Node} {m : Node}
    (h : ns[k]? = some m) : printedIn p b i ns =
      printedIn p b i (ns.take k) ++ m.printed (p.down b (i + k)) ++
        printedIn p b (i + k + 1) (ns.drop (k + 1)) := by
  induction ns generalizing i k with
  | nil => cases h
  | cons n ns ih =>
    cases k with
    | zero =>
      obtain rfl := Option.some.inj h
      rfl
    | succ k =>
      have hrest := ih (i := i + 1) (k := k) h
      rw [show i + 1 + k = i + (k + 1) by omega] at hrest
      rw [List.take_succ_cons, List.drop_succ_cons, printedIn, printedIn, hrest]
      simp only [List.append_assoc]

theorem mem_printedOn_iff {p : Place} {n : Node} {b : Branch} {o : Occurrence} :
    o ∈ n.printedOn p b ↔ (b = .caption → printsCaption n = true) ∧
      ∃ (i : Nat) (m : Node), (n.branch b)[i]? = some m ∧ o ∈ m.printed (p.down b i) := by
  unfold printedOn
  by_cases hb : b = .caption <;> cases hc : printsCaption n <;>
    simp [hb, mem_printedIn_iff]

/-- What is printed is the root, or is printed one step below. -/
theorem mem_printed_iff {p : Place} {n : Node} {o : Occurrence} :
    o ∈ n.printed p ↔ o = ⟨p, n⟩ ∨ ∃ b, o ∈ n.printedOn p b := by
  rw [printed_eq, List.mem_append, List.mem_singleton, List.mem_flatMap, or_comm]
  exact or_congr_right ⟨fun ⟨b, _, h⟩ ↦ ⟨b, h⟩, fun ⟨b, h⟩ ↦ ⟨b, Branch.mem_printOrder b, h⟩⟩

theorem mem_occurrences_of_mem_printed {n : Node} {p : Place} {o : Occurrence}
    (h : o ∈ n.printed p) : o ∈ n.occurrences p := by
  induction n using Node.induction generalizing p with
  | step n ih =>
    rcases mem_printed_iff.mp h with rfl | ⟨b, h⟩
    · exact self_mem_occurrences _ _
    · obtain ⟨-, i, m, hm, h⟩ := mem_printedOn_iff.mp h
      exact mem_occurrences_iff.mpr (.inr ⟨b, i, m, hm, ih b m (List.mem_of_getElem? hm) h⟩)

theorem mem_visit_of_mem_printedOn {n : Node} {p : Place} {b : Branch} {o : Occurrence}
    (h : o ∈ n.printedOn p b) : o.node ∈ n.visit := by
  rw [← map_node_occurrences p]
  exact List.mem_map_of_mem (mem_occurrences_of_mem_printed (mem_printed_iff.mpr (.inr ⟨b, h⟩)))

/-- The occurrences of a tree stand below its place. -/
theorem isBelow_of_mem_occurrences {n : Node} {p : Place} {o : Occurrence}
    (h : o ∈ n.occurrences p) : o.place.IsBelow p := by
  refine forall_of_passes_down (P := fun o ↦ o.place.IsBelow p) ?_ (.refl p) h
  exact fun o b i _ _ hbelow ↦ (Place.isBelow_down o.place b i).trans hbelow

theorem isBelow_of_mem_printed {n : Node} {p : Place} {o : Occurrence} (h : o ∈ n.printed p) :
    o.place.IsBelow p :=
  isBelow_of_mem_occurrences (mem_occurrences_of_mem_printed h)

theorem isBelow_of_mem_printedOn {n : Node} {p : Place} {b : Branch} {o : Occurrence}
    (h : o ∈ n.printedOn p b) : ∃ i, o.place.IsBelow (p.down b i) := by
  obtain ⟨-, i, m, -, h⟩ := mem_printedOn_iff.mp h
  exact ⟨i, isBelow_of_mem_printed h⟩

/-- What is given for trees in a row stands below the steps to them. -/
theorem isBelow_of_mem_gatherIn {f : Place → Node → List Occurrence}
    (hbelow : ∀ q m, ∀ o ∈ f q m, o.place.IsBelow q) {ns : List Node} {p : Place} {b : Branch}
    {i : Nat} {o : Occurrence} (h : o ∈ gatherIn f p b i ns) :
    ∃ k, i ≤ k ∧ o.place.IsBelow (p.down b k) := by
  obtain ⟨k, m, -, h⟩ := mem_gatherIn_iff.mp h
  exact ⟨_, Nat.le_add_right i k, hbelow _ m o h⟩

theorem isBelow_of_mem_printedIn {ns : List Node} {p : Place} {b : Branch} {i : Nat}
    {o : Occurrence} (h : o ∈ printedIn p b i ns) :
    ∃ k, i ≤ k ∧ o.place.IsBelow (p.down b k) := by
  rw [printedIn_eq_gatherIn] at h
  exact isBelow_of_mem_gatherIn (fun _ _ _ ↦ isBelow_of_mem_printed) h

/-! ## Places stand once -/

/-- Occurrences below different steps stand at different places. -/
theorem disjoint_of_isBelow {p : Place} {os us : List Occurrence} {P Q : Branch → Nat → Prop}
    (hos : ∀ o ∈ os, ∃ b i, P b i ∧ o.place.IsBelow (p.down b i))
    (hus : ∀ u ∈ us, ∃ b i, Q b i ∧ u.place.IsBelow (p.down b i))
    (hPQ : ∀ b i, P b i → ¬ Q b i) : (os.map (·.place)).Disjoint (us.map (·.place)) := by
  intro q hq hq'
  obtain ⟨o, ho, rfl⟩ := List.mem_map.mp hq
  obtain ⟨u, hu, heq⟩ := List.mem_map.mp hq'
  obtain ⟨b, i, hP, hbelow⟩ := hos o ho
  obtain ⟨b', i', hQ, hbelow'⟩ := hus u hu
  rw [heq] at hbelow'
  obtain ⟨rfl, rfl⟩ := hbelow.eq_of_down hbelow'
  exact hPQ _ _ hP hQ

/-- The first one of trees in a row stands at other places than those behind it. -/
theorem disjoint_row {p : Place} {b : Branch} {i : Nat} {os us : List Occurrence}
    (hos : ∀ o ∈ os, o.place.IsBelow (p.down b i))
    (hus : ∀ u ∈ us, ∃ k, i + 1 ≤ k ∧ u.place.IsBelow (p.down b k)) :
    (os.map (·.place)).Disjoint (us.map (·.place)) := by
  refine disjoint_of_isBelow (P := fun _ k ↦ k = i) (Q := fun _ k ↦ i + 1 ≤ k)
    (fun o ho ↦ ⟨b, i, rfl, hos o ho⟩) (fun u hu ↦ ?_) fun _ _ hP hQ ↦ by omega
  obtain ⟨k, hk, hbelow⟩ := hus u hu
  exact ⟨b, k, hk, hbelow⟩

/-- What stands on the branches of a node stands at different places, and not at that of the
node. -/
theorem nodup_branches {p : Place} {g : Branch → List Occurrence} {bs : List Branch}
    (hbs : bs.Nodup) (hg : ∀ b, ∀ o ∈ g b, ∃ i, o.place.IsBelow (p.down b i))
    (hnodup : ∀ b, ((g b).map (·.place)).Nodup) :
    ((bs.flatMap g).map (·.place)).Nodup ∧ p ∉ (bs.flatMap g).map (·.place) := by
  refine ⟨?_, fun hp ↦ ?_⟩
  · rw [List.map_flatMap]
    refine List.nodup_flatMap.mpr ⟨fun b _ ↦ hnodup b, hbs.imp fun {b b'} hne ↦ ?_⟩
    have hbranch : ∀ c, ∀ o ∈ g c, ∃ b i, b = c ∧ o.place.IsBelow (p.down b i) := by
      intro c o ho
      obtain ⟨i, hi⟩ := hg c o ho
      exact ⟨c, i, rfl, hi⟩
    exact disjoint_of_isBelow (P := fun c _ ↦ c = b) (Q := fun c _ ↦ c = b') (hbranch b)
      (hbranch b') fun _ _ hP hQ ↦ hne (hP.symm.trans hQ)
  · obtain ⟨o, ho, heq⟩ := List.mem_map.mp hp
    obtain ⟨b, -, ho⟩ := List.mem_flatMap.mp ho
    obtain ⟨i, hi⟩ := hg b o ho
    exact hi.ne_of_down heq

/-- What is given for trees in a row stands at different places if that is so for each tree. -/
theorem nodup_gatherIn {f : Place → Node → List Occurrence}
    (hbelow : ∀ q m, ∀ o ∈ f q m, o.place.IsBelow q) {ns : List Node} {p : Place} {b : Branch}
    {i : Nat} (h : ∀ m ∈ ns, ∀ q, ((f q m).map (·.place)).Nodup) :
    ((gatherIn f p b i ns).map (·.place)).Nodup := by
  induction ns generalizing i with
  | nil => exact List.nodup_nil
  | cons n ns ih =>
    rw [gatherIn, List.map_append, List.nodup_append']
    exact ⟨h n List.mem_cons_self _, ih fun m hm ↦ h m (.tail _ hm), disjoint_row
      (fun o ho ↦ hbelow _ n o ho) fun u hu ↦ isBelow_of_mem_gatherIn hbelow hu⟩

/-- Nothing is printed twice at one place. -/
theorem nodup_printed (n : Node) (p : Place) : ((n.printed p).map (·.place)).Nodup := by
  induction n using Node.induction generalizing p with
  | step n ih =>
    have hon : ∀ b, ((n.printedOn p b).map (·.place)).Nodup := by
      intro b
      unfold printedOn
      split
      · exact List.nodup_nil
      · rw [printedIn_eq_gatherIn]
        exact nodup_gatherIn (fun _ _ _ ↦ isBelow_of_mem_printed) fun m hm q ↦ ih b m hm q
    obtain ⟨hbranches, hself⟩ := nodup_branches (p := p) Branch.nodup_printOrder
      (fun b o ho ↦ isBelow_of_mem_printedOn ho) hon
    rw [printed_eq, List.map_append, List.nodup_append']
    exact ⟨hbranches, List.nodup_singleton p, List.disjoint_singleton.mpr hself⟩

/-- No two nodes of a tree stand at one place. -/
theorem nodup_occurrences (n : Node) (p : Place) : ((n.occurrences p).map (·.place)).Nodup := by
  induction n using Node.induction generalizing p with
  | step n ih =>
    have hbelow : ∀ b, ∀ o ∈ gatherIn occurrences p b 0 (n.branch b),
        ∃ i, o.place.IsBelow (p.down b i) := by
      intro b o ho
      have hsteps := isBelow_of_mem_gatherIn (fun _ _ _ ↦ isBelow_of_mem_occurrences) ho
      exact hsteps.imp fun _ h ↦ h.2
    have hdistinct : Branch.all.Nodup := by decide
    obtain ⟨hbranches, hself⟩ := nodup_branches hdistinct hbelow fun b ↦
      nodup_gatherIn (fun _ _ _ ↦ isBelow_of_mem_occurrences) fun m hm q ↦ ih b m hm q
    rw [occurrences_eq_gather, List.map_cons, List.nodup_cons]
    exact ⟨hself, hbranches⟩

end Node

end Typeset

import Mathlib.Data.List.Infix
import Mathlib.Data.List.Perm.Basic
import Typeset.Proofs.Render.Printed

/-!
# Visits and ascents

A visit comes to a node before all that stands below it. An ascent is the other way to go over a
tree: it comes to a node after all that stands below it, and it may leave out the trees of some
roots. Both take the branches of a node in one order, so each is sorted by an order on places that
compares the first steps in which two places differ.
-/

namespace Typeset

/-! ## Orders of places -/

namespace Step

/-- Of two steps from one node, the first leads to an earlier branch, or further to the front on the
same one. -/
def Precedes (s t : Step) : Prop :=
  Branch.all.idxOf s.branch < Branch.all.idxOf t.branch ∨
    s.branch = t.branch ∧ s.index < t.index

/-- Steps from a root that differ are in order if those are in which they differ first. Where there
are none, the longer steps come first. -/
inductive Ascends : List Step → List Step → Prop
  | above (s : Step) (p : List Step) : Ascends (s :: p) []
  | beside {s t : Step} {p q : List Step} : s.Precedes t → Ascends (s :: p) (t :: q)
  | along {s : Step} {p q : List Step} : Ascends p q → Ascends (s :: p) (s :: q)

/-- An order of the steps from a root that goes by those in which they differ first. -/
structure IsOrder (R : List Step → List Step → Prop) : Prop where
  beside {s t : Step} {p q : List Step} : s.Precedes t → R (s :: p) (t :: q)
  along {s : Step} {p q : List Step} : R p q → R (s :: p) (s :: q)

theorem isOrder_lex : IsOrder (List.Lex Precedes) := ⟨.rel, .cons⟩

theorem isOrder_ascends : IsOrder Ascends := ⟨.beside, .along⟩

theorem IsOrder.append_left {R : List Step → List Step → Prop} (hR : IsOrder R) {p q : List Step}
    (h : R p q) (above : List Step) : R (above ++ p) (above ++ q) := by
  induction above with
  | nil => exact h
  | cons s above ih => exact hR.along ih

end Step

/-- The steps from the root to the place, the first one first. -/
def Place.path (p : Place) : List Step := p.steps.reverse

theorem Place.path_down (p : Place) (b : Branch) (i : Nat) :
    (p.down b i).path = p.path ++ [⟨b, i⟩] := List.reverse_cons

theorem Place.IsBelow.prefix_path {p q : Place} (h : p.IsBelow q) : q.path <+: p.path :=
  List.reverse_prefix.mpr h.2

namespace Occurrence

/-- The order of a visit: a node stands before all that is below it. -/
def Precedes (o u : Occurrence) : Prop := List.Lex Step.Precedes o.place.path u.place.path

/-- The order of an ascent: a node stands behind all that is below it. -/
def Ascends (o u : Occurrence) : Prop := Step.Ascends o.place.path u.place.path

end Occurrence

namespace Node

/-! ## What stands below a node -/

section Around

variable {f g : Place → Node → List Occurrence} {p : Place} {b : Branch} {i : Nat} {n : Node}
  {ns : List Node}

theorem perm_gatherIn (h : ∀ m ∈ ns, ∀ q, (f q m).Perm (g q m)) :
    (gatherIn f p b i ns).Perm (gatherIn g p b i ns) := by
  induction ns generalizing i with
  | nil => exact .refl _
  | cons n ns ih =>
    exact (h n List.mem_cons_self _).append (ih fun m hm ↦ h m (.tail _ hm))

theorem perm_gather (h : ∀ b, ∀ m ∈ n.branch b, ∀ q, (f q m).Perm (g q m)) :
    (gather f p n).Perm (gather g p n) :=
  List.Perm.flatMap_left _ fun b _ ↦ perm_gatherIn (h b)

theorem filter_gatherIn {keep : Occurrence → Bool}
    (h : ∀ k m, ns[k]? = some m →
      (f (p.down b (i + k)) m).filter keep = g (p.down b (i + k)) m) :
    (gatherIn f p b i ns).filter keep = gatherIn g p b i ns := by
  induction ns generalizing i with
  | nil => rfl
  | cons n ns ih =>
    have hfirst : (f (p.down b i) n).filter keep = g (p.down b i) n := h 0 n rfl
    have hrest : (gatherIn f p b (i + 1) ns).filter keep = gatherIn g p b (i + 1) ns := by
      refine ih fun k m hk ↦ ?_
      rw [show i + 1 + k = i + (k + 1) by omega]
      exact h (k + 1) m hk
    rw [gatherIn, gatherIn, List.filter_append, hfirst, hrest]

theorem filter_gather {keep : Occurrence → Bool}
    (h : ∀ b i m, (n.branch b)[i]? = some m → (f (p.down b i) m).filter keep = g (p.down b i) m) :
    (gather f p n).filter keep = gather g p n := by
  rw [gather, gather, List.filter_flatMap]
  refine List.flatMap_congr fun b _ ↦ filter_gatherIn fun k m hk ↦ ?_
  rw [Nat.zero_add]
  exact h b k m hk

section Pairwise

variable {R : List Step → List Step → Prop} (hR : Step.IsOrder R)
  (hbelow : ∀ q m, ∀ o ∈ f q m, o.place.IsBelow q)

include hR hbelow

/-- What is given for trees in two places one step below a node is in the order of the places. -/
theorem rel_of_precedes {c : Branch} {j : Nat} {m k : Node} {o u : Occurrence}
    (h : Step.Precedes ⟨b, i⟩ ⟨c, j⟩) (ho : o ∈ f (p.down b i) m) (hu : u ∈ f (p.down c j) k) :
    R o.place.path u.place.path := by
  obtain ⟨below, ho⟩ := (hbelow _ _ o ho).prefix_path
  obtain ⟨below', hu⟩ := (hbelow _ _ u hu).prefix_path
  rw [← ho, ← hu, Place.path_down, Place.path_down, List.append_assoc, List.append_assoc]
  exact hR.append_left (hR.beside h) _

theorem pairwise_gatherIn
    (h : ∀ m ∈ ns, ∀ q, (f q m).Pairwise fun o u ↦ R o.place.path u.place.path) :
    (gatherIn f p b i ns).Pairwise fun o u ↦ R o.place.path u.place.path := by
  induction ns generalizing i with
  | nil => exact .nil
  | cons n ns ih =>
    rw [gatherIn, List.pairwise_append]
    refine ⟨h n List.mem_cons_self _, ih fun m hm ↦ h m (.tail _ hm), fun o ho u hu ↦ ?_⟩
    obtain ⟨k, m, -, hu⟩ := mem_gatherIn_iff.mp hu
    have hprecedes : Step.Precedes ⟨b, i⟩ ⟨b, i + 1 + k⟩ :=
      .inr ⟨rfl, Nat.lt_of_lt_of_le (Nat.lt_succ_self i) (Nat.le_add_right _ k)⟩
    exact rel_of_precedes hR hbelow hprecedes ho hu

/-- What stands below a node is in order if what stands in each tree is. -/
theorem pairwise_gather
    (h : ∀ b, ∀ m ∈ n.branch b, ∀ q, (f q m).Pairwise fun o u ↦ R o.place.path u.place.path) :
    (gather f p n).Pairwise fun o u ↦ R o.place.path u.place.path := by
  have hall : Branch.all.Pairwise fun b c ↦ Branch.all.idxOf b < Branch.all.idxOf c := by decide
  refine List.pairwise_flatMap.mpr
    ⟨fun b _ ↦ pairwise_gatherIn hR hbelow (h b), hall.imp fun hlt o ho u hu ↦ ?_⟩
  obtain ⟨k, m, -, ho⟩ := mem_gatherIn_iff.mp ho
  obtain ⟨k', m', -, hu⟩ := mem_gatherIn_iff.mp hu
  exact rel_of_precedes hR hbelow (.inl hlt) ho hu

end Pairwise

end Around

/-! ## Ascents -/

mutual

/-- The occurrences of a tree at a place in the order of an ascent, without the trees whose roots
are to be skipped. -/
def ascent (skip : Node → Bool) (p : Place) : Node → List Occurrence
  | ⟨info, children, title, tag, caption⟩ =>
    if skip ⟨info, children, title, tag, caption⟩ then []
    else
      ascentIn skip p .children 0 children ++ ascentIn skip p .title 0 title ++
        ascentIn? skip p .tag tag ++ ascentIn? skip p .caption caption ++
        [⟨p, ⟨info, children, title, tag, caption⟩⟩]
termination_by structural n => n

/-- The same for the trees of a branch from an index on. -/
def ascentIn (skip : Node → Bool) (p : Place) (b : Branch) (i : Nat) : List Node → List Occurrence
  | [] => []
  | n :: ns => n.ascent skip (p.down b i) ++ ascentIn skip p b (i + 1) ns
termination_by structural ns => ns

/-- The same for the trees of a branch that may be missing. -/
def ascentIn? (skip : Node → Bool) (p : Place) (b : Branch) : Option (List Node) → List Occurrence
  | none => []
  | some ns => ascentIn skip p b 0 ns
termination_by structural ns => ns

end

variable {skip : Node → Bool} {n : Node} {p : Place} {o : Occurrence}

theorem ascentIn_eq_gatherIn {b : Branch} {i : Nat} {ns : List Node} :
    ascentIn skip p b i ns = gatherIn (ascent skip) p b i ns := by
  induction ns generalizing i with
  | nil => rfl
  | cons n ns ih => rw [ascentIn, gatherIn, ih]

theorem ascentIn?_eq_gatherIn {b : Branch} {ns : Option (List Node)} :
    ascentIn? skip p b ns = gatherIn (ascent skip) p b 0 (ns.getD []) := by
  cases ns with
  | none => rfl
  | some ns => exact ascentIn_eq_gatherIn

theorem ascent_eq_gather (skip : Node → Bool) (p : Place) (n : Node) :
    n.ascent skip p = if skip n then [] else gather (ascent skip) p n ++ [⟨p, n⟩] := by
  obtain ⟨info, children, title, tag, caption⟩ := n
  simp [ascent, gather, Branch.all, ascentIn_eq_gatherIn, ascentIn?_eq_gatherIn]

theorem mem_occurrences_of_mem_ascent (h : o ∈ n.ascent skip p) : o ∈ n.occurrences p := by
  induction n using Node.induction generalizing p with
  | step n ih =>
    rw [ascent_eq_gather] at h
    split at h
    · exact absurd h List.not_mem_nil
    · rcases List.mem_append.mp h with h | h
      · obtain ⟨b, i, m, hm, h⟩ := mem_gather_iff.mp h
        exact mem_occurrences_iff.mpr (.inr ⟨b, i, m, hm, ih b m (List.mem_of_getElem? hm) h⟩)
      · rw [List.mem_singleton.mp h]
        exact self_mem_occurrences p n

theorem isBelow_of_mem_ascent (h : o ∈ n.ascent skip p) : o.place.IsBelow p :=
  isBelow_of_mem_occurrences (mem_occurrences_of_mem_ascent h)

/-- An ascent that skips nothing comes to the same occurrences as a visit. -/
theorem ascent_perm_occurrences (p : Place) (n : Node) :
    (n.ascent (fun _ ↦ false) p).Perm (n.occurrences p) := by
  induction n using Node.induction generalizing p with
  | step n ih =>
    rw [ascent_eq_gather, if_neg Bool.false_ne_true, occurrences_eq_gather]
    refine List.perm_append_singleton _ _ |>.trans (.cons _ ?_)
    exact perm_gather fun b m hm q ↦ ih b m hm q

/-- A visit comes to each node before all that stands below it, and along the branches in order. -/
theorem pairwise_occurrences (p : Place) (n : Node) :
    (n.occurrences p).Pairwise Occurrence.Precedes := by
  induction n using Node.induction generalizing p with
  | step n ih =>
    rw [occurrences_eq_gather, List.pairwise_cons]
    refine ⟨fun o ho ↦ ?_, pairwise_gather Step.isOrder_lex
      (fun q m o ho ↦ isBelow_of_mem_occurrences ho) fun b m hm q ↦ ih b m hm q⟩
    obtain ⟨b, i, m, -, ho⟩ := mem_gather_iff.mp ho
    obtain ⟨below, hbelow⟩ := (isBelow_of_mem_occurrences ho).prefix_path
    have hself : List.Lex Step.Precedes (p.path ++ []) (p.path ++ ⟨b, i⟩ :: below) :=
      Step.isOrder_lex.append_left .nil _
    rw [Place.path_down, List.append_assoc] at hbelow
    rw [Occurrence.Precedes, ← hbelow]
    rwa [List.append_nil] at hself

/-- An ascent comes to each node after all that stands below it, and along the branches in order. -/
theorem pairwise_ascent (skip : Node → Bool) (p : Place) (n : Node) :
    (n.ascent skip p).Pairwise Occurrence.Ascends := by
  induction n using Node.induction generalizing p with
  | step n ih =>
    rw [ascent_eq_gather]
    split
    · exact .nil
    · refine List.pairwise_append.mpr ⟨pairwise_gather Step.isOrder_ascends
        (fun q m o ho ↦ isBelow_of_mem_ascent ho) fun b m hm q ↦ ih b m hm q,
        List.pairwise_singleton _ _, fun o ho u hu ↦ ?_⟩
      obtain ⟨b, i, m, -, ho⟩ := mem_gather_iff.mp ho
      obtain ⟨below, hbelow⟩ := (isBelow_of_mem_ascent ho).prefix_path
      have hself : Step.Ascends (p.path ++ ⟨b, i⟩ :: below) (p.path ++ []) :=
        Step.isOrder_ascends.append_left (.above _ _) _
      rw [Place.path_down, List.append_assoc] at hbelow
      rw [List.mem_singleton.mp hu, Occurrence.Ascends, ← hbelow]
      rwa [List.append_nil] at hself

/-- A visit comes to all places of a tree, and to nothing else. -/
theorem mem_occurrences_iff_at? (root : Nat) (doc : Node) :
    o ∈ doc.occurrences (.ofRoot root) ↔
      o.place.root = root ∧ doc.at? o.place.steps = some o.node := by
  constructor
  · exact fun ho ↦ ⟨(isBelow_of_mem_occurrences ho).1, at?_of_mem_occurrences rfl ho⟩
  · obtain ⟨⟨r, steps⟩, n⟩ := o
    rintro ⟨rfl, hn⟩
    induction steps generalizing n with
    | nil =>
      obtain rfl := Option.some.inj hn
      exact self_mem_occurrences _ doc
    | cons s above ih =>
      obtain ⟨a, ha, hs⟩ := Option.bind_eq_some_iff.mp hn
      refine mem_occurrences_trans (ih a ha) (mem_occurrences_iff.mpr (.inr ?_))
      exact ⟨s.branch, s.index, n, hs, self_mem_occurrences _ n⟩

/-! ## Skipped trees -/

/-- One of the nodes from the root down to the end of some steps is to be skipped. -/
def isSkippedAt (doc : Node) (skip : Node → Bool) (steps : List Step) : Bool :=
  steps.tails.any fun above ↦ (doc.at? above).any skip

theorem isSkippedAt_cons (doc : Node) (skip : Node → Bool) (s : Step) (above : List Step) :
    doc.isSkippedAt skip (s :: above) =
      ((doc.at? (s :: above)).any skip || doc.isSkippedAt skip above) := rfl

theorem isSkippedAt_of_isBelow {doc : Node} {q : Place} (h : q.IsBelow p)
    (hskip : doc.isSkippedAt skip p.steps = true) : doc.isSkippedAt skip q.steps = true := by
  obtain ⟨above, habove, hat⟩ := List.any_eq_true.mp hskip
  refine List.any_eq_true.mpr ⟨above, ?_, hat⟩
  exact (List.mem_tails _ _).mpr (((List.mem_tails _ _).mp habove).trans h.2)

/-- One step below a node that is reached, what is skipped depends on the node there. -/
theorem isSkippedAt_down {doc m : Node} (hskip : doc.isSkippedAt skip p.steps = false) {b : Branch}
    {i : Nat} (hat : doc.at? (p.down b i).steps = some m) :
    doc.isSkippedAt skip (p.down b i).steps = skip m := by
  rw [Place.down, isSkippedAt_cons, hskip, Bool.or_false]
  rw [Place.down] at hat
  rw [hat]
  rfl

theorem filter_ascent_at {doc : Node} (hat : doc.at? p.steps = some n)
    (hskip : doc.isSkippedAt skip p.steps = skip n) :
    (n.ascent (fun _ ↦ false) p).filter (fun o ↦ !doc.isSkippedAt skip o.place.steps) =
      n.ascent skip p := by
  induction n using Node.induction generalizing p with
  | step n ih =>
    cases hn : skip n with
    | true =>
      rw [ascent_eq_gather skip, if_pos hn, List.filter_eq_nil_iff]
      intro o ho
      simp [isSkippedAt_of_isBelow (isBelow_of_mem_ascent ho) (hskip.trans hn)]
    | false =>
      have hreached := hskip.trans hn
      rw [ascent_eq_gather skip, ascent_eq_gather, if_neg Bool.false_ne_true,
        if_neg (by rw [hn]; exact Bool.false_ne_true), List.filter_append,
        filter_gather (g := ascent skip) fun b i m hm ↦ ?_]
      · simp [hreached]
      · have hat' : doc.at? (p.down b i).steps = some m := by
          rw [Place.down, at?, hat]
          exact hm
        exact ih b m (List.mem_of_getElem? hm) hat' (isSkippedAt_down hreached hat')

/-- An ascent that skips some nodes comes to those that one without does, but for all that stands at
or below the skipped ones. -/
theorem filter_ascent (doc : Node) (skip : Node → Bool) (root : Nat) :
    (doc.ascent (fun _ ↦ false) (.ofRoot root)).filter
        (fun o ↦ !doc.isSkippedAt skip o.place.steps) =
      doc.ascent skip (.ofRoot root) :=
  filter_ascent_at rfl (by simp [isSkippedAt, Place.ofRoot, at?])

end Node

end Typeset

import Typeset.Proofs.Matched
import Typeset.Proofs.Tree.PreparedTypes

/-!
# One more block in a tree

Where a block is put between others, those behind it move one step back, with all that stands below
them. The nodes above the new block hold one block more. All other nodes stay as they are, so that
the nodes of the tree are found again in the order of a visit, with the new ones in between.
-/

namespace Typeset

open Node

variable {d n n' : Node} {ns ns' ms ms' : List Node} {p q : Place} {b : Branch} {j j' : Nat}

/-- A tree gains a block that is put anywhere between the blocks that one of its nodes holds. Only the
children of a node can be blocks. -/
inductive Node.Gains (d : Node) : Node → Node → Prop
  | here {info : NodeInfo} {before after title : List Node} {tag caption : Option (List Node)} :
    info.element.kind.childContent = .blocks →
      Gains d ⟨info, before ++ after, title, tag, caption⟩
        ⟨info, before ++ d :: after, title, tag, caption⟩
  | deeper {info : NodeInfo} {n n' : Node} {before after title : List Node}
    {tag caption : Option (List Node)} : Gains d n n' →
      Gains d ⟨info, before ++ n :: after, title, tag, caption⟩
        ⟨info, before ++ n' :: after, title, tag, caption⟩

/-- The nodes of the kind may have blocks below them, right there or in items. -/
def Kind.mayHoldBlocks (k : Kind) : Prop := k.childContent = .blocks ∨ k.childContent = .items

instance (k : Kind) : Decidable k.mayHoldBlocks :=
  inferInstanceAs (Decidable (k.childContent = .blocks ∨ k.childContent = .items))

/-- A tree that is put into another one: the steps from the node that holds it back up to the root,
and its index among the children there. -/
structure Insertion where
  host : List Step
  index : Nat
  tree : Node

namespace Insertion

variable {i : Insertion}

/-! ## Places -/

/-- The index that a node below some steps has afterwards. -/
def seat (i : Insertion) (above : List Step) (b : Branch) (j : Nat) : Nat :=
  if above = i.host ∧ b = .children ∧ i.index ≤ j then j + 1 else j

/-- The steps to a node afterwards. -/
def moveSteps (i : Insertion) : List Step → List Step
  | [] => []
  | s :: above => ⟨s.branch, i.seat above s.branch s.index⟩ :: i.moveSteps above

/-- The place that a node has afterwards. -/
def move (i : Insertion) (p : Place) : Place := ⟨p.root, i.moveSteps p.steps⟩

/-- The place is that of the new tree, or below. -/
def Covers (i : Insertion) (p : Place) : Prop := ⟨.children, i.index⟩ :: i.host <:+ p.steps

theorem seat_of_ne {above : List Step} (h : above ≠ i.host ∨ b ≠ .children) :
    i.seat above b j = j := by
  rw [seat, if_neg]
  rintro ⟨habove, hb, -⟩
  exact h.elim (· habove) (· hb)

theorem move_down (p : Place) (b : Branch) (j : Nat) :
    i.move (p.down b j) = (i.move p).down b (i.seat p.steps b j) := rfl

/-- Nothing moves that is not below the host. -/
theorem moveSteps_eq_self {steps : List Step} (h : steps.length ≤ i.host.length) :
    i.moveSteps steps = steps := by
  induction steps with
  | nil => rfl
  | cons s above ih =>
    have hlt : above.length < i.host.length := h
    have hne : above ≠ i.host := fun heq ↦ by
      rw [heq] at hlt
      exact Nat.lt_irrefl _ hlt
    rw [moveSteps, ih (Nat.le_of_lt hlt), seat_of_ne (.inl hne)]

theorem seat_injective (above : List Step) (b : Branch) :
    Function.Injective (i.seat above b) := by
  intro j k h
  unfold seat at h
  split at h <;> split at h <;> simp_all <;> omega

theorem moveSteps_injective : Function.Injective i.moveSteps := by
  intro steps
  induction steps with
  | nil =>
    intro steps' h
    cases steps' with
    | nil => rfl
    | cons => cases h
  | cons s above ih =>
    intro steps' h
    cases steps' with
    | nil => cases h
    | cons s' above' =>
      obtain ⟨b, j⟩ := s
      obtain ⟨b', j'⟩ := s'
      obtain ⟨hstep, habove⟩ := List.cons.inj h
      obtain ⟨hb, hseat⟩ := Step.mk.inj hstep
      dsimp only at hb hseat
      subst hb
      obtain rfl := ih habove
      rw [seat_injective above b hseat]

/-- No two places become one. -/
theorem move_injective : Function.Injective i.move := by
  rintro ⟨root, steps⟩ ⟨root', steps'⟩ h
  obtain ⟨hroot, hsteps⟩ := Place.mk.inj h
  exact congrArg₂ Place.mk hroot (moveSteps_injective hsteps)

/-- Nothing moves to where the new tree is. -/
theorem not_covers_move (p : Place) : ¬ i.Covers (i.move p) := by
  obtain ⟨root, steps⟩ := p
  unfold Covers move
  induction steps with
  | nil => exact fun h ↦ absurd h.length_le (by simp [moveSteps])
  | cons s above ih =>
    intro h
    rcases List.suffix_cons_iff.mp h with heq | h
    · -- only a child of the host could get there, and none has got the index of the new tree
      obtain ⟨hstep, habove⟩ := List.cons.inj heq
      obtain ⟨hb, hindex⟩ := Step.mk.inj hstep
      have hself : i.moveSteps i.host = i.host := moveSteps_eq_self (Nat.le_refl _)
      have habove : above = i.host :=
        moveSteps_injective (i := i) (by rw [hself]; exact habove.symm)
      rw [← hb, seat] at hindex
      split at hindex
      · omega
      · next hnot => exact hnot ⟨habove, rfl, Nat.le_of_eq hindex⟩
    · exact ih h

/-- Anywhere but at the host a child keeps its index. -/
theorem childIndex?_move (h : q.steps ≠ i.host) :
    (i.move p).childIndex? (i.move q) = p.childIndex? q := by
  obtain ⟨root, steps⟩ := p
  cases steps with
  | nil => rfl
  | cons s above =>
    obtain ⟨b, j⟩ := s
    cases b with
    | title | tag | caption => rfl
    | children =>
      have hiff : i.moveSteps above = i.moveSteps q.steps ↔ above = q.steps :=
        moveSteps_injective.eq_iff
      simp only [Place.childIndex?, move, moveSteps, hiff]
      by_cases heq : root = q.root ∧ above = q.steps
      · rw [if_pos heq, if_pos heq, seat_of_ne (.inl (heq.2 ▸ h))]
      · rw [if_neg heq, if_neg heq]

/-! ## Trees -/

/-- What has become of a node that stood at a place: the host and the nodes above it have changed,
and no others. -/
inductive Twins (i : Insertion) : Place → Node → Node → Prop
  | same {p : Place} {n : Node} : ¬ p.steps <:+ i.host → Twins i p n n
  | host {p : Place} {info : NodeInfo} {before after title : List Node}
    {tag caption : Option (List Node)} : p.steps = i.host → before.length = i.index →
      info.element.kind.childContent = .blocks →
        Twins i p ⟨info, before ++ after, title, tag, caption⟩
          ⟨info, before ++ i.tree :: after, title, tag, caption⟩
  | above {p : Place} {info : NodeInfo} {n n' : Node} {before after title : List Node}
    {tag caption : Option (List Node)} : (p.down .children before.length).steps <:+ i.host →
      info.element.kind.mayHoldBlocks → Twins i (p.down .children before.length) n n' →
        Twins i p ⟨info, before ++ n :: after, title, tag, caption⟩
          ⟨info, before ++ n' :: after, title, tag, caption⟩

/-- What has become of the nodes of a branch from an index on. The new tree may be among them. -/
inductive TwinsIn (i : Insertion) (p : Place) (b : Branch) : Nat → Nat → List Node → List Node → Prop
  | nil {j j' : Nat} : TwinsIn i p b j j' [] []
  | cons {j j' : Nat} {n n' : Node} {ns ns' : List Node} : j' = i.seat p.steps b j →
    i.Twins (p.down b j) n n' → TwinsIn i p b (j + 1) (j' + 1) ns ns' →
      TwinsIn i p b j j' (n :: ns) (n' :: ns')
  | extra {j : Nat} {ns ns' : List Node} : p.steps = i.host → b = .children →
    TwinsIn i p b j (i.index + 1) ns ns' → TwinsIn i p b j i.index ns (i.tree :: ns')

namespace TwinsIn

/-- Nodes that stay as they are and side by side. -/
theorem same (hapart : ∀ k < ns.length, ¬ (p.down b (j + k)).steps <:+ i.host)
    (hseat : ∀ k < ns.length, i.seat p.steps b (j + k) = j' + k) : i.TwinsIn p b j j' ns ns := by
  induction ns generalizing j j' with
  | nil => exact .nil
  | cons n ns ih =>
    have hlt : ∀ {k}, k < ns.length → k + 1 < (n :: ns).length := Nat.succ_lt_succ
    refine .cons (hseat 0 (Nat.zero_lt_succ _)).symm (.same (hapart 0 (Nat.zero_lt_succ _))) ?_
    refine ih (fun k hk ↦ ?_) fun k hk ↦ ?_
    · rw [show j + 1 + k = j + (k + 1) by omega]
      exact hapart (k + 1) (hlt hk)
    · rw [show j + 1 + k = j + (k + 1) by omega, hseat (k + 1) (hlt hk)]
      omega

theorem append (h : i.TwinsIn p b j j' ns ns')
    (h' : i.TwinsIn p b (j + ns.length) (j' + ns'.length) ms ms') :
    i.TwinsIn p b j j' (ns ++ ms) (ns' ++ ms') := by
  induction h with
  | nil => exact h'
  | @cons j j' n n' ns ns' hseat htwins _ ih =>
    refine .cons hseat htwins (ih ?_)
    rwa [show j + 1 + ns.length = j + (n :: ns).length by simp; omega,
      show j' + 1 + ns'.length = j' + (n' :: ns').length by simp; omega]
  | @extra j ns ns' hp hb _ ih =>
    refine .extra hp hb (ih ?_)
    rwa [show i.index + 1 + ns'.length = i.index + (i.tree :: ns').length by simp; omega]

end TwinsIn

theorem not_down_suffix (h : ¬ p.steps <:+ i.host) (b : Branch) (j : Nat) :
    ¬ (p.down b j).steps <:+ i.host := fun hdown ↦ h ((List.suffix_cons _ _).trans hdown)

/-- Of the nodes one step below only one can be the host or above it. -/
theorem not_down_suffix_of_ne {s : Step} (h : s :: p.steps <:+ i.host) (hne : s ≠ ⟨b, j⟩) :
    ¬ (p.down b j).steps <:+ i.host := by
  intro hdown
  have heq := (List.suffix_of_suffix_length_le h hdown (Nat.le_refl _)).eq_of_length rfl
  exact hne (List.cons.inj heq).1

namespace Twins

theorem info (h : i.Twins p n n') : n'.info = n.info := by cases h <;> rfl

theorem element (h : i.Twins p n n') : n'.element = n.element := by
  rw [Node.element, Node.element, h.info]

theorem kind (h : i.Twins p n n') : n'.kind = n.kind := by rw [Node.kind, Node.kind, h.element]

/-- Only the children of a node can become more. -/
theorem branch_eq (h : i.Twins p n n') (hb : b ≠ .children) : n'.branch b = n.branch b := by
  cases h <;> cases b <;> first | rfl | exact absurd rfl hb

theorem hasCaption (h : i.Twins p n n') : n'.hasCaption = n.hasCaption := by
  cases h <;> rfl

/-- A node that may hold no blocks stays as it is. -/
theorem eq_of_not_mayHoldBlocks (h : i.Twins p n n') (hkind : ¬ n.kind.mayHoldBlocks) :
    n' = n := by
  cases h with
  | same => rfl
  | host _ _ hcontent => exact absurd (.inl hcontent) hkind
  | above _ hholds => exact absurd hholds hkind

/-- A node that may hold no blocks is not the host. -/
theorem steps_ne_host (h : i.Twins p n n') (hkind : ¬ n.kind.mayHoldBlocks) :
    p.steps ≠ i.host := by
  cases h with
  | same hapart => exact fun heq ↦ hapart (heq ▸ List.suffix_rfl)
  | host _ _ hcontent => exact absurd (.inl hcontent) hkind
  | above _ hholds => exact absurd hholds hkind

/-- What stands below twins are twins, and the new tree. -/
theorem branch (h : i.Twins p n n') (b : Branch) :
    i.TwinsIn p b 0 0 (n.branch b) (n'.branch b) := by
  cases h with
  | same hapart =>
    have hne : p.steps ≠ i.host := fun heq ↦ hapart (heq ▸ List.suffix_rfl)
    exact .same (fun k _ ↦ not_down_suffix hapart b _) fun k _ ↦ seat_of_ne (.inl hne)
  | @host _ info before after title tag caption hp hlength _ =>
    have hapart : ∀ (b : Branch) (k : Nat), ¬ (p.down b k).steps <:+ i.host := by
      intro b k hdown
      have hlength := hdown.length_le
      rw [Place.down, hp, List.length_cons] at hlength
      omega
    by_cases hb : b = .children
    · subst hb
      have hbefore : i.TwinsIn p .children 0 0 before before := by
        refine .same (fun k _ ↦ hapart _ _) fun k hk ↦ ?_
        rw [seat, if_neg]
        omega
      refine hbefore.append ?_
      rw [Nat.zero_add, hlength]
      refine .extra hp rfl (.same (fun k _ ↦ hapart _ _) fun k _ ↦ ?_)
      rw [seat, if_pos ⟨hp, rfl, Nat.le_add_right _ _⟩]
      omega
    · have hsame : ∀ ns, i.TwinsIn p b 0 0 ns ns := fun ns ↦
        .same (fun k _ ↦ hapart b _) fun k _ ↦ seat_of_ne (.inr hb)
      cases b with
      | children => exact absurd rfl hb
      | title | tag | caption => exact hsame _
  | @above _ info m m' before after title tag caption hsuffix _ htwins =>
    have hseat : ∀ (b : Branch) (k : Nat), i.seat p.steps b k = k := by
      refine fun b k ↦ seat_of_ne (.inl fun heq ↦ ?_)
      have hlength := hsuffix.length_le
      rw [Place.down, heq, List.length_cons] at hlength
      omega
    by_cases hb : b = .children
    · subst hb
      have hbefore : i.TwinsIn p .children 0 0 before before := by
        refine .same (fun k hk ↦ not_down_suffix_of_ne hsuffix ?_) fun k _ ↦ hseat _ _
        intro heq
        have := (Step.mk.inj heq).2
        omega
      refine hbefore.append (.cons (hseat _ _).symm (by rwa [Nat.zero_add]) ?_)
      refine .same (fun k hk ↦ not_down_suffix_of_ne hsuffix ?_) fun k _ ↦ hseat _ _
      intro heq
      have := (Step.mk.inj heq).2
      omega
    · have hsame : ∀ ns, i.TwinsIn p b 0 0 ns ns := fun ns ↦
        .same (fun k _ ↦ not_down_suffix_of_ne hsuffix fun heq ↦ hb (Step.mk.inj heq).1.symm)
          fun k _ ↦ hseat b _
      cases b with
      | children => exact absurd rfl hb
      | title | tag | caption => exact hsame _

end Twins

/-! ## Visits -/

/-- The second occurrence is what has become of the first one. -/
structure Pairs (i : Insertion) (o o' : Occurrence) : Prop where
  place : o'.place = i.move o.place
  twins : i.Twins o.place o.node o'.node

/-- The occurrence is of a node of the new tree. -/
def IsNew (i : Insertion) (o : Occurrence) : Prop := o.node ∈ i.tree.visit

theorem TwinsIn.matched (h : i.TwinsIn p b j j' ns ns')
    (hns : ∀ m ∈ ns, ∀ q m', i.Twins q m m' →
      Matched i.Pairs i.IsNew (m.occurrences q) (m'.occurrences (i.move q))) :
    Matched i.Pairs i.IsNew (occurrencesIn p b j ns) (occurrencesIn (i.move p) b j' ns') := by
  induction h with
  | nil => exact .nil
  | @cons j j' n n' ns ns' hseat htwins _ ih =>
    rw [occurrencesIn, occurrencesIn, hseat, ← move_down]
    refine .append (hns n List.mem_cons_self _ n' htwins) ?_
    rw [← hseat]
    exact ih fun m hm ↦ hns m (.tail _ hm)
  | extra _ _ _ ih =>
    rw [occurrencesIn.eq_2 (i.move p)]
    have hnew : ∀ q, Matched i.Pairs i.IsNew [] (i.tree.occurrences q) := fun q ↦
      .of_extra fun o ho ↦ by
        rw [IsNew, ← map_node_occurrences q]
        exact List.mem_map_of_mem ho
    exact (hnew _).append (ih hns)

/-- The nodes of the tree are found again in the order of a visit, with those of the new tree in
between. -/
theorem Twins.matched (h : i.Twins p n n') :
    Matched i.Pairs i.IsNew (n.occurrences p) (n'.occurrences (i.move p)) := by
  induction n using Node.induction generalizing p n' with
  | step n ih =>
    have hbelow : ∀ b, Matched i.Pairs i.IsNew (occurrencesIn p b 0 (n.branch b))
        (occurrencesIn (i.move p) b 0 (n'.branch b)) :=
      fun b ↦ (h.branch b).matched fun m hm q m' ↦ ih b m hm
    rw [occurrences_eq, occurrences_eq]
    refine .both ⟨rfl, h⟩ ?_
    exact (((hbelow .children).append (hbelow .title)).append (hbelow .tag)).append
      (hbelow .caption)

end Insertion

/-! ## Trees that gain a block -/

namespace Node.Gains

theorem info (h : d.Gains n n') : n'.info = n.info := by cases h <;> rfl

theorem kind (h : d.Gains n n') : n'.kind = n.kind := by rw [Node.kind, Node.kind, element, h.info]

/-- What gains a block may hold blocks. -/
theorem mayHoldBlocks (h : d.Gains n n') (hn : n.isWellTyped = true) : n.kind.mayHoldBlocks := by
  induction h with
  | here hcontent => exact .inl hcontent
  | @deeper info n n' before after title tag caption _ ih =>
    have hmem : n ∈ before ++ n :: after := by simp
    obtain ⟨hadmits, htyped⟩ := isWellTyped_of_mem_branch (b := .children) hn hmem
    have hholds := ih htyped
    rw [Kind.content] at hadmits
    show info.element.kind.mayHoldBlocks
    have hadmits : info.element.kind.childContent.admits n.kind = true := hadmits
    unfold Kind.mayHoldBlocks at hholds ⊢
    cases hc : info.element.kind.childContent with
    | blocks => exact .inl rfl
    | items => exact .inr rfl
    | nothing => simp [hc, Content.admits] at hadmits
    | rows | cells =>
      rw [hc, Content.admits, beq_iff_eq] at hadmits
      simp [hadmits, Kind.childContent] at hholds
    | inlines =>
      rw [hc] at hadmits
      cases hk : n.kind <;> simp_all [Content.admits, Kind.isBlock, Kind.childContent]

/-- A well-typed tree that has gained a block is the tree with the block inserted somewhere below. -/
theorem exists_twins (h : d.Gains n n') (hn : n.isWellTyped = true) (p : Place) :
    ∃ i : Insertion, i.tree = d ∧ p.steps <:+ i.host ∧ i.Twins p n n' := by
  induction h generalizing p with
  | @here info before after title tag caption hcontent =>
    exact ⟨⟨p.steps, before.length, d⟩, rfl, List.suffix_rfl, .host rfl rfl hcontent⟩
  | @deeper info n n' before after title tag caption hbelow ih =>
    have hmem : n ∈ before ++ n :: after := by simp
    have htyped := (isWellTyped_of_mem_branch (b := .children) hn hmem).2
    obtain ⟨i, htree, hsuffix, htwins⟩ := ih htyped (p.down .children before.length)
    have hgains : d.Gains ⟨info, before ++ n :: after, title, tag, caption⟩
        ⟨info, before ++ n' :: after, title, tag, caption⟩ := .deeper hbelow
    refine ⟨i, htree, (List.suffix_cons _ _).trans hsuffix, .above hsuffix ?_ htwins⟩
    exact hgains.mayHoldBlocks hn

/-- Other children that may stand in a well-typed tree leave it well-typed. -/
theorem isWellTyped_of_children {info : NodeInfo} {title : List Node}
    {tag caption : Option (List Node)} (h : isWellTyped ⟨info, ns, title, tag, caption⟩ = true)
    (hns' : ∀ m ∈ ns', info.element.kind.childContent.admits m.kind = true ∧
      m.isWellTyped = true) : isWellTyped ⟨info, ns', title, tag, caption⟩ = true := by
  obtain ⟨hinfo, hbelow, htag, hcaption⟩ := (isWellTyped_iff _).mp h
  refine (isWellTyped_iff _).mpr ⟨hinfo, fun b m hm ↦ ?_, htag, hcaption⟩
  cases b with
  | children => exact hns' m hm
  | title => exact hbelow .title m hm
  | tag => exact hbelow .tag m hm
  | caption => exact hbelow .caption m hm

/-- A well-typed tree that gains a well-typed block is well-typed. -/
theorem isWellTyped (h : d.Gains n n') (hn : n.isWellTyped = true) (hd : d.isWellTyped = true)
    (hkind : Content.blocks.admits d.kind = true) : n'.isWellTyped = true := by
  induction h with
  | @here info before after title tag caption hcontent =>
    have hbelow := fun m ↦ isWellTyped_of_mem_branch (b := .children) (m := m) hn
    refine isWellTyped_of_children hn fun m hm ↦ ?_
    rcases List.mem_append.mp hm with hm | hm
    · exact hbelow m (List.mem_append_left _ hm)
    · rcases List.mem_cons.mp hm with rfl | hm
      · exact ⟨hcontent ▸ hkind, hd⟩
      · exact hbelow m (List.mem_append_right _ hm)
  | @deeper info n n' before after title tag caption hgains ih =>
    have hbelow := fun m ↦ isWellTyped_of_mem_branch (b := .children) (m := m) hn
    refine isWellTyped_of_children hn fun m hm ↦ ?_
    rcases List.mem_append.mp hm with hm | hm
    · exact hbelow m (List.mem_append_left _ hm)
    · rcases List.mem_cons.mp hm with rfl | hm
      · obtain ⟨hadmits, htyped⟩ := hbelow n (by simp)
        exact ⟨hgains.kind ▸ hadmits, ih htyped⟩
      · exact hbelow m (List.mem_append_right _ (.tail _ hm))

end Node.Gains

/-! ## Preparing a document that gains a block -/

namespace MathRun

/-- Where no child opens a run, the children of what wrapping all runs leaves are what it leaves of
the children, whatever else they are. -/
theorem Leaves.of_children {info : NodeInfo} {title : List Node} {tag caption : Option (List Node)}
    {t : Node} (h : Leaves ⟨info, ns, title, tag, caption⟩ t)
    (hns : ∀ n ∈ ns, n.isProper = true ∧ opens n = false)
    (hrun : info.element.kind ≠ .mathRun) :
    ∃ es title' tag' caption', t = ⟨info, es, title', tag', caption'⟩ ∧
      List.Forall₂ Leaves ns es ∧
        ∀ ns' es', (∀ n ∈ ns', n.isProper = true ∧ opens n = false) → List.Forall₂ Leaves ns' es' →
          Leaves ⟨info, ns', title, tag, caption⟩ ⟨info, es', title', tag', caption'⟩ := by
  have hnotRun : ∀ ns, isRun ⟨info, ns, title, tag, caption⟩ = false :=
    fun ns ↦ beq_eq_false_iff_ne.mpr hrun
  have hmerge : ∀ {ns es : List Node}, (∀ n ∈ ns, n.isProper = true ∧ opens n = false) →
      List.Forall₂ Leaves ns es → merge es = es := by
    intro ns es hns hall
    refine merge_eq_self fun e he ↦ Bool.eq_false_iff.mpr fun hopens ↦ ?_
    obtain ⟨n, hn, hn'⟩ := (forall_opens_congr hall).mp ⟨e, he, hopens⟩
    rw [(hns n hn).2] at hn'
    cases hn'
  rw [Leaves, edit?_of_not_isRun (hnotRun ns)] at h
  obtain ⟨_, hgate₁, h⟩ := exists_of_bind_eq_ok h
  obtain ⟨children, hchildren, h⟩ := exists_of_bind_eq_ok h
  obtain ⟨_, hgate₂, h⟩ := exists_of_bind_eq_ok h
  obtain ⟨title', htitle, h⟩ := exists_of_bind_eq_ok h
  obtain ⟨_, hgate₃, h⟩ := exists_of_bind_eq_ok h
  obtain ⟨tag', htag, h⟩ := exists_of_bind_eq_ok h
  obtain ⟨_, hgate₄, h⟩ := exists_of_bind_eq_ok h
  obtain ⟨caption', hcaption, h⟩ := exists_of_bind_eq_ok h
  cases h
  have hall := forall₂_of_editAll? (fun n hn ↦ (hns n hn).1) hchildren
  refine ⟨children, merge title', tag'.map merge, caption'.map merge, ?_, hall, ?_⟩
  · rw [wrap, hmerge hns hall]
  · intro ns' es' hns' hall'
    have hgates : ∀ b, editGate b ⟨info, ns', title, tag, caption⟩ =
        editGate b ⟨info, ns, title, tag, caption⟩ := fun _ ↦ rfl
    rw [Leaves, edit?_of_not_isRun (hnotRun ns')]
    simp only [hgates, hgate₁, hgate₂, hgate₃, hgate₄, htitle, htag, hcaption,
      editAll?_of_forall₂ (fun n hn ↦ (hns' n hn).1) hall']
    show Except.ok (some (wrap ⟨info, es', title', tag', caption'⟩)) = _
    rw [wrap, hmerge hns' hall']

/-- The children of a node that may hold blocks open no runs. -/
theorem opens_eq_false_of_mayHoldBlocks (hn : n.isWellTyped = true) (hkind : n.kind.mayHoldBlocks)
    {m : Node} (hm : m ∈ n.children) : m.isProper = true ∧ opens m = false := by
  obtain ⟨hadmits, htyped⟩ := isWellTyped_of_mem_branch (b := .children) hn hm
  refine ⟨isProper_of_isWellTyped htyped, Bool.eq_false_iff.mpr fun hopens ↦ ?_⟩
  have hinlines : n.kind.childContent = .inlines := eq_inlines_of_opens hopens hadmits
  rw [Kind.mayHoldBlocks, hinlines] at hkind
  rcases hkind with h | h <;> cases h

theorem ne_mathRun_of_mayHoldBlocks {k : Kind} (h : k.mayHoldBlocks) : k ≠ .mathRun := by
  rintro rfl
  rcases h with h | h <;> cases h

end MathRun

namespace Node.Gains

open MathRun

/-- Wrapping all runs of a tree that has gained a block leaves what it leaves of the tree, with what
it leaves of the block. -/
theorem leaves (h : d.Gains n n') (hn : n.isWellTyped = true) (hn' : n'.isWellTyped = true)
    {t e : Node} (ht : Leaves n t) (he : Leaves d e) : ∃ t', Leaves n' t' ∧ e.Gains t t' := by
  induction h generalizing t with
  | @here info before after title tag caption hcontent =>
    have hkind : info.element.kind.mayHoldBlocks := .inl hcontent
    obtain ⟨es, title', tag', caption', rfl, hall, hleaves⟩ := ht.of_children
      (fun m hm ↦ opens_eq_false_of_mayHoldBlocks hn hkind hm) (ne_mathRun_of_mayHoldBlocks hkind)
    obtain ⟨fs, gs, rfl, hbefore, hafter⟩ := exists_append_of_forall₂ hall
    refine ⟨_, hleaves (before ++ d :: after) (fs ++ e :: gs) ?_ ?_, .here hcontent⟩
    · exact fun m hm ↦ opens_eq_false_of_mayHoldBlocks hn' hkind hm
    · exact List.rel_append hbefore (.cons he hafter)
  | @deeper info n n' before after title tag caption hgains ih =>
    have hkind : info.element.kind.mayHoldBlocks :=
      (Gains.deeper (d := d) hgains).mayHoldBlocks hn
    obtain ⟨es, title', tag', caption', rfl, hall, hleaves⟩ := ht.of_children
      (fun m hm ↦ opens_eq_false_of_mayHoldBlocks hn hkind hm) (ne_mathRun_of_mayHoldBlocks hkind)
    obtain ⟨fs, gs, rfl, hbefore, hafter⟩ := exists_append_of_forall₂ hall
    cases hafter with
    | @cons _ t _ gs hleaf hafter =>
      obtain ⟨t', ht', hgains'⟩ := ih
        (isWellTyped_of_mem_branch (b := .children) (m := n) hn (by simp)).2
        (isWellTyped_of_mem_branch (b := .children) (m := n') hn' (by simp)).2 hleaf
      refine ⟨_, hleaves (before ++ n' :: after) (fs ++ t' :: gs) ?_ ?_, .deeper hgains'⟩
      · exact fun m hm ↦ opens_eq_false_of_mayHoldBlocks hn' hkind hm
      · exact List.rel_append hbefore (.cons ht' hafter)

theorem withElement (h : d.Gains n n') {e : Element} (he : e.kind = n.kind) :
    d.Gains (n.withElement e) (n'.withElement e) := by
  cases h with
  | @here info before after title tag caption hcontent =>
    refine .here ?_
    rw [he]
    exact hcontent
  | deeper hgains => exact .deeper hgains

/-- A document whose metadata are cleaned still has the block that it has gained. -/
theorem clean? (h : d.Gains n n') {t : Node} (ht : Metadata.clean? n = .ok t) :
    ∃ t', Metadata.clean? n' = .ok t' ∧ d.Gains t t' := by
  have helement : n'.element = n.element := by rw [element, element, h.info]
  by_cases hn : ∃ properties, n.element = .document properties
  · obtain ⟨properties, he⟩ := hn
    rw [Metadata.clean?_eq he] at ht
    rw [Metadata.clean?_eq (helement.trans he)]
    split at ht
    · cases ht
    · cases ht
      refine ⟨_, rfl, h.withElement ?_⟩
      rw [Node.kind, he]
      rfl
  · have hne : ∀ properties, n.element ≠ .document properties := fun ps he ↦ hn ⟨ps, he⟩
    rw [Metadata.clean?_eq_ok hne] at ht
    rw [Metadata.clean?_eq_ok (helement ▸ hne)]
    exact ⟨n', rfl, Except.ok.inj ht ▸ h⟩

/-- A document that has gained a block is prepared like the document, with the runs in the block
wrapped. -/
theorem prepare? (h : d.Gains n n') (hn : n.isWellTyped = true) (hn' : n'.isWellTyped = true)
    {t e : Node} (ht : Typeset.prepare? n = .ok t) (he : Leaves d e) :
    ∃ t', Typeset.prepare? n' = .ok t' ∧ e.Gains t t' := by
  obtain ⟨merged, hmerged, hclean⟩ := exists_of_bind_eq_ok ht
  obtain ⟨merged', hleaves, hgains⟩ := h.leaves hn hn' (edit?_of_mergeTree? hmerged) he
  obtain ⟨t', ht', hgains'⟩ := hgains.clean? hclean
  refine ⟨t', ?_, hgains'⟩
  rw [Typeset.prepare?, mergeTree?_eq, show edit? n' = _ from hleaves]
  exact ht'

end Node.Gains

end Typeset

import Typeset.Proofs.Matched
import Typeset.Proofs.Tree.Merged

/-!
# Where nodes stand once math runs are wrapped

The members of a run go one level down, and what follows the run moves closer to the front. Where a
node goes can be read off the tree as it was. In the order of a visit, the nodes of the old tree are
found in the new one without any change, and between them the runs that are new.
-/

namespace Typeset

open Node

/-- The place that some steps lead to, the first one taken first. -/
def Place.along (p : Place) (steps : List Step) : Place := ⟨p.root, steps.reverse ++ p.steps⟩

namespace Place

@[simp] theorem along_nil (p : Place) : p.along [] = p := rfl

theorem along_cons (p : Place) (s : Step) (steps : List Step) :
    p.along (s :: steps) = (p.down s.branch s.index).along steps := by
  simp [along, down]

theorem along_append (p : Place) (steps more : List Step) :
    p.along (steps ++ more) = (p.along steps).along more := by
  simp [along]

end Place

namespace MathRun

/-! ## Steps in the wrapped tree -/

mutual

/-- The steps to the nodes of a sequence once its runs are wrapped, the first step first. The first
node of the sequence or its run is the `j`-th of the branch. -/
def seats (b : Branch) (j : Nat) : List Node → List (List Step)
  | [] => []
  | n :: ns =>
    if opens n then [⟨b, j⟩, ⟨.children, 0⟩] :: seatsAfter b j n [] ns
    else [⟨b, j⟩] :: seats b (j + 1) ns
termination_by structural ns => ns

/-- The same after the members of the run that is the `j`-th of the branch, the last one first. -/
def seatsAfter (b : Branch) (j : Nat) (last : Node) (earlier : List Node) :
    List Node → List (List Step)
  | [] => []
  | n :: ns =>
    if hasNoBlank last && joins n (last :: earlier) then
      [⟨b, j⟩, ⟨.children, earlier.length + 1⟩] :: seatsAfter b j n (last :: earlier) ns
    else if opens n then [⟨b, j + 1⟩, ⟨.children, 0⟩] :: seatsAfter b (j + 1) n [] ns
    else [⟨b, j + 1⟩] :: seats b (j + 1 + 1) ns
termination_by structural ns => ns

end

/-- The steps that lead to a node of a tree once all runs are wrapped, given the steps that led to
it before. Runs that were there already stay as they are. -/
def newSteps (n : Node) : List Step → List Step
  | [] => []
  | s :: steps =>
    if isRun n then s :: steps
    else
      match n.step? s, (seats s.branch 0 (n.branch s.branch))[s.index]? with
      | some m, some seat => seat ++ newSteps m steps
      | _, _ => s :: steps

/-- The place that a node of a document has once all runs are wrapped. -/
def newPlace (doc : Node) (p : Place) : Place :=
  (Place.ofRoot p.root).along (newSteps doc p.steps.reverse)

/-! ## Moves -/

/-- The node has moved from steps to other ones, and reads like it did. -/
def Moves (ρ : List Step → List Step) (p p' : Place) (o o' : Occurrence) : Prop :=
  ∃ steps, o.place = p.along steps ∧ o'.place = p'.along (ρ steps) ∧ o.node.ReadsLike o'.node

/-- The node has moved with one of the trees of a sequence, each of which has got a new seat. -/
def MovesIn (ρ : Node → List Step → List Step) (p p' : Place) (b : Branch) (i : Nat)
    (ns : List Node) (seats : List (List Step)) (o o' : Occurrence) : Prop :=
  ∃ k m seat, ns[k]? = some m ∧ seats[k]? = some seat ∧
    Moves (ρ m) (p.down b (i + k)) (p'.along seat) o o'

/-- A math run, which may be new. -/
def IsRunAt (o : Occurrence) : Prop := o.node.kind = .mathRun

/-- All nodes of a tree have moved together, and read like they did. -/
structure Moved (ρ : Node → List Step → List Step) (n n' : Node) : Prop where
  reads : n.ReadsLike n'
  below : ∀ p p', Matched (Moves (ρ n) p p') IsRunAt (n.occurrences p).tail
    (n'.occurrences p').tail

variable {ρ : Node → List Step → List Step} {n n' : Node} {ns es : List Node} {p p' : Place}
  {b : Branch} {i j : Nat}

theorem tail_occurrences (p : Place) (n : Node) :
    (n.occurrences p).tail = occurrencesIn p .children 0 n.children ++
      occurrencesIn p .title 0 n.title ++ occurrencesIn p .tag 0 (n.tag.getD []) ++
      occurrencesIn p .caption 0 (n.caption.getD []) := by
  rw [occurrences_eq, List.tail_cons]

namespace Moved

theorem occurrences (h : Moved ρ n n') (hρ : ρ n [] = []) (p p' : Place) :
    Matched (Moves (ρ n) p p') IsRunAt (n.occurrences p) (n'.occurrences p') := by
  have hbelow := h.below p p'
  rw [occurrences_eq] at hbelow ⊢
  rw [occurrences_eq p' n'] at hbelow ⊢
  refine .both ⟨[], rfl, ?_, h.reads⟩ hbelow
  rw [hρ, Place.along_nil]

theorem withoutBlank (h : Moved ρ n n') (hn' : n'.isProper = true) :
    Moved ρ n n'.withoutBlank where
  reads := h.reads.withoutBlank hn'
  below p p' := by
    rw [tail_occurrences p' n'.withoutBlank]
    have hbelow := h.below p p'
    rw [tail_occurrences p' n'] at hbelow
    exact hbelow

end Moved

/-! ## Sequences -/

theorem MovesIn.cons {seat : List Step} {sts : List (List Step)} {os os' : List Occurrence}
    (hfirst : Matched (Moves (ρ n) (p.down b i) (p'.along seat)) IsRunAt
      (n.occurrences (p.down b i)) os)
    (hrest : Matched (MovesIn ρ p p' b (i + 1) ns sts) IsRunAt (occurrencesIn p b (i + 1) ns) os') :
    Matched (MovesIn ρ p p' b i (n :: ns) (seat :: sts)) IsRunAt (occurrencesIn p b i (n :: ns))
      (os ++ os') := by
  rw [occurrencesIn]
  refine .append (hfirst.mono fun o o' h ↦ ⟨0, n, seat, rfl, rfl, h⟩)
    (hrest.mono fun o o' ⟨k, m, seat', hm, hseat, h⟩ ↦ ⟨k + 1, m, seat', hm, hseat, ?_⟩)
  rw [show i + (k + 1) = i + 1 + k by omega]
  exact h

theorem occurrencesIn_append (p : Place) (b : Branch) (i : Nat) (ms ns : List Node) :
    occurrencesIn p b i (ms ++ ns) =
      occurrencesIn p b i ms ++ occurrencesIn p b (i + ms.length) ns := by
  induction ms generalizing i with
  | nil => rfl
  | cons m ms ih =>
    rw [List.cons_append, occurrencesIn, occurrencesIn, ih, List.append_assoc, List.length_cons,
      show i + 1 + ms.length = i + (ms.length + 1) by omega]

theorem MovesIn.append {ms : List Node} {sts sts' : List (List Step)} {os os' : List Occurrence}
    (hlength : sts.length = ms.length)
    (hfirst : Matched (MovesIn ρ p p' b i ms sts) IsRunAt (occurrencesIn p b i ms) os)
    (hrest : Matched (MovesIn ρ p p' b (i + ms.length) ns sts') IsRunAt
      (occurrencesIn p b (i + ms.length) ns) os') :
    Matched (MovesIn ρ p p' b i (ms ++ ns) (sts ++ sts')) IsRunAt
      (occurrencesIn p b i (ms ++ ns)) (os ++ os') := by
  rw [occurrencesIn_append]
  refine .append (hfirst.mono fun o o' h ↦ ?_) (hrest.mono fun o o' h ↦ ?_)
  · obtain ⟨k, m, seat, hm, hseat, h⟩ := h
    refine ⟨k, m, seat, ?_, ?_, h⟩
    · rwa [List.getElem?_append_left (List.getElem?_eq_some_iff.mp hm).1]
    · rwa [List.getElem?_append_left (List.getElem?_eq_some_iff.mp hseat).1]
  · obtain ⟨k, m, seat, hm, hseat, h⟩ := h
    refine ⟨ms.length + k, m, seat, ?_, ?_, ?_⟩
    · rwa [List.getElem?_append_right (by omega), Nat.add_sub_cancel_left]
    · rwa [List.getElem?_append_right (by omega), hlength, Nat.add_sub_cancel_left]
    · rwa [← Nat.add_assoc]

/-- The seats of nodes side by side. -/
def seatsFrom (before : List Step) (b : Branch) (j length : Nat) : List (List Step) :=
  (List.range' j length).map fun k ↦ before ++ [⟨b, k⟩]

/-- A node that has moved holds what it did, but for the space after it. -/
structure Member (ρ : Node → List Step → List Step) (n n' : Node) : Prop where
  info : n'.info = n.info
  isProper : n'.isProper = true
  moved : Moved ρ n n'

section

variable (hρ : ∀ n, ρ n [] = [])

include hρ

/-- Nodes that stay side by side. -/
theorem matched_side_by_side (h : List.Forall₂ (Moved ρ) ns es) (before : List Step)
    (b' : Branch) :
    Matched (MovesIn ρ p p' b i ns (seatsFrom before b' j ns.length)) IsRunAt
      (occurrencesIn p b i ns) (occurrencesIn (p'.along before) b' j es) := by
  induction h generalizing i j with
  | nil => exact .nil
  | @cons n e ns es hmoved _ ih =>
    have hseat : p'.along (before ++ [⟨b', j⟩]) = (p'.along before).down b' j := by
      rw [Place.along_append, Place.along_cons, Place.along_nil]
    rw [occurrencesIn.eq_2 (p'.along before)]
    refine MovesIn.cons ?_ ih
    rw [hseat]
    exact hmoved.occurrences (hρ n) _ _

/-- The members of a run go below it. -/
theorem matched_close {last last' : Node} {earlier earlier' : List Node}
    (hlast : Member ρ last last') (hearlier : List.Forall₂ (Member ρ) earlier earlier') :
    Matched (MovesIn ρ p p' b i (earlier.reverse ++ [last])
        (seatsFrom [⟨b, j⟩] .children 0 (earlier.length + 1))) IsRunAt
      (occurrencesIn p b i (earlier.reverse ++ [last]))
      ((close last' earlier').occurrences (p'.down b j)) := by
  have hmembers : List.Forall₂ (Moved ρ) (earlier.reverse ++ [last])
      (earlier'.reverse ++ [last'.withoutBlank]) := by
    refine List.rel_append (List.rel_reverse ?_) (.cons ?_ .nil)
    · exact hearlier.imp fun _ _ h ↦ h.moved
    · exact hlast.moved.withoutBlank hlast.isProper
  have hmatched : Matched _ _ (occurrencesIn p b i _) (occurrencesIn (p'.along _) _ 0 _) :=
    matched_side_by_side hρ hmembers [⟨b, j⟩] .children
  rw [List.length_append, List.length_reverse, List.length_singleton] at hmatched
  rw [occurrences_eq]
  refine .extra rfl ?_
  simpa [close, occurrencesIn, Place.along_cons] using hmatched

omit hρ in
theorem hasNoBlank_congr {n n' : Node} (h : n'.info = n.info) : hasNoBlank n' = hasNoBlank n := by
  rw [hasNoBlank, hasNoBlank, loose?, loose?, postBlank, postBlank, h]

omit hρ in
theorem joins_congr {n n' : Node} {run run' : List Node} (h : n'.info = n.info)
    (hrun : List.Forall₂ (Member ρ) run run') : joins n' run' = joins n run := by
  have hany : (run'.any fun member ↦ member.kind == n'.kind) =
      run.any fun member ↦ member.kind == n.kind := by
    induction hrun with
    | nil => rfl
    | cons hmember _ ih =>
      rw [List.any_cons, List.any_cons, ih, kind, kind, kind, kind, element, element, element,
        element, hmember.info, h]
  rw [joins, joins, opens_congr h, isScript, isScript, hany, kind, kind, element, element, h]

omit hρ in
theorem seatsFrom_succ (before : List Step) (b : Branch) (j length : Nat) :
    seatsFrom before b j (length + 1) =
      seatsFrom before b j length ++ [before ++ [⟨b, j + length⟩]] := by
  rw [seatsFrom, List.range'_1_concat, List.map_append]
  rfl

/-- The nodes of a sequence have moved to their seats when its runs are wrapped. -/
theorem matched_merge (h : List.Forall₂ (Member ρ) ns es) :
    (∀ p p' b i j, Matched (MovesIn ρ p p' b i ns (seats b j ns)) IsRunAt
      (occurrencesIn p b i ns) (occurrencesIn p' b j (merge es))) ∧
    ∀ p p' b i j last last' earlier earlier', Member ρ last last' →
      List.Forall₂ (Member ρ) earlier earlier' →
        Matched (MovesIn ρ p p' b i (earlier.reverse ++ last :: ns)
            (seatsFrom [⟨b, j⟩] .children 0 (earlier.length + 1) ++
              seatsAfter b j last earlier ns)) IsRunAt
          (occurrencesIn p b i (earlier.reverse ++ last :: ns))
          (occurrencesIn p' b j (extend last' earlier' es)) := by
  induction h with
  | nil =>
    refine ⟨fun p p' b i j ↦ .nil, fun p p' b i j last last' earlier earlier' hlast hearlier ↦ ?_⟩
    rw [extend, occurrencesIn, occurrencesIn, seatsAfter, List.append_nil, List.append_nil]
    exact matched_close hρ hlast hearlier
  | @cons n e ns es hn _ ih =>
    have hmerge : ∀ p p' b i j, Matched (MovesIn ρ p p' b i (n :: ns) (seats b j (n :: ns))) IsRunAt
        (occurrencesIn p b i (n :: ns)) (occurrencesIn p' b j (merge (e :: es))) := by
      intro p p' b i j
      rw [seats, merge, opens_congr hn.info]
      split
      · exact ih.2 p p' b i j n e [] [] hn .nil
      · rw [occurrencesIn.eq_2 p' b j e]
        refine MovesIn.cons ?_ (ih.1 p p' b (i + 1) (j + 1))
        rw [Place.along_cons, Place.along_nil]
        exact hn.moved.occurrences (hρ n) _ _
    refine ⟨hmerge, fun p p' b i j last last' earlier earlier' hlast hearlier ↦ ?_⟩
    have hrun : List.Forall₂ (Member ρ) (last :: earlier) (last' :: earlier') :=
      .cons hlast hearlier
    rw [extend, seatsAfter, hasNoBlank_congr hlast.info, joins_congr hn.info hrun]
    split
    · -- the run goes on
      have hmatched := ih.2 p p' b i j n e _ _ hn hrun
      rw [List.length_cons, seatsFrom_succ, List.reverse_cons, List.append_assoc,
        List.append_assoc, Nat.zero_add] at hmatched
      exact hmatched
    · -- the run is closed, and the rest is wrapped as if it stood alone
      have hrest := hmerge p p' b (i + (earlier.reverse ++ [last]).length) (j + 1)
      have hlength : (seatsFrom [⟨b, j⟩] .children 0 (earlier.length + 1)).length =
          (earlier.reverse ++ [last]).length := by
        simp [seatsFrom]
      have hmatched := MovesIn.append hlength (matched_close hρ hlast hearlier) hrest
      rw [List.append_assoc, List.singleton_append] at hmatched
      exact hmatched

end

/-! ## Trees -/

/-- A tree has moved with the sequences below its root. -/
theorem Moved.of_branches (hreads : n.ReadsLike n')
    (h : ∀ p p' b, ∃ sts, Matched (MovesIn ρ p p' b 0 (n.branch b) sts) IsRunAt
        (occurrencesIn p b 0 (n.branch b)) (occurrencesIn p' b 0 (n'.branch b)) ∧
      ∀ k m seat steps, (n.branch b)[k]? = some m → sts[k]? = some seat →
        ρ n (⟨b, k⟩ :: steps) = seat ++ ρ m steps) : Moved ρ n n' where
  reads := hreads
  below p p' := by
    have hbranch : ∀ b, Matched (Moves (ρ n) p p') IsRunAt (occurrencesIn p b 0 (n.branch b))
        (occurrencesIn p' b 0 (n'.branch b)) := by
      intro b
      obtain ⟨sts, hmatched, hsteps⟩ := h p p' b
      refine hmatched.mono ?_
      rintro o o' ⟨k, m, seat, hm, hseat, steps, ho, ho', hreads⟩
      refine ⟨⟨b, k⟩ :: steps, ?_, ?_, hreads⟩
      · rw [Place.along_cons, ho, Nat.zero_add]
      · rw [hsteps k m seat steps hm hseat, Place.along_append, ho']
    rw [tail_occurrences, tail_occurrences]
    exact (((hbranch .children).append (hbranch .title)).append (hbranch .tag)).append
      (hbranch .caption)

theorem getElem?_seatsFrom {before seat : List Step} {b : Branch} {j length k : Nat}
    (h : (seatsFrom before b j length)[k]? = some seat) : seat = before ++ [⟨b, j + k⟩] := by
  rw [seatsFrom, List.getElem?_map] at h
  obtain ⟨i, hi, rfl⟩ := Option.map_eq_some_iff.mp h
  obtain ⟨hk, rfl⟩ := List.getElem?_eq_some_iff.mp hi
  rw [List.getElem_range', Nat.one_mul]

/-- A tree that is put somewhere else moves as a whole. -/
theorem moved_self (n : Node) : Moved (fun _ steps ↦ steps) n n := by
  induction n using Node.induction with
  | step n ih =>
    refine .of_branches (.refl n) fun p p' b ↦ ⟨seatsFrom [] b 0 (n.branch b).length, ?_, ?_⟩
    · have hall : List.Forall₂ (Moved fun _ steps ↦ steps) (n.branch b) (n.branch b) :=
        List.forall₂_same.mpr fun m hm ↦ ih b m hm
      exact matched_side_by_side (fun _ ↦ rfl) hall [] b
    · intro k m seat steps _ hseat
      rw [getElem?_seatsFrom hseat, Nat.zero_add]
      rfl

theorem newSteps_of_isRun (h : isRun n = true) (steps : List Step) : newSteps n steps = steps := by
  cases steps with
  | nil => rfl
  | cons s steps => rw [newSteps, if_pos h]

/-- What is left of a well-typed tree when all runs are wrapped is the tree with its nodes moved. -/
theorem Leaves.moved (h : Leaves n n') (hn : n.isWellTyped = true) : Moved newSteps n n' := by
  induction n using Node.induction generalizing n' with
  | step n ih =>
    have hproper := isProper_of_isWellTyped hn
    have hreads := h.readsLike hn
    cases hrun : isRun n with
    | true =>
      obtain rfl := h.eq_of_isRun hrun
      refine ⟨hreads, fun p p' ↦ ((moved_self n).below p p').mono fun o o' hmoves ↦ ?_⟩
      obtain ⟨steps, ho, ho', hreads⟩ := hmoves
      exact ⟨steps, ho, by rw [newSteps_of_isRun hrun, ho'], hreads⟩
    | false =>
      obtain ⟨e, rfl, hall, -⟩ := h.exists_wrap hproper hrun
      refine .of_branches hreads fun p p' b ↦ ⟨seats b 0 (n.branch b), ?_, ?_⟩
      · have hmembers : List.Forall₂ (Member newSteps) (n.branch b) (e.branch b) := by
          refine forall₂_imp_of_mem (hall b) fun m hm m' hleaves ↦ ?_
          have htyped := (isWellTyped_of_mem_branch hn hm).2
          exact ⟨hleaves.info, hleaves.isProper (isProper_of_isWellTyped htyped),
            ih b m hm hleaves htyped⟩
        rw [branch_wrap]
        exact (matched_merge (fun _ ↦ rfl) hmembers).1 p p' b 0 0
      · intro k m seat steps hm hseat
        rw [newSteps, hrun, if_neg Bool.false_ne_true, step?, hm, hseat]

end MathRun

end Typeset

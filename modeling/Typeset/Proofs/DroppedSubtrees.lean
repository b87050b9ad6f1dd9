import Typeset.Proofs.Traversals

/-!
# Taking subtrees out of a document

An edit whose function gives nothing for the nodes of some kinds takes these nodes out with all that
stands below them, unless they are skipped or stand below a skipped node. It works from the bottom
up; `Node.without` says what is left from the top down, and `Occurrence.outline` shows that the
nodes that are left keep all they hold and their places in the tree.
-/

namespace Typeset

/-! ## Outlines -/

/-- What a node is, apart from the nodes one step below it, and where it stands, apart from the
nodes beside it. The outlines of all nodes in the order of a visit are the whole tree. -/
structure Outline where
  info : NodeInfo
  hasTag : Bool
  hasCaption : Bool
  /-- The branches on which the node and the nodes above it stand, up to the root. -/
  branches : List Branch
deriving DecidableEq, Repr

/-- The outline of a node at its place. -/
def Occurrence.outline (o : Occurrence) : Outline :=
  ⟨o.node.info, o.node.tag.isSome, o.node.caption.isSome, o.place.steps.map Step.branch⟩

namespace Node

section Along

variable {α : Type} {φ : Occurrence → α} {f g : Place → Node → List Occurrence} {p q : Place}
  {left : Node → Option Node}

theorem map_gatherIn_filterMap {b : Branch} {i j : Nat} {ns : List Node}
    (h : ∀ k m, ns[k]? = some m → ∀ l, (left m).toList.flatMap (fun m' ↦
      (g (q.down b l) m').map φ) = (f (p.down b (i + k)) m).map φ) :
    (gatherIn g q b j (ns.filterMap left)).map φ = (gatherIn f p b i ns).map φ := by
  induction ns generalizing i j with
  | nil => rfl
  | cons n ns ih =>
    have hfirst : (left n).toList.flatMap (fun m' ↦ (g (q.down b j) m').map φ) =
        (f (p.down b i) n).map φ := h 0 n rfl j
    have hrest : ∀ j, (gatherIn g q b j (ns.filterMap left)).map φ =
        (gatherIn f p b (i + 1) ns).map φ := by
      refine fun j ↦ ih fun k m hk l ↦ ?_
      rw [show i + 1 + k = i + (k + 1) by omega]
      exact h (k + 1) m hk l
    rw [gatherIn.eq_2 f, List.map_append, ← hfirst, List.filterMap_cons]
    cases left n with
    | none => exact hrest j
    | some n' => simp [gatherIn, hrest]

/-- Where something of each tree one step below a node is left, what is left below the node is what
is left of each. -/
theorem map_gather_keeping {n : Node}
    (h : ∀ b i m, (n.branch b)[i]? = some m → ∀ l, (left m).toList.flatMap (fun m' ↦
      (g (q.down b l) m').map φ) = (f (p.down b i) m).map φ) :
    (gather g q (n.keeping left)).map φ = (gather f p n).map φ := by
  have hbranch : ∀ b, (n.keeping left).branch b = (n.branch b).filterMap left := by
    intro b
    cases b with
    | children | title => rfl
    | tag => cases htag : n.tag <;> simp [keeping, htag]
    | caption => cases hcaption : n.caption <;> simp [keeping, hcaption]
  rw [gather, gather, List.map_flatMap, List.map_flatMap]
  refine List.flatMap_congr fun b _ ↦ ?_
  rw [hbranch]
  refine map_gatherIn_filterMap fun k m hk l ↦ ?_
  rw [Nat.zero_add]
  exact h b k m hk l

end Along

/-- The outlines of a tree depend on the branches around it only. -/
theorem outline_occurrences_congr {n : Node} {p q : Place}
    (h : q.steps.map Step.branch = p.steps.map Step.branch) :
    (n.occurrences q).map Occurrence.outline = (n.occurrences p).map Occurrence.outline := by
  induction n using Node.induction generalizing p q with
  | step n ih =>
    have hgather : (gather occurrences q (n.keeping some)).map Occurrence.outline =
        (gather occurrences p n).map Occurrence.outline := by
      refine map_gather_keeping fun b i m hm l ↦ ?_
      rw [Option.toList_some, List.flatMap_singleton]
      exact ih b m (List.mem_of_getElem? hm) (by simp [Place.down, h])
    rw [keeping_some] at hgather
    rw [occurrences_eq_gather, occurrences_eq_gather, List.map_cons, List.map_cons, hgather]
    simp [Occurrence.outline, h]

/-! ## What is taken out -/

variable (dropped skipped : Kind → Bool)

mutual

/-- The tree without the subtrees whose roots are of a dropped kind. Those whose roots are of a
skipped kind stay as they are. -/
def without : Node → Node
  | ⟨info, children, title, tag, caption⟩ =>
    if skipped info.element.kind then ⟨info, children, title, tag, caption⟩
    else ⟨info, allWithout children, allWithout title, allWithout? tag, allWithout? caption⟩
termination_by structural n => n

/-- The trees whose roots stay, without such subtrees. -/
def allWithout : List Node → List Node
  | [] => []
  | n :: ns =>
    if dropped n.info.element.kind && !skipped n.info.element.kind then allWithout ns
    else n.without :: allWithout ns
termination_by structural ns => ns

/-- The trees of a branch that may be missing whose roots stay, without such subtrees. -/
def allWithout? : Option (List Node) → Option (List Node)
  | none => none
  | some ns => some (allWithout ns)
termination_by structural ns => ns

end

/-- One of the nodes from the root down to the end of some steps is of a dropped kind, and neither
that node nor one above it is of a skipped kind. -/
def isDroppedAt (doc : Node) (steps : List Step) : Bool :=
  steps.tails.any fun above ↦ (doc.at? above).any (fun n ↦ dropped n.kind) &&
    !doc.isSkippedAt (fun n ↦ skipped n.kind) above

/-- Neither a node of a document nor one above it takes the node out. -/
def stays (doc : Node) (o : Occurrence) : Bool := !doc.isDroppedAt dropped skipped o.place.steps

/-- The function of an edit that gives nothing for nodes of the dropped kinds. -/
def dropping (n : Node) : Except Failure (Option Node) :=
  .ok (if dropped n.kind then none else some n)

/-- What is left of a tree one step below a node that is not skipped. -/
def remainder (n : Node) : Option Node :=
  if dropped n.kind && !skipped n.kind then none else some (n.without dropped skipped)

variable {dropped skipped} {n : Node}

theorem allWithout_eq (ns : List Node) :
    allWithout dropped skipped ns = ns.filterMap (remainder dropped skipped) := by
  induction ns with
  | nil => rfl
  | cons n ns ih =>
    rw [allWithout, List.filterMap_cons, remainder, ih]
    split <;> rfl

theorem without_of_skipped (h : skipped n.kind = true) : n.without dropped skipped = n := by
  obtain ⟨info, children, title, tag, caption⟩ := n
  rw [without, if_pos h]

theorem without_eq (h : skipped n.kind = false) :
    n.without dropped skipped = n.keeping (remainder dropped skipped) := by
  obtain ⟨info, children, title, tag, caption⟩ := n
  have hskip : skipped info.element.kind = false := h
  rw [without, if_neg (by rw [hskip]; exact Bool.false_ne_true)]
  cases tag <;> cases caption <;> simp [keeping, allWithout?, allWithout_eq]

theorem info_without (n : Node) : (n.without dropped skipped).info = n.info := by
  obtain ⟨info, children, title, tag, caption⟩ := n
  rw [without]
  split <;> rfl

theorem isNull_of_remainder {k : Node} (hn : n.isProper = true)
    (h : n.remainder dropped skipped = some k) : k.isNull = false := by
  unfold remainder at h
  split at h
  · cases h
  · cases h
    rw [isNull, element, info_without]
    exact isNull_eq_false_of_isProper hn

/-! ## The edit -/

/-- From the bottom up an edit leaves of a proper tree what is left of it from the top down. -/
theorem gives_remainder (h : n.isProper = true) :
    ∃ calls, Gives (n.notedEdit (fun m ↦ skipped m.kind) (dropping dropped)) calls
      (n.remainder dropped skipped) := by
  induction n using Node.induction with
  | step n ih =>
    cases hskip : skipped n.kind with
    | true =>
      refine ⟨[], ?_⟩
      rw [remainder, hskip, Bool.not_true, Bool.and_false, if_neg Bool.false_ne_true,
        without_of_skipped hskip]
      exact gives_notedEdit_of_skip hskip
    | false =>
      have hbelow := ((isProper_iff n).mp h).2
      choose! calls hcalls using fun b m hm ↦ ih b m hm (hbelow b m hm)
      refine ⟨_, gives_notedEdit h hskip hcalls
        (fun b m hm k hk ↦ isNull_of_remainder (hbelow b m hm) hk) ?_⟩
      rw [← without_eq hskip, dropping, kind, element, info_without, remainder, hskip,
        Bool.not_false, Bool.and_true]

/-! ## What is left -/

theorem isDroppedAt_cons (doc : Node) (s : Step) (above : List Step) :
    doc.isDroppedAt dropped skipped (s :: above) =
      ((doc.at? (s :: above)).any (fun n ↦ dropped n.kind) &&
        !doc.isSkippedAt (fun n ↦ skipped n.kind) (s :: above) ||
        doc.isDroppedAt dropped skipped above) := rfl

theorem isDroppedAt_of_isBelow {doc : Node} {p q : Place} (h : q.IsBelow p)
    (hdropped : doc.isDroppedAt dropped skipped p.steps = true) :
    doc.isDroppedAt dropped skipped q.steps = true := by
  obtain ⟨above, habove, hat⟩ := List.any_eq_true.mp hdropped
  refine List.any_eq_true.mpr ⟨above, ?_, hat⟩
  exact (List.mem_tails _ _).mpr (((List.mem_tails _ _).mp habove).trans h.2)

/-- Below a skipped node that stays, everything stays. -/
theorem isDroppedAt_of_isSkippedAt {doc : Node} {p q : Place} (h : q.IsBelow p)
    (hskipped : doc.isSkippedAt (fun n ↦ skipped n.kind) p.steps = true)
    (hdropped : doc.isDroppedAt dropped skipped p.steps = false) :
    doc.isDroppedAt dropped skipped q.steps = false := by
  rw [isDroppedAt, List.any_eq_false] at hdropped ⊢
  intro above habove
  rcases List.suffix_or_suffix_of_suffix ((List.mem_tails _ _).mp habove) h.2 with hsuffix | hsuffix
  · exact hdropped above ((List.mem_tails _ _).mpr hsuffix)
  · have hbelow : (Place.mk p.root above).IsBelow p := ⟨rfl, hsuffix⟩
    simp [show doc.isSkippedAt (fun n ↦ skipped n.kind) above = true from
      isSkippedAt_of_isBelow hbelow hskipped]

/-- One step below a node that stays and is not skipped, it is the node there that decides. -/
theorem isDroppedAt_down {doc m : Node} {p : Place} {b : Branch} {i : Nat}
    (hskipped : doc.isSkippedAt (fun n ↦ skipped n.kind) p.steps = false)
    (hdropped : doc.isDroppedAt dropped skipped p.steps = false)
    (hat : doc.at? (p.down b i).steps = some m) :
    doc.isDroppedAt dropped skipped (p.down b i).steps = (dropped m.kind && !skipped m.kind) := by
  have hbelow := isSkippedAt_down hskipped hat
  rw [Place.down] at hat hbelow
  rw [Place.down, isDroppedAt_cons, hdropped, Bool.or_false, hat, hbelow]
  rfl

theorem filter_stays_of_isDroppedAt {doc : Node} {p : Place}
    (h : doc.isDroppedAt dropped skipped p.steps = true) :
    (n.occurrences p).filter (doc.stays dropped skipped) = [] := by
  refine List.filter_eq_nil_iff.mpr fun o ho ↦ ?_
  simp [stays, isDroppedAt_of_isBelow (isBelow_of_mem_occurrences ho) h]

theorem filter_stays_of_isSkippedAt {doc : Node} {p : Place}
    (hskipped : doc.isSkippedAt (fun n ↦ skipped n.kind) p.steps = true)
    (hdropped : doc.isDroppedAt dropped skipped p.steps = false) :
    (n.occurrences p).filter (doc.stays dropped skipped) = n.occurrences p := by
  refine List.filter_eq_self.mpr fun o ho ↦ ?_
  rw [stays, isDroppedAt_of_isSkippedAt (isBelow_of_mem_occurrences ho) hskipped hdropped]
  rfl

theorem filter_stays_eq_gather {doc : Node} {p : Place}
    (h : doc.isDroppedAt dropped skipped p.steps = false) :
    (n.occurrences p).filter (doc.stays dropped skipped) =
      ⟨p, n⟩ :: gather (fun q m ↦ (m.occurrences q).filter (doc.stays dropped skipped)) p n := by
  have hself : doc.stays dropped skipped ⟨p, n⟩ = true := by
    rw [stays, h]
    rfl
  have hbelow : (gather occurrences p n).filter (doc.stays dropped skipped) =
      gather (fun q m ↦ (m.occurrences q).filter (doc.stays dropped skipped)) p n :=
    filter_gather fun _ _ _ _ ↦ rfl
  rw [occurrences_eq_gather, List.filter_cons_of_pos hself, hbelow]

/-- What is left of a tree that stays are the nodes that stay, with their outlines. -/
theorem outline_without_at {doc : Node} {p q : Place} (hat : doc.at? p.steps = some n)
    (hskipped : doc.isSkippedAt (fun n ↦ skipped n.kind) p.steps = skipped n.kind)
    (hdropped : doc.isDroppedAt dropped skipped p.steps = false)
    (hbranches : q.steps.map Step.branch = p.steps.map Step.branch) :
    ((n.without dropped skipped).occurrences q).map Occurrence.outline =
      ((n.occurrences p).filter (doc.stays dropped skipped)).map Occurrence.outline := by
  induction n using Node.induction generalizing p q with
  | step n ih =>
    cases hskip : skipped n.kind with
    | true =>
      rw [without_of_skipped hskip, filter_stays_of_isSkippedAt (hskipped.trans hskip) hdropped]
      exact outline_occurrences_congr hbranches
    | false =>
      have hreached := hskipped.trans hskip
      have hbelow : (gather occurrences q (n.keeping (remainder dropped skipped))).map
          Occurrence.outline =
          (gather (fun q m ↦ (m.occurrences q).filter (doc.stays dropped skipped)) p n).map
            Occurrence.outline := by
        refine map_gather_keeping fun b i m hm l ↦ ?_
        have hat' : doc.at? (p.down b i).steps = some m := by
          rw [Place.down, at?, hat]
          exact hm
        have hdropped' := isDroppedAt_down hreached hdropped hat'
        cases hgone : dropped m.kind && !skipped m.kind with
        | true =>
          rw [remainder, hgone, if_pos rfl, filter_stays_of_isDroppedAt (hdropped'.trans hgone)]
          rfl
        | false =>
          rw [remainder, hgone, if_neg Bool.false_ne_true, Option.toList_some,
            List.flatMap_singleton]
          exact ih b m (List.mem_of_getElem? hm) hat' (isSkippedAt_down hreached hat')
            (hdropped'.trans hgone) (by simp [Place.down, hbranches])
      rw [filter_stays_eq_gather hdropped, without_eq hskip, occurrences_eq_gather, List.map_cons,
        List.map_cons, hbelow]
      simp [Occurrence.outline, keeping, hbranches]

/-- An edit that drops the nodes of some kinds takes them out of a well-typed document with all that
stands below them, unless they or nodes above them are of a kind that is skipped. It fails just
where the document itself would have to be taken out. The nodes that are left are those of the
document that no dropped node takes along, in the same order, on the same branches and with all they
hold: an empty tag or caption stays where there was one. -/
theorem edit_takes_out_dropped_subtrees {doc : Node} (h : doc.isWellTyped = true)
    (hkind : doc.kind = .document) (dropped skipped : Kind → Bool) :
    ((doc.edited (fun n ↦ skipped n.kind) (dropping dropped)).1 = .error .rootRemoved ↔
      dropped .document = true ∧ skipped .document = false) ∧
    (¬ (dropped .document = true ∧ skipped .document = false) →
      (doc.edited (fun n ↦ skipped n.kind) (dropping dropped)).1 =
        .ok (doc.without dropped skipped) ∧
      ((doc.without dropped skipped).occurrences (.ofRoot 0)).map Occurrence.outline =
        ((doc.occurrences (.ofRoot 0)).filter (doc.stays dropped skipped)).map
          Occurrence.outline) := by
  obtain ⟨calls, hcalls⟩ : ∃ calls, Gives (doc.notedEdit (fun n ↦ skipped n.kind)
      (dropping dropped)) calls (doc.remainder dropped skipped) :=
    gives_remainder (isProper_of_isWellTyped h)
  have hedited : (doc.edited (fun n ↦ skipped n.kind) (dropping dropped)).1 =
      asDocument (doc.remainder dropped skipped) := by
    rw [edited, hcalls []]
    rfl
  have hkept : (doc.without dropped skipped).kind = .document := by
    rw [kind, element, info_without]
    exact hkind
  rw [hedited, remainder, hkind]
  cases hgone : dropped .document && !skipped .document with
  | true =>
    have hboth : dropped .document = true ∧ skipped .document = false := by simpa using hgone
    exact ⟨⟨fun _ ↦ hboth, fun _ ↦ rfl⟩, fun hnot ↦ absurd hboth hnot⟩
  | false =>
    have hnot : ¬ (dropped .document = true ∧ skipped .document = false) := by simpa using hgone
    rw [if_neg Bool.false_ne_true, asDocument, if_pos hkept]
    refine ⟨⟨fun heq ↦ (by cases heq), fun hboth ↦ absurd hboth hnot⟩, fun _ ↦ ⟨rfl, ?_⟩⟩
    have hskipped : doc.isSkippedAt (fun n ↦ skipped n.kind) (Place.ofRoot 0).steps =
        skipped doc.kind := by
      simp [isSkippedAt, Place.ofRoot, at?]
    refine outline_without_at rfl hskipped ?_ rfl
    rw [← hgone, ← hkind, isDroppedAt, ← hskipped]
    simp [Place.ofRoot, at?]

/-- The glossary without its texts, except for bold ones. -/
def boldGlossary : Node :=
  glossary.without (fun k ↦ decide (k = .text)) fun k ↦ decide (k = .bold)

/-- Of its three texts one is left. The tag of its entry stays, and is empty. -/
theorem glossary_keeps_bold_text :
    glossary.isWellTyped = true ∧ glossary.kind = .document ∧
      (glossary.edited (fun n ↦ decide (n.kind = .bold)) (dropping fun k ↦ decide (k = .text))).1 =
        .ok boldGlossary ∧
      ((boldGlossary.occurrences (.ofRoot 0)).filter fun o ↦ o.node.kind = .text).length = 1 ∧
      (boldGlossary.at? [⟨.children, 0⟩, ⟨.children, 0⟩]).map Node.tag = some (some []) := by
  have htyped : glossary.isWellTyped = true := by decide
  obtain ⟨-, hkept⟩ := edit_takes_out_dropped_subtrees htyped rfl
    (fun k ↦ decide (k = .text)) (fun k ↦ decide (k = .bold))
  exact ⟨htyped, rfl, (hkept (by decide)).1, by decide, rfl⟩

end Node

end Typeset

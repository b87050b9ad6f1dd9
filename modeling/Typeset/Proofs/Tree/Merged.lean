import Typeset.Proofs.Table.Layout
import Typeset.Proofs.Tree.Settled
import Typeset.Reference.Figure

/-!
# What wrapping math runs leaves as it is

A run takes over the space after its last member, so that no plain text changes. It counts neither
as blank nor as an image, and neither do its members, so that a paragraph shows one image after the
runs are wrapped exactly if it did before. The rows and cells of a table stay what they are.
-/

namespace Typeset

open Node

/-! ## Nodes that are read alike -/

/-- A node reads like another one: it is the same element, all its plain texts are the same, and so
are the things that are read off the nodes below it. -/
structure Node.ReadsLike (n n' : Node) : Prop where
  element : n'.element = n.element
  name : n'.info.name = n.info.name
  loose : n'.info.loose = n.info.loose
  attributes : n'.attributes = n.attributes
  plainTexts : ∀ b, plainTexts (n'.branch b) = plainTexts (n.branch b)
  standaloneImage : n'.standaloneImage?.isSome = n.standaloneImage?.isSome
  isFigure : n'.isFigure = n.isFigure
  labelPrefix : n'.labelPrefix = n.labelPrefix
  geometry : n.kind = .table →
    ∀ config, Table.geometry? config n' = Table.geometry? config n
  columnSpec : n.kind = .table → ∀ g, Table.columnSpec g n' = Table.columnSpec g n ∧
    Table.columnSpecFault? g n' = Table.columnSpecFault? g n

namespace Node.ReadsLike

theorem refl (n : Node) : n.ReadsLike n :=
  ⟨rfl, rfl, rfl, rfl, fun _ ↦ rfl, rfl, rfl, rfl, fun _ _ ↦ rfl, fun _ _ ↦ ⟨rfl, rfl⟩⟩

/-- The space after a node makes no difference. -/
theorem withoutBlank {n n' : Node} (h : n.ReadsLike n') (hn' : n'.isProper = true) :
    n.ReadsLike n'.withoutBlank := by
  obtain ⟨⟨origin, postBlank, name, attributes, element, loose⟩, children, title, tag, caption⟩ := n'
  obtain rfl : loose = [] := loose_eq_nil hn'
  exact ⟨h.element, h.name, h.loose, h.attributes, h.plainTexts, h.standaloneImage, h.isFigure,
    h.labelPrefix, h.geometry, h.columnSpec⟩

end Node.ReadsLike

namespace MathRun

variable {n n' : Node} {ns es : List Node}

/-! ## Edited trees -/

/-- Wrapping the runs of the first tree leaves the second one. -/
abbrev Leaves (n n' : Node) : Prop := edit? n = .ok (some n')

/-- A run is left as it is. -/
theorem Leaves.eq_of_isRun (h : Leaves n n') (hrun : isRun n = true) : n = n' := by
  rw [Leaves, edit?_of_isRun hrun] at h
  cases h
  rfl

theorem Leaves.info (h : Leaves n n') : n'.info = n.info := by
  obtain ⟨m, heq, hinfo, -⟩ := isSettled_of_edit? h
  rw [Option.some.inj heq]
  exact hinfo

theorem Leaves.isProper (h : Leaves n n') (hn : n.isProper = true) : n'.isProper = true := by
  refine isProper_of_editM (fun m m' hm hm' ↦ ?_) hn h
  cases hm'
  exact isProper_wrap hm

theorem Leaves.isNull (h : Leaves n n') (hn : n.isProper = true) : n'.isNull = false := by
  rw [Node.isNull, element, h.info]
  exact beq_eq_false_iff_ne.mpr (element_ne_foreign hn .null)

/-- No proper tree is left out. -/
theorem forall₂_of_editAll? (hns : ∀ n ∈ ns, n.isProper = true) (h : editAll? ns = .ok es) :
    List.Forall₂ Leaves ns es := by
  induction ns generalizing es with
  | nil =>
    cases h
    exact .nil
  | cons n ns ih =>
    obtain ⟨first, hfirst, h⟩ := exists_of_bind_eq_ok h
    obtain ⟨rest, hrest, h⟩ := exists_of_bind_eq_ok h
    cases h
    obtain ⟨m, rfl, -⟩ := isSettled_of_edit? hfirst
    rw [Option.filter_some, Leaves.isNull hfirst (hns n List.mem_cons_self)]
    exact .cons hfirst (ih (fun m hm ↦ hns m (.tail _ hm)) hrest)

/-- Proper trees that leave something each leave it side by side. -/
theorem editAll?_of_forall₂ (hns : ∀ n ∈ ns, n.isProper = true) (h : List.Forall₂ Leaves ns es) :
    editAll? ns = .ok es := by
  induction h with
  | nil => rfl
  | @cons n e ns es hleaves _ ih =>
    obtain ⟨hn, hns⟩ := List.forall_mem_cons.mp hns
    rw [editAll?, editAllM, show editM editGate isRun _ n = _ from hleaves,
      show editAllM editGate isRun _ ns = _ from ih hns]
    simp [bind, Except.bind, pure, Except.pure, Option.filter, hleaves.isNull hn]

theorem isSome_of_editBranch? {ns left : Option (List Node)} (h : editBranch? ns = .ok left) :
    left.isSome = ns.isSome := by
  cases ns with
  | none =>
    cases h
    rfl
  | some ns =>
    obtain ⟨ms, -, rfl⟩ := exists_of_editBranch? h
    rfl

/-- What is left of a proper tree that is no run: the runs of the trees that are left below it are
wrapped, and a branch is missing where it was. -/
theorem Leaves.exists_wrap (h : Leaves n n') (hn : n.isProper = true) (hrun : isRun n = false) :
    ∃ e : Node, n' = wrap e ∧ (∀ b, List.Forall₂ Leaves (n.branch b) (e.branch b)) ∧
      e.tag.isSome = n.tag.isSome ∧ e.caption.isSome = n.caption.isSome := by
  have hbelow := ((isProper_iff n).mp hn).2
  rw [Leaves, edit?_of_not_isRun hrun] at h
  obtain ⟨_, -, h⟩ := exists_of_bind_eq_ok h
  obtain ⟨children, hchildren, h⟩ := exists_of_bind_eq_ok h
  obtain ⟨_, -, h⟩ := exists_of_bind_eq_ok h
  obtain ⟨title, htitle, h⟩ := exists_of_bind_eq_ok h
  obtain ⟨_, -, h⟩ := exists_of_bind_eq_ok h
  obtain ⟨tag, htag, h⟩ := exists_of_bind_eq_ok h
  obtain ⟨_, -, h⟩ := exists_of_bind_eq_ok h
  obtain ⟨caption, hcaption, h⟩ := exists_of_bind_eq_ok h
  cases h
  refine ⟨⟨n.info, children, title, tag, caption⟩, rfl, fun b ↦ ?_, isSome_of_editBranch? htag,
    isSome_of_editBranch? hcaption⟩
  cases b with
  | children => exact forall₂_of_editAll? (hbelow .children) hchildren
  | title => exact forall₂_of_editAll? (hbelow .title) htitle
  | tag => exact forall₂_of_editAll? (hbelow .tag) (editAll?_of_editBranch? htag)
  | caption => exact forall₂_of_editAll? (hbelow .caption) (editAll?_of_editBranch? hcaption)

/-! ## Plain texts -/

theorem plainTexts_append (ms ns : List Node) :
    plainTexts (ms ++ ns) = plainTexts ms ++ plainTexts ns := by
  induction ms with
  | nil => rw [List.nil_append, plainTexts, String.empty_append]
  | cons m ms ih => rw [List.cons_append, plainTexts, plainTexts, ih, String.append_assoc]

theorem plainText_congr (hinfo : n'.info = n.info)
    (hchildren : plainTexts n'.children = plainTexts n.children) : n'.plainText = n.plainText := by
  obtain ⟨info, children, title, tag, caption⟩ := n
  obtain ⟨info', children', title', tag', caption'⟩ := n'
  obtain rfl : info' = info := hinfo
  rw [plainText, plainText, show plainTexts children' = plainTexts children from hchildren]

theorem plainText_withoutBlank (n : Node) :
    n.withoutBlank.plainText ++ Text.spaces n.postBlank = n.plainText := by
  obtain ⟨info, children, title, tag, caption⟩ := n
  rw [withoutBlank, plainText, plainText, show Text.spaces 0 = "" from rfl, String.append_empty]

theorem plainText_close (last : Node) (earlier : List Node) :
    (close last earlier).plainText = plainTexts earlier.reverse ++ last.plainText := by
  rw [close, plainText]
  dsimp only
  rw [plainTexts_append, plainTexts, plainTexts, String.append_empty, String.append_assoc,
    plainText_withoutBlank]

/-- Wrapping the runs of a sequence leaves its plain text. -/
theorem plainTexts_merge (ns : List Node) :
    plainTexts (merge ns) = plainTexts ns ∧ ∀ last earlier,
      plainTexts (extend last earlier ns) =
        plainTexts earlier.reverse ++ last.plainText ++ plainTexts ns := by
  induction ns with
  | nil =>
    refine ⟨rfl, fun last earlier ↦ ?_⟩
    show (close last earlier).plainText ++ "" = _ ++ ""
    rw [plainText_close]
  | cons n ns ih =>
    have hrest : plainTexts (if opens n then extend n [] ns else n :: merge ns) =
        plainTexts (n :: ns) := by
      split
      · rw [ih.2, plainTexts, List.reverse_nil, plainTexts, String.empty_append]
      · rw [plainTexts, ih.1, plainTexts]
    refine ⟨hrest, fun last earlier ↦ ?_⟩
    rw [extend]
    split
    · have hmembers : plainTexts (last :: earlier).reverse =
          plainTexts earlier.reverse ++ last.plainText := by
        rw [List.reverse_cons, plainTexts_append, plainTexts, plainTexts, String.append_empty]
      rw [ih.2, hmembers, plainTexts]
      exact String.append_assoc
    · rw [plainTexts, plainText_close, hrest]

theorem plainTexts_of_leaves (hns : ∀ n ∈ ns, ∀ n', Leaves n n' → n'.plainText = n.plainText)
    (h : List.Forall₂ Leaves ns es) : plainTexts es = plainTexts ns := by
  induction h with
  | nil => rfl
  | cons hleaves _ ih =>
    rw [plainTexts, plainTexts, hns _ List.mem_cons_self _ hleaves,
      ih fun n hn ↦ hns n (.tail _ hn)]

theorem Leaves.plainTexts_branch_of (h : Leaves n n') (hn : n.isProper = true)
    (hbelow : ∀ b, ∀ m ∈ n.branch b, ∀ m', Leaves m m' → m'.plainText = m.plainText)
    (b : Branch) : plainTexts (n'.branch b) = plainTexts (n.branch b) := by
  cases hrun : isRun n with
  | true =>
    obtain rfl := h.eq_of_isRun hrun
    rfl
  | false =>
    obtain ⟨e, rfl, hall, -⟩ := h.exists_wrap hn hrun
    rw [branch_wrap, (plainTexts_merge _).1, plainTexts_of_leaves (hbelow b) (hall b)]

/-- Wrapping all runs of a tree leaves its plain text. -/
theorem Leaves.plainText (h : Leaves n n') (hn : n.isProper = true) :
    n'.plainText = n.plainText := by
  induction n using Node.induction generalizing n' with
  | step n ih =>
    have hbelow := ((isProper_iff n).mp hn).2
    exact plainText_congr h.info
      (h.plainTexts_branch_of hn (fun b m hm m' hm' ↦ ih b m hm hm' (hbelow b m hm)) .children)

theorem Leaves.plainTexts_branch (h : Leaves n n') (hn : n.isProper = true) (b : Branch) :
    plainTexts (n'.branch b) = plainTexts (n.branch b) :=
  h.plainTexts_branch_of hn
    (fun b m hm _ hm' ↦ hm'.plainText (((isProper_iff n).mp hn).2 b m hm)) b

/-! ## Figures -/

theorem extend_ne_nil (last : Node) (earlier ns : List Node) : extend last earlier ns ≠ [] := by
  induction ns generalizing last earlier with
  | nil => simp [extend]
  | cons n ns ih =>
    rw [extend]
    split
    · exact ih n (last :: earlier)
    · simp

theorem isEmpty_merge (ns : List Node) : (merge ns).isEmpty = ns.isEmpty := by
  cases ns with
  | nil => rfl
  | cons n ns =>
    rw [merge]
    split
    · exact List.isEmpty_eq_false_iff.mpr (extend_ne_nil n [] ns)
    · rfl

theorem Leaves.isEmpty_branch (h : Leaves n n') (hn : n.isProper = true) (b : Branch) :
    (n'.branch b).isEmpty = (n.branch b).isEmpty := by
  cases hrun : isRun n with
  | true =>
    obtain rfl := h.eq_of_isRun hrun
    rfl
  | false =>
    obtain ⟨e, rfl, hall, -⟩ := h.exists_wrap hn hrun
    rw [branch_wrap, isEmpty_merge, isEmpty_of_forall₂ (hall b)]

/-- A run closes behind every node that opens one. -/
theorem exists_run_of_opens (ns : List Node) :
    (∀ n ∈ ns, opens n = true → ∃ m ∈ merge ns, m.kind = .mathRun) ∧
      ∀ last earlier, ∃ m ∈ extend last earlier ns, m.kind = .mathRun := by
  induction ns with
  | nil =>
    refine ⟨fun n hn ↦ absurd hn List.not_mem_nil, fun last earlier ↦ ?_⟩
    exact ⟨close last earlier, List.mem_singleton.mpr rfl, rfl⟩
  | cons n ns ih =>
    refine ⟨fun m hm hopens ↦ ?_, fun last earlier ↦ ?_⟩
    · rw [merge]
      split
      · exact ih.2 n []
      · next hnot =>
        rcases List.mem_cons.mp hm with rfl | hm
        · exact absurd hopens hnot
        · obtain ⟨k, hk, hrun⟩ := ih.1 m hm hopens
          exact ⟨k, .tail _ hk, hrun⟩
    · rw [extend]
      split
      · exact ih.2 n (last :: earlier)
      · exact ⟨close last earlier, List.mem_cons_self, rfl⟩

/-- The one node besides blank text, if there is one. -/
def sole? (ns : List Node) : Option Node :=
  match ns.filter fun n ↦ !n.isBlankText with
  | [n] => some n
  | _ => none

theorem isSome_standaloneImage? (n : Node) :
    n.standaloneImage?.isSome = (sole? n.children).any isImage := by
  have hzip := List.filter_map (f := Prod.fst) (p := fun child : Node ↦ !child.isBlankText)
    (l := n.children.zipIdx)
  rw [List.zipIdx_map_fst] at hzip
  unfold standaloneImage? sole?
  rw [hzip]
  split
  · next child i hcs =>
    have hcs : n.children.zipIdx.filter
        ((fun child : Node ↦ !child.isBlankText) ∘ Prod.fst) = [(child, i)] := hcs
    rw [hcs]
    cases hchild : child.isImage <;> simp [hchild]
  · next hsole =>
    cases hcs : n.children.zipIdx.filter
        ((fun child : Node ↦ !child.isBlankText) ∘ Prod.fst) with
    | nil => rfl
    | cons first rest =>
      cases rest with
      | nil => exact absurd hcs (hsole first.1 first.2)
      | cons second rest => rfl

/-- Where something stands that is neither blank nor an image, nothing else is the one image. -/
theorem any_sole?_eq_false {m : Node} (hm : m ∈ ns) (hblank : m.isBlankText = false)
    (himage : m.isImage = false) : (sole? ns).any isImage = false := by
  have hmem : m ∈ ns.filter fun n ↦ !n.isBlankText := List.mem_filter.mpr ⟨hm, by simp [hblank]⟩
  unfold sole?
  split
  · next n hsole =>
    rw [hsole] at hmem
    rw [← List.mem_singleton.mp hmem]
    exact himage
  · rfl

theorem isImage_eq_false_of_opens (h : opens n = true) :
    n.isBlankText = false ∧ n.isImage = false := by
  unfold opens at h
  split at h
  · next he => simp [isBlankText, isImage, isImageLink, kind, he, Element.kind]
  · next he => simp [isBlankText, isImage, isImageLink, kind, he, Element.kind]
  · cases h

theorem isImage_eq_false_of_mathRun (h : n.kind = .mathRun) :
    n.isBlankText = false ∧ n.isImage = false := by
  cases he : n.element <;>
    simp_all [isBlankText, isImage, isImageLink, kind, Element.kind]

theorem opens_congr (h : n'.info = n.info) : opens n' = opens n := by
  rw [opens, opens, element, element, h]

theorem Leaves.isBlankText (h : Leaves n n') : n'.isBlankText = n.isBlankText := by
  rw [Node.isBlankText, Node.isBlankText, element, element, h.info]

theorem Leaves.isImage (h : Leaves n n') (hn : n.isProper = true) : n'.isImage = n.isImage := by
  have hempty : n'.children.isEmpty = n.children.isEmpty := h.isEmpty_branch hn .children
  simp only [Node.isImage, isImageLink, isLooselyTrue, loose?, kind, element, h.info, hempty]

theorem sole?_of_leaves (hns : ∀ n ∈ ns, n.isProper = true) (h : List.Forall₂ Leaves ns es) :
    (sole? es).any Node.isImage = (sole? ns).any Node.isImage := by
  have hfilter : List.Forall₂ (fun n n' ↦ n'.isImage = n.isImage)
      (ns.filter fun n ↦ !n.isBlankText) (es.filter fun n ↦ !n.isBlankText) := by
    induction h with
    | nil => exact .nil
    | cons hleaves _ ih =>
      have ih := ih fun n hn ↦ hns n (.tail _ hn)
      rw [List.filter_cons, List.filter_cons, hleaves.isBlankText]
      split
      · exact .cons (hleaves.isImage (hns _ List.mem_cons_self)) ih
      · exact ih
  unfold sole?
  generalize ns.filter (fun n ↦ !n.isBlankText) = as at hfilter ⊢
  generalize es.filter (fun n ↦ !n.isBlankText) = bs at hfilter ⊢
  cases hfilter with
  | nil => rfl
  | cons himage hrest =>
    cases hrest with
    | nil => exact himage
    | cons _ _ => rfl

theorem forall_opens_congr (h : List.Forall₂ Leaves ns es) :
    (∃ e ∈ es, opens e = true) ↔ ∃ n ∈ ns, opens n = true := by
  induction h with
  | nil => simp
  | cons hleaves _ ih => simp only [List.exists_mem_cons_iff, ih, opens_congr hleaves.info]

theorem Leaves.standaloneImage (h : Leaves n n') (hn : n.isProper = true) :
    n'.standaloneImage?.isSome = n.standaloneImage?.isSome := by
  rw [isSome_standaloneImage?, isSome_standaloneImage?]
  cases hrun : isRun n with
  | true =>
    obtain rfl := h.eq_of_isRun hrun
    rfl
  | false =>
    obtain ⟨e, rfl, hall, -⟩ := h.exists_wrap hn hrun
    have hchildren : List.Forall₂ Leaves n.children e.children := hall .children
    rw [show (wrap e).children = merge e.children from rfl]
    by_cases hopens : ∃ m ∈ n.children, opens m = true
    · -- a node that opens a run is no image, and neither is the run
      obtain ⟨m, hm, hm'⟩ := hopens
      obtain ⟨k, hk, hk'⟩ := (forall_opens_congr hchildren).mpr ⟨m, hm, hm'⟩
      obtain ⟨run, hmem, hkind⟩ := (exists_run_of_opens e.children).1 k hk hk'
      rw [any_sole?_eq_false hm (isImage_eq_false_of_opens hm').1 (isImage_eq_false_of_opens hm').2,
        any_sole?_eq_false hmem (isImage_eq_false_of_mathRun hkind).1
          (isImage_eq_false_of_mathRun hkind).2]
    · have hnone : ∀ m ∈ e.children, opens m = false := by
        intro m hm
        refine Bool.eq_false_iff.mpr fun hm' ↦ hopens ?_
        exact (forall_opens_congr hchildren).mp ⟨m, hm, hm'⟩
      rw [merge_eq_self hnone]
      exact sole?_of_leaves (((isProper_iff n).mp hn).2 .children) hchildren

theorem isEmpty_getD (ns : Option (List Node)) : ns.any (!·.isEmpty) = !(ns.getD []).isEmpty := by
  cases ns <;> rfl

theorem Leaves.hasCaption (h : Leaves n n') (hn : n.isProper = true) :
    n'.hasCaption = n.hasCaption := by
  have hcaption : (n'.caption.getD []).isEmpty = (n.caption.getD []).isEmpty :=
    h.isEmpty_branch hn .caption
  simp only [Node.hasCaption, isEmpty_getD, hcaption, isLooselyTrue, loose?, h.info]

theorem Leaves.isFigure (h : Leaves n n') (hn : n.isProper = true) : n'.isFigure = n.isFigure := by
  simp only [Node.isFigure, h.hasCaption hn, hasName, isLooselyTrue, loose?, kind, element, h.info,
    h.standaloneImage hn]

theorem Leaves.labelPrefix (h : Leaves n n') (hn : n.isProper = true) :
    n'.labelPrefix = n.labelPrefix := by
  simp only [Node.labelPrefix, element, h.info, h.isFigure hn]

/-! ## Tables -/

theorem opens_eq_false_of_kind {k : Kind} (hk : k = .tableRow ∨ k = .tableCell)
    (h : n.kind = k) : opens n = false := by
  unfold opens
  split
  · next he =>
    rw [kind, he] at h
    rcases hk with rfl | rfl <;> cases h
  · next he =>
    rw [kind, he] at h
    rcases hk with rfl | rfl <;> cases h
  · rfl

/-- The rows of a table and the cells of a row stay side by side. -/
theorem Leaves.forall₂_children (h : Leaves n n') (hn : n.isWellTyped = true)
    (hcontent : n.kind.childContent = .rows ∨ n.kind.childContent = .cells) :
    List.Forall₂ Leaves n.children n'.children := by
  have hrun : isRun n = false := by
    refine beq_eq_false_iff_ne.mpr fun hkind ↦ ?_
    rw [hkind] at hcontent
    rcases hcontent with h | h <;> cases h
  obtain ⟨e, rfl, hall, -⟩ := h.exists_wrap (isProper_of_isWellTyped hn) hrun
  have hchildren : List.Forall₂ Leaves n.children e.children := hall .children
  have hkinds : ∀ m ∈ n.children, m.kind = .tableRow ∨ m.kind = .tableCell := by
    intro m hm
    have hadmits := (isWellTyped_of_mem_branch (b := .children) hn hm).1
    rw [Kind.content] at hadmits
    rcases hcontent with h | h
    · rw [h] at hadmits
      exact .inl (eq_of_beq hadmits)
    · rw [h] at hadmits
      exact .inr (eq_of_beq hadmits)
  have hnone : ∀ m ∈ e.children, opens m = false := by
    intro m hm
    refine Bool.eq_false_iff.mpr fun hopens ↦ ?_
    obtain ⟨k, hk, hk'⟩ := (forall_opens_congr hchildren).mp ⟨m, hm, hopens⟩
    rw [opens_eq_false_of_kind (hkinds k hk) rfl] at hk'
    cases hk'
  rw [show (wrap e).children = merge e.children from rfl, merge_eq_self hnone]
  exact hchildren

theorem Leaves.alikeCells (h : Leaves n n') (hn : n.isWellTyped = true) :
    Table.AlikeCells n n' where
  width := by rw [Table.cellWidth, Table.cellWidth, element, element, loose?, loose?, h.info]
  text := by
    have htext := h.plainTexts_branch (isProper_of_isWellTyped hn) .children
    rw [Table.cellText, Table.cellText]
    exact congrArg Text.strip htext

theorem Leaves.alikeRows (h : Leaves n n') (hn : n.isWellTyped = true)
    (hkind : n.kind = .tableRow) : Table.AlikeRows n n' where
  rowClass := by rw [Table.rowClass, Table.rowClass, Table.rowKind?, Table.rowKind?, element,
    element, h.info]
  cells := forall₂_imp_of_mem (h.forall₂_children hn (.inr (by rw [hkind]; rfl)))
    fun _ hm _ hleaves ↦
      hleaves.alikeCells (isWellTyped_of_mem_branch (b := .children) hn hm).2

theorem Leaves.alike_children (h : Leaves n n') (hn : n.isWellTyped = true)
    (hkind : n.kind = .table) : List.Forall₂ Table.AlikeRows n.children n'.children := by
  refine forall₂_imp_of_mem (h.forall₂_children hn (.inl (by rw [hkind]; rfl))) ?_
  intro m hm m' hleaves
  obtain ⟨hadmits, hm⟩ := isWellTyped_of_mem_branch (b := .children) hn hm
  rw [hkind] at hadmits
  exact hleaves.alikeRows hm (eq_of_beq hadmits)

/-! ## All together -/

/-- What is left of a well-typed tree reads like the tree. -/
theorem Leaves.readsLike (h : Leaves n n') (hn : n.isWellTyped = true) : n.ReadsLike n' := by
  have hproper := isProper_of_isWellTyped hn
  have hattributes : n'.attributes = n.attributes := by rw [attributes, h.info]
  refine ⟨by rw [element, h.info], by rw [h.info], by rw [h.info], hattributes,
    h.plainTexts_branch hproper, h.standaloneImage hproper, h.isFigure hproper, h.labelPrefix hproper, ?_, ?_⟩
  · intro hkind config
    rw [Table.geometry?_of_isProper (h.isProper hproper), Table.geometry?_of_isProper hproper,
      Table.geometry_eq_of_alike hattributes (h.alike_children hn hkind)]
  · intro hkind g
    rw [Table.columnSpecFault?_eq_none (h.isProper hproper),
      Table.columnSpecFault?_eq_none hproper,
      Table.columnSpec_eq_of_alike hattributes (h.alike_children hn hkind)]
    exact ⟨rfl, rfl⟩

end MathRun

end Typeset

import Typeset.Proofs.Tree.Merged
import Typeset.Proofs.Tree.Merging

/-!
# Longest runs

Spreading out the math runs of a document undoes wrapping them. Of all trees that spread out to a
document, the wrapped one is told by the shape of its runs: they are well-formed, what opens a run
stands in one, and none could take in what comes next.
-/

namespace Typeset.MathRun

open Node

/-! ## Spreading out -/

mutual

/-- The tree with every run in a sequence replaced by its members. -/
def spread : Node → Node
  | ⟨info, children, title, tag, caption⟩ =>
    ⟨info, spreadAll children, spreadAll title, spreadAll? tag, spreadAll? caption⟩
termination_by structural n => n

/-- The sequence with its runs spread out, at every depth. -/
def spreadAll : List Node → List Node
  | [] => []
  | n :: ns => parts (spread n) ++ spreadAll ns
termination_by structural ns => ns

/-- The same for a branch that may be missing. -/
def spreadAll? : Option (List Node) → Option (List Node)
  | none => none
  | some ns => some (spreadAll ns)
termination_by structural ns => ns

end

/-- The shape of a tree at one of its nodes: a run is well-formed, what opens a run stands in one,
and no run could take in what comes after it. -/
structure IsMergedAt (k : Node) : Prop where
  formed : isRun k = true → IsFormed k
  opens : isRun k = false → ∀ b, ∀ m ∈ k.branch b, opens m = false
  maximal : ∀ b, (k.branch b).IsChain IsMaximal

/-- The runs of the tree are well-formed and as long as can be, and nothing outside of them opens
one. -/
def IsMerged (tree : Node) : Prop := ∀ k ∈ tree.visit, IsMergedAt k

variable {n n' : Node} {ns es : List Node}

theorem info_spread (n : Node) : (spread n).info = n.info := by cases n; rfl

theorem isRun_congr (h : n'.info = n.info) : isRun n' = isRun n := by
  rw [isRun, isRun, kind, kind, element, element, h]

theorem isRun_spread (n : Node) : isRun (spread n) = isRun n := isRun_congr (info_spread n)

theorem branch_spread (n : Node) (b : Branch) : (spread n).branch b = spreadAll (n.branch b) := by
  obtain ⟨info, children, title, tag, caption⟩ := n
  cases b with
  | children | title => rfl
  | tag => cases tag <;> rfl
  | caption => cases caption <;> rfl

theorem spread_withBlank (n : Node) (blank : Int) :
    spread (n.withBlank blank) = (spread n).withBlank blank := by cases n; rfl

theorem branch_withBlank (n : Node) (blank : Int) (b : Branch) :
    (n.withBlank blank).branch b = n.branch b := by cases b <;> rfl

theorem spreadAll_of_not_isRun (h : ∀ n ∈ ns, isRun n = false) : spreadAll ns = ns.map spread := by
  induction ns with
  | nil => rfl
  | cons n ns ih =>
    rw [spreadAll, parts_of_not_isRun (isRun_spread n ▸ h n List.mem_cons_self),
      ih fun m hm ↦ h m (.tail _ hm)]
    rfl

/-- A run whose members are no runs stands for its members in the same way when they are spread
out. -/
theorem parts_spread (h : isRun n = true → ∀ m ∈ n.children, isRun m = false) :
    parts (spread n) = (parts n).map spread := by
  cases hrun : isRun n with
  | false =>
    rw [parts_of_not_isRun hrun, parts_of_not_isRun (isRun_spread n ▸ hrun)]
    rfl
  | true =>
    have hchildren : (spread n).children = n.children.map spread :=
      (branch_spread n .children).trans (spreadAll_of_not_isRun (h hrun))
    rw [parts, parts, isRun_spread, hrun, if_pos rfl, if_pos rfl, hchildren, postBlank, info_spread]
    rcases List.eq_nil_or_concat n.children with hnil | ⟨init, l, hinit⟩
    · rw [hnil]
      rfl
    · rw [hinit, List.concat_eq_append, List.map_append, List.map_singleton,
        List.modifyLast_concat, List.modifyLast_concat, List.map_append, List.map_singleton,
        spread_withBlank]

theorem spreadAll_eq (h : ∀ e ∈ es, isRun e = true → IsFormed e) :
    spreadAll es = (es.flatMap parts).map spread := by
  induction es with
  | nil => rfl
  | cons e es ih =>
    have hparts := parts_spread fun hrun _ hm ↦ (h e List.mem_cons_self hrun).isRun_member hm
    rw [spreadAll, hparts, ih fun k hk ↦ h k (.tail _ hk), List.flatMap_cons, List.map_append]

/-- Where all runs are well-formed, what they stand for is spread out. -/
theorem branch_spread_of_isFormed {b : Branch} (h : ∀ m ∈ n.branch b, isRun m = true → IsFormed m) :
    (spread n).branch b = ((n.branch b).flatMap parts).map spread := by
  rw [branch_spread, spreadAll_eq h]

theorem isSome_spread (n : Node) :
    (spread n).tag.isSome = n.tag.isSome ∧ (spread n).caption.isSome = n.caption.isSome := by
  obtain ⟨info, children, title, tag, caption⟩ := n
  cases tag <;> cases caption <;> exact ⟨rfl, rfl⟩

/-- Where there are no runs, nothing is spread out. -/
theorem spread_eq_self (h : ∀ k ∈ n.visit, isRun k = false) : spread n = n := by
  induction n using Node.induction with
  | step n ih =>
    obtain ⟨-, hbelow⟩ := forall_mem_visit_iff.mp h
    refine eq_of_branch_eq (info_spread n) (fun b ↦ ?_) (isSome_spread n).1 (isSome_spread n).2
    have hself : (n.branch b).map spread = (n.branch b).map id :=
      List.map_congr_left fun m hm ↦ ih b m hm (hbelow b m hm)
    rw [branch_spread, spreadAll_of_not_isRun fun m hm ↦ hbelow b m hm m (mem_visit_self m), hself,
      List.map_id]

/-! ## Wrapped trees -/

/-- The space after a node that is no run makes no difference. -/
theorem isMerged_withoutBlank (hrun : isRun n = false) (h : IsMerged n) :
    IsMerged n.withoutBlank := by
  have hbranch := branch_withoutBlank n
  obtain ⟨⟨-, hopens, hmaximal⟩, hbelow⟩ := forall_mem_visit_iff.mp h
  refine forall_mem_visit_iff.mpr ⟨⟨fun hrun' ↦ ?_, fun _ b ↦ ?_, fun b ↦ ?_⟩, fun b ↦ ?_⟩
  · rw [show isRun n.withoutBlank = isRun n from rfl, hrun] at hrun'
    cases hrun'
  · exact hbranch b ▸ hopens hrun b
  · exact hbranch b ▸ hmaximal b
  · exact hbranch b ▸ hbelow b

theorem isChain_of_not_isRun (h : ∀ n ∈ ns, isRun n = false) : ns.IsChain IsMaximal := by
  induction ns with
  | nil => exact .nil
  | cons n ns ih =>
    refine List.isChain_cons.mpr ⟨fun m _ hrun ↦ ?_, ih fun m hm ↦ h m (.tail _ hm)⟩
    rw [h n List.mem_cons_self] at hrun
    cases hrun

/-- A run of merged members is merged. -/
theorem IsOpenRun.isMerged_close {last : Node} {earlier : List Node} (h : IsOpenRun last earlier)
    (hloose : ∀ m ∈ last :: earlier, m.info.loose = [])
    (hmerged : ∀ m ∈ last :: earlier, isRun m = false ∧ IsMerged m) :
    IsMerged (close last earlier) := by
  obtain ⟨⟨hnot, hlast⟩, hearlier⟩ := List.forall_mem_cons.mp hmerged
  have hformed := h.isFormed_close hloose
  refine forall_mem_visit_iff.mpr ⟨⟨fun _ ↦ hformed, nofun, fun b ↦ ?_⟩, fun b m hm ↦ ?_⟩
  · cases b with
    | children => exact isChain_of_not_isRun fun m hm ↦ hformed.isRun_member hm
    | title | tag | caption => exact .nil
  · cases b with
    | children =>
      rcases List.mem_append.mp hm with hm | hm
      · exact (hearlier m (List.mem_reverse.mp hm)).2
      · exact List.mem_singleton.mp hm ▸ isMerged_withoutBlank hnot hlast
    | title | tag | caption => cases hm

section

variable (h : Leaves n n') (hn : n.isProper = true) (hruns : ∀ k ∈ n.visit, isRun k = false)

include h hn hruns

/-- Of a tree without runs the branches are left with their runs wrapped, and what is wrapped holds
no loose values and no run. -/
theorem Leaves.exists_wrap_of_no_runs :
    ∃ e : Node, n' = wrap e ∧ (∀ b, List.Forall₂ Leaves (n.branch b) (e.branch b)) ∧
      (∀ b, ∀ x ∈ e.branch b, x.info.loose = []) ∧ (∀ b, ∀ x ∈ e.branch b, isRun x = false) ∧
      e.tag.isSome = n.tag.isSome ∧ e.caption.isSome = n.caption.isSome := by
  obtain ⟨hself, hbelow⟩ := forall_mem_visit_iff.mp hruns
  have hproper := ((isProper_iff n).mp hn).2
  obtain ⟨e, rfl, hall, hsome⟩ := h.exists_wrap hn hself
  refine ⟨e, rfl, hall, fun b ↦ forall_mem_of_forall₂ (hall b) fun m hm x hx ↦ ?_,
    fun b ↦ forall_mem_of_forall₂ (hall b) fun m hm x hx ↦ ?_, hsome⟩
  · exact loose_eq_nil (hx.isProper (hproper b m hm))
  · exact (isRun_congr hx.info).trans (hbelow b m hm m (mem_visit_self m))

/-- Spreading out all runs undoes wrapping them. -/
theorem Leaves.spread_eq : spread n' = n := by
  induction n using Node.induction generalizing n' with
  | step n ih =>
    obtain ⟨-, hbelow⟩ := forall_mem_visit_iff.mp hruns
    have hproper := ((isProper_iff n).mp hn).2
    obtain ⟨e, rfl, hall, hloose, hnot, htag, hcaption⟩ := h.exists_wrap_of_no_runs hn hruns
    have hinfo : (wrap e).info = n.info := h.info
    have hsome := isSome_spread (wrap e)
    refine eq_of_branch_eq ((info_spread _).trans hinfo) (fun b ↦ ?_) (hsome.1.trans ?_)
      (hsome.2.trans ?_)
    · have hspread : List.Forall₂ (fun m x ↦ m = spread x) (n.branch b) (e.branch b) :=
        forall₂_imp_of_mem (hall b) fun m hm x hx ↦
          (ih b m hm hx (hproper b m hm) (hbelow b m hm)).symm
      have hmerges := (merges_merge (e.branch b)).1
      rw [branch_spread, branch_wrap, spreadAll_eq fun k ↦ hmerges.isFormed (hloose b) (hnot b),
        hmerges.flatMap_parts (hloose b) (hnot b)]
      have heq := List.forall₂_map_right_iff.mpr hspread
      rw [List.forall₂_eq_eq_eq] at heq
      exact heq.symm
    · rw [wrap, Option.isSome_map, htag]
    · rw [wrap, Option.isSome_map, hcaption]

/-- The runs that are wrapped are well-formed and as long as can be, and nothing outside of them
opens one. -/
theorem Leaves.isMerged : IsMerged n' := by
  induction n using Node.induction generalizing n' with
  | step n ih =>
    obtain ⟨hself, hbelow⟩ := forall_mem_visit_iff.mp hruns
    have hproper := ((isProper_iff n).mp hn).2
    have hrun : isRun n' = false := (isRun_congr h.info).trans hself
    obtain ⟨e, rfl, hall, hloose, hnot, -, -⟩ := h.exists_wrap_of_no_runs hn hruns
    have hmerged : ∀ b, ∀ x ∈ e.branch b, IsMerged x := fun b ↦ forall_mem_of_forall₂ (hall b)
      fun m hm x hx ↦ ih b m hm hx (hproper b m hm) (hbelow b m hm)
    have hmerges := fun b ↦ (merges_merge (e.branch b)).1
    refine forall_mem_visit_iff.mpr ⟨⟨fun h ↦ ?_, fun _ b m hm ↦ ?_, fun b ↦ ?_⟩, fun b m hm ↦ ?_⟩
    · rw [hrun] at h
      cases h
    · rw [branch_wrap] at hm
      rcases (hmerges b).mem_cases hm with ⟨-, hopens⟩ | ⟨last, earlier, rfl, -⟩
      · exact hopens
      · rfl
    · rw [branch_wrap]
      exact (hmerges b).isChain (hloose b) (hnot b)
    · rw [branch_wrap] at hm
      rcases (hmerges b).mem_cases hm with ⟨hm, -⟩ | ⟨last, earlier, rfl, hopen, hmem⟩
      · exact hmerged b m hm
      · exact hopen.isMerged_close (fun k hk ↦ hloose b k (hmem k hk))
          fun k hk ↦ ⟨hnot b k (hmem k hk), hmerged b k (hmem k hk)⟩

end

/-! ## Wrapping again -/

/-- A run stands for its members, with other space after the last one. -/
theorem mem_parts_of_isRun (h : isRun n = true) {m : Node} :
    (m ∈ parts n → ∃ k ∈ n.children, ∃ blank, m = k.withBlank blank) ∧
      (m ∈ n.children → ∃ blank, m.withBlank blank ∈ parts n) := by
  rw [parts, if_pos h]
  rcases List.eq_nil_or_concat n.children with hnil | ⟨init, l, hinit⟩
  · simp [hnil, List.modifyLast, List.modifyLast.go]
  · rw [hinit, List.concat_eq_append, List.modifyLast_concat]
    simp only [List.mem_append, List.mem_singleton]
    refine ⟨fun hm ↦ hm.elim (fun hm ↦ ⟨m, .inl hm, m.postBlank, (withBlank_postBlank m).symm⟩)
      fun hm ↦ ⟨l, .inr rfl, n.postBlank, hm⟩, fun hm ↦ hm.elim (fun hm ↦ ?_) fun hm ↦ ?_⟩
    · exact ⟨m.postBlank, .inl ((withBlank_postBlank m).symm ▸ hm)⟩
    · exact ⟨n.postBlank, .inr (by rw [hm])⟩

theorem isProper_withBlank (n : Node) (blank : Int) :
    (n.withBlank blank).isProper = n.isProper := by cases n; rfl

/-- What is spread out in a sequence is left as it was if each of its nodes is. -/
theorem eq_of_forall₂_map {R : Node → Node → Prop} {f : Node → Node}
    (h : List.Forall₂ R (ns.map f) es) (hleft : ∀ k ∈ ns, ∀ y, R (f k) y → y = k) : es = ns := by
  have heq : List.Forall₂ (fun k y ↦ k = y) ns es :=
    forall₂_imp_of_mem (List.forall₂_map_left_iff.mp h) fun k hk y hy ↦ (hleft k hk y hy).symm
  rw [List.forall₂_eq_eq_eq] at heq
  exact heq.symm

theorem isProper_spread_of_mem {t k : Node} {b : Branch} (hproper : (spread t).isProper = true)
    (hformed : ∀ m ∈ t.branch b, isRun m = true → IsFormed m)
    (hk : k ∈ (t.branch b).flatMap parts) : (spread k).isProper = true := by
  refine ((isProper_iff _).mp hproper).2 b (spread k) ?_
  rw [branch_spread_of_isFormed hformed]
  exact List.mem_map_of_mem hk

/-- Wrapping the runs of what a merged node spreads out to leaves the node if it does so below. -/
theorem eq_of_leaves_spread_of_branch {t : Node} (hrun : isRun t = false)
    (hproper : (spread t).isProper = true) (hopens : ∀ b, ∀ m ∈ t.branch b, opens m = false)
    (hmaximal : ∀ b, (t.branch b).IsChain IsMaximal)
    (hformed : ∀ b, ∀ m ∈ t.branch b, isRun m = true → IsFormed m)
    (hbranch : ∀ b, ∀ k ∈ (t.branch b).flatMap parts, ∀ y, Leaves (spread k) y → y = k)
    (h : Leaves (spread t) n') : n' = t := by
  have hloose : ∀ b, ∀ m ∈ t.branch b, isRun m = true → ∀ k ∈ m.children, k.info.loose = [] := by
    intro b m hm hmrun k hk
    obtain ⟨blank, hpart⟩ := (mem_parts_of_isRun hmrun).2 hk
    have hmem := List.mem_flatMap.mpr ⟨m, hm, hpart⟩
    have hnone := loose_eq_nil (isProper_spread_of_mem hproper (hformed b) hmem)
    rwa [info_spread] at hnone
  obtain ⟨e, rfl, hall, htag, hcaption⟩ := h.exists_wrap hproper ((isRun_spread t).trans hrun)
  have hedited : ∀ b, e.branch b = (t.branch b).flatMap parts := by
    intro b
    have hleft := hall b
    rw [branch_spread_of_isFormed (hformed b)] at hleft
    exact eq_of_forall₂_map hleft (hbranch b)
  have hinfo : (wrap e).info = t.info := h.info.trans (info_spread t)
  refine eq_of_branch_eq hinfo (fun b ↦ ?_) ?_ ?_
  · rw [branch_wrap, hedited b]
    exact (Merges.of_parts (hformed b) (hloose b) (hopens b) (hmaximal b)).merge_eq
  · rw [wrap, Option.isSome_map, htag, (isSome_spread t).1]
  · rw [wrap, Option.isSome_map, hcaption, (isSome_spread t).2]

/-- Wrapping the runs of what a merged tree spreads out to leaves the tree, whatever space comes
after it. -/
theorem eq_of_leaves_spread {t : Node} (hmerged : IsMerged t)
    (hproper : ∀ x ∈ parts t, (spread x).isProper = true) :
    ∀ x ∈ parts t, ∀ blank n', Leaves (spread (x.withBlank blank)) n' → n' = x.withBlank blank := by
  induction t using Node.induction with
  | step t ih =>
    obtain ⟨⟨hformed, hopens, hmaximal⟩, hbelow⟩ := forall_mem_visit_iff.mp hmerged
    intro x hx blank n' hleaves
    have hxproper := hproper x hx
    cases hrun : isRun t with
    | true =>
      -- the members are no runs, so each of them is all that it stands for
      obtain ⟨k, hk, other, rfl⟩ := (mem_parts_of_isRun hrun).1 hx
      have hself := parts_of_not_isRun ((hformed hrun).isRun_member hk)
      have hkproper : (spread k).isProper = true := by
        rwa [spread_withBlank, isProper_withBlank] at hxproper
      exact ih .children k hk (hbelow .children k hk) (by simpa [hself]) k (by simp [hself])
        blank n' hleaves
    | false =>
      rw [parts_of_not_isRun hrun] at hx
      obtain rfl := List.mem_singleton.mp hx
      have hformedBelow : ∀ b, ∀ m ∈ x.branch b, isRun m = true → IsFormed m :=
        fun b m hm ↦ (hbelow b m hm m (mem_visit_self m)).formed
      have hparts : ∀ b, ∀ m ∈ x.branch b, ∀ k ∈ parts m, (spread k).isProper = true :=
        fun b m hm k hk ↦ isProper_spread_of_mem hxproper (hformedBelow b)
          (List.mem_flatMap.mpr ⟨m, hm, hk⟩)
      have hspread : (spread (x.withBlank blank)).isProper = true := by
        rwa [spread_withBlank, isProper_withBlank]
      refine eq_of_leaves_spread_of_branch hrun hspread (fun b ↦ ?_) (fun b ↦ ?_) (fun b ↦ ?_)
        (fun b k hk y hy ↦ ?_) hleaves
      · exact branch_withBlank x blank b ▸ hopens hrun b
      · exact branch_withBlank x blank b ▸ hmaximal b
      · exact branch_withBlank x blank b ▸ hformedBelow b
      · rw [branch_withBlank] at hk
        obtain ⟨m, hm, hk⟩ := List.mem_flatMap.mp hk
        have hleft := ih b m hm (hbelow b m hm) (hparts b m hm) k hk k.postBlank y
        rw [withBlank_postBlank] at hleft
        exact hleft hy

/-- The math runs of a document that has none yet can be wrapped. The wrapped document is the only
one that spreads out to the document and whose runs are well-formed and as long as can be, with
nothing outside of them that opens one. It is the document itself if no sequence there holds
anything that opens a run, and only then. -/
theorem merging_wraps_longest_runs (doc : Node) (hdoc : doc.isProper = true)
    (hruns : ∀ k ∈ doc.visit, isRun k = false) :
    ∃ merged, mergeTree? doc = .ok merged ∧ spread merged = doc ∧ IsMerged merged ∧
      (∀ tree, spread tree = doc → IsMerged tree → tree = merged) ∧
      (merged = doc ↔ ∀ k ∈ doc.visit, ∀ b, ∀ m ∈ k.branch b, opens m = false) := by
  obtain ⟨merged, hmerged⟩ := exists_mergeTree? hdoc
  have hleaves : Leaves doc merged := edit?_of_mergeTree? hmerged
  have hunique : ∀ tree, spread tree = doc → IsMerged tree → tree = merged := by
    rintro tree rfl htree
    have hnot : isRun tree = false := (isRun_spread tree).symm.trans (hruns _ (mem_visit_self _))
    have hself := parts_of_not_isRun hnot
    have heq := eq_of_leaves_spread htree (by simpa [hself]) tree (by simp [hself]) tree.postBlank
    rw [withBlank_postBlank] at heq
    exact (heq merged hleaves).symm
  have hshape := hleaves.isMerged hdoc hruns
  refine ⟨merged, hmerged, hleaves.spread_eq hdoc hruns, hshape, hunique, ?_, fun hnone ↦ ?_⟩
  · rintro rfl k hk
    exact (hshape k hk).opens (hruns k hk)
  · have hself : IsMerged doc := by
      refine fun k hk ↦ ⟨fun hrun ↦ ?_, fun _ ↦ hnone k hk, fun b ↦ ?_⟩
      · rw [hruns k hk] at hrun
        cases hrun
      · obtain ⟨o, ho, rfl⟩ := List.mem_map.mp hk
        refine isChain_of_not_isRun fun m hm ↦ hruns m (mem_visit_of_mem_occurrences ho ?_)
        exact mem_visit_of_mem_branch hm (mem_visit_self m)
    exact (hunique doc (spread_eq_self hruns) hself).symm

/-- A heading whose title holds a formula with a square, and in the square another formula. -/
def squaredTitle : Node := ⟨⟨.unknown, 0, none, [], .document [], []⟩, [heading], [], none, none⟩
where
  heading : Node :=
    ⟨⟨.unknown, 0, none, [], .heading ⟨1, none, none, none, false, []⟩, []⟩, [],
      [formula "$x$", square], none, none⟩
  formula (value : String) : Node := .inline .unknown 0 (.latexFragment value) []
  square : Node :=
    .inline .unknown 1 .superscript [formula "$y$", .inline .unknown 0 (.text "2") []]

theorem merging_wraps_squaredTitle :
    squaredTitle.isProper = true ∧ (∀ k ∈ squaredTitle.visit, isRun k = false) ∧
      ∃ merged, mergeTree? squaredTitle = .ok merged ∧ spread merged = squaredTitle ∧
        IsMerged merged ∧ merged ≠ squaredTitle := by
  have hruns : ∀ k ∈ squaredTitle.visit, isRun k = false := by decide
  obtain ⟨merged, hmerged, hspread, hshape, -, hiff⟩ :=
    merging_wraps_longest_runs squaredTitle (by decide) hruns
  refine ⟨by decide, hruns, merged, hmerged, hspread, hshape, fun hself ↦ ?_⟩
  have hnone := hiff.mp hself squaredTitle.heading (by decide) .title (squaredTitle.formula "$x$")
    (by decide)
  revert hnone
  decide

end Typeset.MathRun

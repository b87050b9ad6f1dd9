import Typeset.Proofs.CrossReferences
import Typeset.Proofs.MathRuns
import Typeset.Proofs.Render.Quiet

/-!
# What is found in a document that has gained a quiet definition

No link finds a quiet node, and no block of code is one, so that all searches end where they ended
before: at the same nodes, in their new places. Nodes that are quiet in a document stay so when it
is prepared.
-/

namespace Typeset

open Node

variable {config : Config} {ix ix' : LinkIndex} {label : String} {n n' d e : Node}

/-! ## Quiet nodes are not found -/

/-- Nothing but a name or a key of its own lets links find a node. -/
theorem Node.test_eq_false (hname : n.info.name = none) (hforces : n.forcesLabel = false)
    (kind path : String) : ∀ test ∈ linkTests kind path, test n = false := by
  have hothers := tests_of_forcesLabel hforces
  refine forall_mem_linkTests (fun t ↦ (hothers t).1) (fun t ↦ (hothers t).2.1)
    (fun t ↦ (hothers t).2.2.1) (fun t ↦ (hothers t).2.2.2.1) (fun t ↦ (hothers t).2.2.2.2)
    (fun t ↦ ?_) kind path
  rw [isNamed, hname]
  exact Bool.and_false _

namespace Node.IsQuiet

theorem forcesLabel_eq_false (h : n.IsQuiet config ix) : n.forcesLabel = false := by
  have hquiet := h.element
  cases he : n.element with
  | heading | target | radioTarget =>
    rw [he] at hquiet
    cases hquiet
  | _ => rw [forcesLabel, he]

theorem definesFootnote_eq_false (h : n.IsQuiet config ix) (l : String) :
    n.definesFootnote l = false := by
  have hquiet := h.element
  cases he : n.element with
  | footnoteDefinition =>
    rw [he] at hquiet
    cases hquiet
  | _ => rw [definesFootnote, he]

theorem codeBlock?_eq_none (h : n.IsQuiet config ix) : n.element.codeBlock? = none := by
  have hquiet := h.element
  cases he : n.element with
  | codeBlock =>
    rw [he] at hquiet
    cases hquiet
  | _ => rfl

end Node.IsQuiet

namespace Node.IsQuietNote

variable (h : d.IsQuietNote config ix label)

include h

/-- What the definition has, and all quiet nodes, all nodes of it have. -/
theorem forall_mem_visit {P : Node → Prop} (hd : P d) (hquiet : ∀ k, k.IsQuiet config ix → P k) :
    ∀ k ∈ d.visit, P k :=
  forall_mem_visit_iff.mpr ⟨hd, fun b m hm k hk ↦ hquiet k (h.inside b m hm k hk)⟩

theorem test_eq_false (kind path : String) :
    ∀ k ∈ d.visit, ∀ test ∈ linkTests kind path, test k = false := by
  refine h.forall_mem_visit ?_ fun k hk ↦ k.test_eq_false hk.name hk.forcesLabel_eq_false kind path
  exact d.test_eq_false h.name (by rw [forcesLabel, h.element]) kind path

theorem definesFootnote_eq_false {l : String} (hl : l ≠ label) :
    ∀ k ∈ d.visit, k.definesFootnote l = false := by
  refine h.forall_mem_visit ?_ fun k hk ↦ hk.definesFootnote_eq_false l
  rw [definesFootnote, h.element]
  exact beq_eq_false_iff_ne.mpr hl.symm

theorem codeBlock?_eq_none : ∀ k ∈ d.visit, k.element.codeBlock? = none :=
  h.forall_mem_visit (by rw [h.element]; rfl) fun _ hk ↦ hk.codeBlock?_eq_none

end Node.IsQuietNote

/-! ## Indexes -/

namespace Insertion

variable {i : Insertion} {o o' : Occurrence} {tree tree' : Node}

theorem Pairs.isKeyedLike (h : i.Pairs o o') : o.node.IsKeyedLike o'.node where
  name := by rw [h.info]
  element := .inl h.element
  title := by rw [show o'.node.title = o.node.title from h.twins.branch_eq (b := .title) nofun]

/-- A block of code is the same in its new place. -/
theorem Pairs.listing? (h : i.Pairs o o') :
    o'.listing? = o.listing?.map (CodeEntry.relocated i.move) := by
  rw [Occurrence.listing?, Occurrence.listing?, h.element, Option.map_map]
  refine congrArg (fun f ↦ Option.map f _) (funext fun b ↦ ?_)
  simp only [Function.comp, CodeEntry.relocated, CodeEntry.ofOccurrence, h.loose?, h.place]

section

variable (h : i.Twins (.ofRoot 0) tree tree') (htree : tree.isWellTyped = true)
  (htree' : tree'.isWellTyped = true) (hspares : tree.Spares label)

include h htree htree' hspares

theorem Twins.couples :
    Matched (i.Couples label) i.IsNew (tree.occurrences (.ofRoot 0))
      (tree'.occurrences (.ofRoot 0)) := by
  refine h.matched.imp_of_mem fun o ho o' ho' hpair ↦ ⟨hpair, ?_, ?_, ?_⟩
  · exact isWellTyped_of_mem_occurrences htree ho
  · exact isWellTyped_of_mem_occurrences htree' ho'
  · exact fun m hm ↦ hspares m (mem_visit_of_mem_occurrences ho hm)

/-- What is found in a tree with a quiet definition corresponds to what was found without it. -/
theorem Twins.reindexes (hnote : i.tree.IsQuietNote config ix label) :
    i.Reindexes label tree.index tree'.index := by
  have hmatched := h.couples htree htree' hspares
  have hproper := isProper_of_isWellTyped htree
  have hproper' := isProper_of_isWellTyped htree'
  have hrelocates : LinkIndex.Relocates i.move tree.index tree'.index := by
    refine ⟨?_, LinkIndex.take_numberedCount_add _ _ _, LinkIndex.take_numberedCount_add _ _ _⟩
    rw [LinkIndex.codeBlocks_add, LinkIndex.codeBlocks_add]
    refine hmatched.filterMap_eq (fun _ _ hpair ↦ hpair.listing?) fun o ho ↦ ?_
    rw [Occurrence.listing?, hnote.codeBlock?_eq_none _ ho]
    rfl
  refine ⟨fun kind path ↦ ?_, fun l hl ↦ ?_, ?_, fun p ↦ ?_⟩
  · rw [target?_index hproper, target?_index hproper']
    refine hmatched.firstMatch? (fun test htest o o' hpair ↦ ?_) fun test htest o ho ↦ ?_
    · exact hpair.isKeyedLike.test_eq kind path test htest
    · exact hnote.test_eq_false kind path _ ho test htest
  · have hfinds := LinkIndex.finds_footnotes l
    rw [show tree.index.footnotes.lookup (.str l) = _ from find?_index hproper hfinds,
      show tree'.index.footnotes.lookup (.str l) = _ from find?_index hproper' hfinds]
    refine hmatched.find? (fun o o' hpair ↦ ?_) fun o ho ↦ ?_
    · rw [definesFootnote, definesFootnote, hpair.element]
    · exact hnote.definesFootnote_eq_false hl _ ho
  · exact hrelocates.codeLine fun _ _ _ _ heq ↦ move_injective heq
  · exact hrelocates.firstLine? fun _ _ heq ↦ move_injective heq

end

end Insertion

/-! ## Prepared documents -/

theorem Node.IsKeyedLike.explicitKey (h : n.IsKeyedLike n') (hn : n.isProper = true)
    (hn' : n'.isProper = true) : n'.explicitKey = n.explicitKey := by
  rcases h.element with he | ⟨⟨_, he⟩, _, he'⟩
  · rw [Node.explicitKey, Node.explicitKey, he, h.name, loose?_eq_none hn, loose?_eq_none hn']
  · rw [Node.explicitKey, Node.explicitKey, he, he', h.name]

/-- Links find nodes with the same keys in both indexes, and code labels stand for the same lines. -/
structure LinkIndex.Agree (ix ix' : LinkIndex) : Prop where
  key : ∀ kind path, (ix'.target? kind path).map (·.node.explicitKey) =
    (ix.target? kind path).map (·.node.explicitKey)
  codeLine : ∀ l origin, ix'.codeLine l origin = ix.codeLine l origin

theorem LinkIndex.Agree.trans {ix₁ ix₂ ix₃ : LinkIndex} (h : ix₁.Agree ix₂) (h' : ix₂.Agree ix₃) :
    ix₁.Agree ix₃ where
  key kind path := (h'.key kind path).trans (h.key kind path)
  codeLine l origin := (h'.codeLine l origin).trans (h.codeLine l origin)

theorem map_eq_of_optionRel {α β γ : Type} {R : α → β → Prop} {f : α → γ} {g : β → γ}
    (hf : ∀ a b, R a b → g b = f a) {x : Option α} {y : Option β} (h : Option.Rel R x y) :
    y.map g = x.map f := by
  cases h with
  | none => rfl
  | some hab => exact congrArg some (hf _ _ hab)

theorem Insertion.Reindexes.agree {i : Insertion} (h : i.Reindexes label ix ix') : ix.Agree ix' where
  key kind path := map_eq_of_optionRel (fun _ _ hcouples ↦ hcouples.explicitKey) (h.target kind path)
  codeLine := h.codeLine

theorem MathRun.Counterparts.isKeyedLike {doc : Node} {o o' : Occurrence}
    (h : MathRun.Counterparts doc o o') : o.node.IsKeyedLike o'.node :=
  MathRun.isKeyedLike_of_readsLike h.reads

section

variable {doc merged tree : Node}

/-- Cleaning the metadata changes nothing but what the document itself is. -/
theorem forall₂_occurrences_of_clean? (h : Metadata.clean? merged = .ok tree) :
    List.Forall₂ (fun o o' ↦ o.node.IsKeyedLike o'.node ∧ o'.node.kind = o.node.kind)
      (merged.occurrences (.ofRoot 0)) (tree.occurrences (.ofRoot 0)) := by
  have hsame : ∀ os : List Occurrence, List.Forall₂ (fun o o' : Occurrence ↦
      o.node.IsKeyedLike o'.node ∧ o'.node.kind = o.node.kind) os os :=
    fun _ ↦ List.forall₂_same.mpr fun _ _ ↦ ⟨⟨rfl, .inl rfl, rfl⟩, rfl⟩
  rcases Metadata.eq_or_of_clean? h with rfl | ⟨properties, properties', he, rfl, -⟩
  · exact hsame _
  · rw [occurrences_eq, occurrences_eq]
    refine .cons ⟨⟨rfl, .inr ⟨⟨_, he⟩, properties', rfl⟩, rfl⟩, ?_⟩ (hsame _)
    rw [Node.kind, Node.kind, he]
    rfl

theorem codeBlocks_of_clean? (h : Metadata.clean? merged = .ok tree) :
    tree.index.codeBlocks = merged.index.codeBlocks := by
  rcases Metadata.eq_or_of_clean? h with rfl | ⟨properties, properties', he, rfl, -⟩
  · rfl
  · have hnone : ∀ {n : Node} {properties}, n.element = .document properties →
        Occurrence.listing? ⟨.ofRoot 0, n⟩ = none := fun he ↦ by
      rw [Occurrence.listing?, he]
      rfl
    rw [LinkIndex.codeBlocks_add, LinkIndex.codeBlocks_add, occurrences_eq, occurrences_eq,
      List.filterMap_cons, List.filterMap_cons, hnone he, hnone rfl]
    rfl

/-- In a document that has been prepared links find the nodes that they found before. -/
theorem LinkIndex.agree_of_prepare? (hdoc : doc.isWellTyped = true)
    (htree : prepare? doc = .ok tree) : doc.index.Agree tree.index := by
  obtain ⟨merged, hmerged, hclean⟩ := exists_of_bind_eq_ok htree
  have hleaves : MathRun.Leaves doc merged := MathRun.edit?_of_mergeTree? hmerged
  have hproper := isProper_of_isWellTyped hdoc
  have hproper' := isProper_of_isWellTyped (isWellTyped_of_prepare? hdoc htree)
  have hmatched := hleaves.matched hdoc
  have hcleaned := forall₂_occurrences_of_clean? hclean
  refine ⟨fun kind path ↦ ?_, fun l origin ↦ ?_⟩
  · have hkeyed : Matched (fun o o' ↦ o.node.IsKeyedLike o'.node) MathRun.IsRunAt
        (doc.occurrences (.ofRoot 0)) (tree.occurrences (.ofRoot 0)) := by
      refine hmatched.trans_forall₂ hcleaned (fun o u o' hou huo' ↦ ?_) fun u o' hu huo' ↦ ?_
      · exact hou.isKeyedLike.trans huo'.1
      · exact huo'.2.trans hu
    have hkeys : Matched (fun o o' ↦ o.node.IsKeyedLike o'.node ∧
        o'.node.explicitKey = o.node.explicitKey) MathRun.IsRunAt
        (doc.occurrences (.ofRoot 0)) (tree.occurrences (.ofRoot 0)) :=
      hkeyed.imp_of_mem fun o ho o' ho' h ↦ ⟨h, h.explicitKey
        (isProper_of_mem_occurrences hproper ho) (isProper_of_mem_occurrences hproper' ho')⟩
    rw [target?_index hproper, target?_index hproper']
    refine map_eq_of_optionRel (fun _ _ h ↦ h.2) (hkeys.firstMatch?
      (fun test htest o o' h ↦ h.1.test_eq kind path test htest) fun test htest o ho ↦ ?_)
    exact (MathRun.isBlind_linkTests htest).eq_false _ ho
  · have hrelocates : LinkIndex.Relocates id merged.index tree.index := by
      refine ⟨?_, LinkIndex.take_numberedCount_add _ _ _, LinkIndex.take_numberedCount_add _ _ _⟩
      rw [codeBlocks_of_clean? hclean]
      exact (List.map_id _).symm
    rw [hrelocates.codeLine fun _ _ _ _ heq ↦ heq]
    exact MathRun.codeLine_of_matched hmatched l origin

end

/-! ## Quiet nodes in prepared documents -/

theorem Element.isQuiet_congr (h : ix.Agree ix') (origin : Origin) (e : Element) :
    e.isQuiet config ix' origin = e.isQuiet config ix origin := by
  have hany : ∀ kind path, (ix'.target? kind path).any
      (fun target ↦ target.node.explicitKey.any (!·.isEmpty)) =
        (ix.target? kind path).any fun target ↦ target.node.explicitKey.any (!·.isEmpty) := by
    intro kind path
    have hmap := congrArg (Option.any fun key ↦ Option.any (!·.isEmpty) key) (h.key kind path)
    rwa [Option.any_map, Option.any_map] at hmap
  cases e with
  | link kind path => rw [isQuiet, isQuiet, hany, h.codeLine]
  | _ => rfl

theorem Node.IsQuiet.congr (h : n.IsQuiet config ix) (hix : ix.Agree ix') :
    n.IsQuiet config ix' :=
  { h with element := (Element.isQuiet_congr hix _ _).trans h.element }

theorem Node.IsQuietNote.congr (h : d.IsQuietNote config ix label) (hix : ix.Agree ix') :
    d.IsQuietNote config ix' label :=
  { h with inside := fun b m hm k hk ↦ (h.inside b m hm k hk).congr hix }

namespace MathRun

/-- A member of a run is as quiet without the space after it. -/
theorem isQuiet_withoutBlank (hn : n.isProper = true) (h : n.IsQuiet config ix) :
    n.withoutBlank.IsQuiet config ix := by
  rw [withoutBlank_eq (loose_eq_nil hn)]
  exact ⟨h.name, h.caption, h.blocks, h.element⟩

theorem isQuiet_close {last : Node} {earlier : List Node} :
    (close last earlier).IsQuiet config ix where
  name := rfl
  caption := nofun
  blocks := nofun
  element := rfl

theorem isQuiet_visit_close {last : Node} {earlier : List Node}
    (hlast : last.isProper = true ∧ ∀ k ∈ last.visit, k.IsQuiet config ix)
    (hearlier : ∀ n ∈ earlier, ∀ k ∈ n.visit, k.IsQuiet config ix) :
    ∀ k ∈ (close last earlier).visit, k.IsQuiet config ix := by
  refine forall_mem_visit_iff.mpr ⟨isQuiet_close, fun b m hm ↦ ?_⟩
  obtain ⟨-, hm | rfl⟩ := mem_branch_close hm
  · exact hearlier m hm
  · obtain ⟨hself, hbelow⟩ := forall_mem_visit_iff.mp hlast.2
    refine forall_mem_visit_iff.mpr ⟨isQuiet_withoutBlank hlast.1 hself, fun b ↦ ?_⟩
    rw [branch_withoutBlank]
    exact hbelow b

theorem isQuiet_visit_merge {ns : List Node}
    (h : ∀ n ∈ ns, n.isProper = true ∧ ∀ k ∈ n.visit, k.IsQuiet config ix) :
    ∀ m ∈ merge ns, ∀ k ∈ m.visit, k.IsQuiet config ix := by
  have hclose := fun (last : Node) (earlier : List Node)
      (hlast : last.isProper = true ∧ ∀ k ∈ last.visit, k.IsQuiet config ix)
      (hearlier : ∀ n ∈ earlier, n.isProper = true ∧ ∀ k ∈ n.visit, k.IsQuiet config ix) ↦
    And.intro (isProper_close hlast.1 fun k hk ↦ (hearlier k hk).1)
      (isQuiet_visit_close hlast fun k hk ↦ (hearlier k hk).2)
  exact fun m hm ↦ ((forall_mem_merge hclose h).1 m hm).2

/-- Wrapped runs are no rows and no cells. -/
theorem not_row_of_merge {ns es : List Node}
    (hns : ∀ n ∈ ns, n.kind ≠ .tableRow ∧ n.kind ≠ .tableCell) (h : List.Forall₂ Leaves ns es) :
    ∀ m ∈ merge es, m.kind ≠ .tableRow ∧ m.kind ≠ .tableCell := by
  refine (forall_mem_merge (fun _ _ _ _ ↦ ⟨nofun, nofun⟩) ?_).1
  refine forall_mem_of_forall₂ h fun n hn e he ↦ ?_
  rw [kind, element, he.info]
  exact hns n hn

/-- Wrapping the runs of a quiet tree leaves a quiet one. -/
theorem Leaves.isQuiet (h : Leaves n n') (hn : n.isProper = true)
    (hquiet : ∀ k ∈ n.visit, k.IsQuiet config ix) : ∀ k ∈ n'.visit, k.IsQuiet config ix := by
  induction n using Node.induction generalizing n' with
  | step n ih =>
    cases hrun : isRun n with
    | true =>
      obtain rfl := h.eq_of_isRun hrun
      exact hquiet
    | false =>
      obtain ⟨hself, hbelow⟩ := forall_mem_visit_iff.mp hquiet
      have hproper := ((isProper_iff n).mp hn).2
      have hinfo := h.info
      have hfigure := h.isFigure hn
      have hcaption := h.hasCaption hn
      obtain ⟨e, rfl, hall, -⟩ := h.exists_wrap hn hrun
      refine forall_mem_visit_iff.mpr ⟨⟨?_, fun hlabelled ↦ ?_, fun hcontent ↦ ?_, ?_⟩, fun b ↦ ?_⟩
      · rw [hinfo]
        exact hself.name
      · rw [hcaption]
        refine hself.caption ?_
        rwa [mayBeLabelled, hfigure, kind, element, hinfo] at hlabelled
      · rw [kind, element, hinfo] at hcontent
        exact not_row_of_merge (hself.blocks hcontent) (hall .children)
      · rw [element, origin, hinfo]
        exact hself.element
      · rw [branch_wrap]
        refine isQuiet_visit_merge (forall_mem_of_forall₂ (hall b) fun k hk x hx ↦ ?_)
        exact ⟨hx.isProper (hproper b k hk), ih b k hk hx (hproper b k hk) (hbelow b k hk)⟩

/-- A quiet definition is one when it is prepared. -/
theorem Leaves.isQuietNote (h : Leaves d e) (hd : d.IsQuietNote config ix label) :
    e.IsQuietNote config ix label := by
  have hproper := isProper_of_isWellTyped hd.isWellTyped
  have hbelow := ((isProper_iff d).mp hproper).2
  have hrun : isRun d = false := by
    rw [isRun, kind, hd.element]
    rfl
  have hinfo := h.info
  have htyped := h.isWellTyped hd.isWellTyped
  obtain ⟨x, rfl, hall, -⟩ := h.exists_wrap hproper hrun
  refine ⟨htyped, ?_, ?_, ?_, fun b ↦ ?_⟩
  · rw [element, hinfo]
    exact hd.element
  · rw [hinfo]
    exact hd.name
  · exact not_row_of_merge hd.blocks (hall .children)
  · rw [branch_wrap]
    refine isQuiet_visit_merge (forall_mem_of_forall₂ (hall b) fun k hk y hy ↦ ?_)
    exact ⟨hy.isProper (hbelow b k hk), hy.isQuiet (hbelow b k hk) (hd.inside b k hk)⟩

end MathRun

end Typeset

import Typeset.Proofs.Tree.Moved

/-!
# Prepared documents keep their types

What opens a math run is an inline object, and runs may stand wherever those may. Cleaning puts texts
in the place of texts. So a well-typed document is still well-typed when it has been prepared, and
the elements in it are those that were there before, but for runs and the document itself.
-/

namespace Typeset

open Node

namespace MathRun

variable {n n' : Node} {ns : List Node} {c : Content}

/-! ## Runs -/

/-- A node that opens a run stands among inline objects. -/
theorem eq_inlines_of_opens (hopens : opens n = true) (hadmits : c.admits n.kind = true) :
    c = .inlines := by
  unfold opens at hopens
  split at hopens
  · next he => cases c <;> simp_all [Content.admits, kind, Element.kind, Kind.isBlock]
  · next he => cases c <;> simp_all [Content.admits, kind, Element.kind, Kind.isBlock]
  · cases hopens

theorem isWellTyped_withoutBlank (h : n.isWellTyped = true) : n.withoutBlank.isWellTyped = true := by
  have hloose := loose_eq_nil (isProper_of_isWellTyped h)
  obtain ⟨hinfo, hbelow, htag, hcaption⟩ := (isWellTyped_iff n).mp h
  refine (isWellTyped_iff _).mpr ⟨?_, fun b m hm ↦ ?_, htag, hcaption⟩
  · simpa [NodeInfo.isWellTyped, NodeInfo.isProper, withoutBlank, hloose] using hinfo
  · refine hbelow b m ?_
    cases b <;> exact hm

/-- A run of well-typed inline objects is well-typed. -/
theorem isWellTyped_close {last : Node} {earlier : List Node}
    (h : ∀ m ∈ last :: earlier, Content.inlines.admits m.kind = true ∧ m.isWellTyped = true) :
    (close last earlier).isWellTyped = true := by
  obtain ⟨hlast, hearlier⟩ := List.forall_mem_cons.mp h
  have hloose := loose_eq_nil (isProper_of_isWellTyped hlast.2)
  have hfirst := info_isWellTyped (h _ (List.getLast_mem (List.cons_ne_nil last earlier))).2
  refine (isWellTyped_iff _).mpr ⟨?_, fun b m hm ↦ ?_, nofun, nofun⟩
  · -- the origin of the run is that of its first member
    simp only [NodeInfo.isWellTyped, Bool.and_eq_true] at hfirst
    simp only [NodeInfo.isWellTyped, NodeInfo.isProper, close, looseBlank, hloose,
      Bool.and_eq_true]
    exact ⟨⟨⟨⟨⟨rfl, trivial⟩, hfirst.1.1.1.2⟩, by decide⟩, rfl⟩, rfl⟩
  · obtain ⟨rfl, hm | rfl⟩ := mem_branch_close hm
    · exact hearlier m hm
    · exact ⟨hlast.1, isWellTyped_withoutBlank hlast.2⟩

/-- Wrapping the runs of a sequence leaves nodes that may stand there. -/
theorem areWellTyped_merge (h : ∀ n ∈ ns, c.admits n.kind = true ∧ n.isWellTyped = true) :
    ∀ m ∈ merge ns, c.admits m.kind = true ∧ m.isWellTyped = true := by
  by_cases hc : c = .inlines
  · subst hc
    refine (forall_mem_merge (fun last earlier hlast hearlier ↦ ?_) h).1
    exact ⟨rfl, isWellTyped_close (List.forall_mem_cons.mpr ⟨hlast, hearlier⟩)⟩
  · have hnone : ∀ n ∈ ns, opens n = false := fun n hn ↦
      Bool.eq_false_iff.mpr fun hopens ↦ hc (eq_inlines_of_opens hopens (h n hn).1)
    rwa [merge_eq_self hnone]

theorem areWellTyped_of_leaves {es : List Node}
    (hns : ∀ n ∈ ns, c.admits n.kind = true ∧ ∀ n', Leaves n n' → n'.isWellTyped = true)
    (h : List.Forall₂ Leaves ns es) :
    ∀ m ∈ es, c.admits m.kind = true ∧ m.isWellTyped = true := by
  induction h with
  | nil => exact fun m hm ↦ absurd hm List.not_mem_nil
  | @cons n e _ _ hleaves _ ih =>
    obtain ⟨hadmits, htyped⟩ := hns n List.mem_cons_self
    refine List.forall_mem_cons.mpr ⟨⟨?_, htyped e hleaves⟩, ih fun m hm ↦ hns m (.tail _ hm)⟩
    rwa [kind, element, hleaves.info]

/-- What is left of a well-typed tree when all runs are wrapped is well-typed. -/
theorem Leaves.isWellTyped (h : Leaves n n') (hn : n.isWellTyped = true) :
    n'.isWellTyped = true := by
  induction n using Node.induction generalizing n' with
  | step n ih =>
    cases hrun : isRun n with
    | true =>
      obtain rfl := h.eq_of_isRun hrun
      exact hn
    | false =>
      obtain ⟨hinfo, hbelow, htag, hcaption⟩ := (isWellTyped_iff n).mp hn
      have hsame := h.info
      obtain ⟨e, rfl, hall, hetag, hecaption⟩ :=
        h.exists_wrap (isProper_of_isWellTyped hn) hrun
      have hkind : (wrap e).kind = n.kind := by rw [kind, element, hsame]
      refine (isWellTyped_iff _).mpr ⟨hsame ▸ hinfo, fun b ↦ ?_, fun he ↦ ?_, fun he ↦ ?_⟩
      · rw [hkind, branch_wrap]
        refine areWellTyped_merge (areWellTyped_of_leaves (fun m hm ↦ ?_) (hall b))
        exact ⟨(hbelow b m hm).1, fun _ hleaves ↦ ih b m hm hleaves (hbelow b m hm).2⟩
      · rw [hkind]
        exact htag (by rwa [wrap, Option.isSome_map, hetag] at he)
      · rw [hkind]
        exact hcaption (by rwa [wrap, Option.isSome_map, hecaption] at he)

end MathRun

namespace Metadata

/-! ## Metadata -/

theorem areTexts_map_cleaned {properties : Attributes} (h : properties.areTexts = true) :
    Entries.areTexts (properties.map cleaned) = true := by
  obtain ⟨hnames, htexts⟩ := (Entries.areTexts_iff properties).mp h
  refine (Entries.areTexts_iff _).mpr ⟨?_, fun p hp ↦ ?_⟩
  · rw [List.map_map, show Prod.fst ∘ cleaned = Prod.fst from funext fst_cleaned]
    exact hnames
  · obtain ⟨⟨key, value⟩, hmem, rfl⟩ := List.mem_map.mp hp
    have htext := htexts _ hmem
    cases value with
    | str t => rfl
    | _ => exact htext

/-- Cleaning the metadata of a well-typed document leaves a well-typed one. -/
theorem isWellTyped_of_clean? {doc doc' : Node} (hdoc : doc.isWellTyped = true)
    (h : clean? doc = .ok doc') : doc'.isWellTyped = true := by
  by_cases hdocument : ∃ properties, doc.element = .document properties
  · obtain ⟨properties, he⟩ := hdocument
    obtain ⟨hinfo, hbelow, htag, hcaption⟩ := (isWellTyped_iff doc).mp hdoc
    have hkind : doc.kind = .document := by rw [kind, he]; rfl
    rw [hkind] at hbelow htag hcaption
    rw [clean?_eq he] at h
    split at h
    · cases h
    · obtain rfl := Except.ok.inj h
      refine (isWellTyped_iff _).mpr ⟨?_, fun b m hm ↦ hbelow b m ?_, htag, hcaption⟩
      · simp only [NodeInfo.isWellTyped, NodeInfo.isProper, show doc.info.element = _ from he,
          Element.isWellTyped, Bool.and_eq_true] at hinfo
        simp only [NodeInfo.isWellTyped, NodeInfo.isProper, withElement, Element.isWellTyped,
          Bool.and_eq_true]
        exact ⟨⟨⟨⟨hinfo.1.1.1.1, hinfo.1.1.1.2⟩, hinfo.1.1.2⟩, rfl⟩, areTexts_map_cleaned hinfo.2⟩
      · cases b <;> exact hm
  · rw [clean?_eq_ok fun properties he ↦ hdocument ⟨properties, he⟩] at h
    exact Except.ok.inj h ▸ hdoc

/-- Cleaning changes no element but that of the document, and no attributes. -/
theorem element_of_clean? {doc doc' m : Node} (h : clean? doc = .ok doc') (hm : m ∈ doc'.visit) :
    (∃ properties, m.element = .document properties) ∨
      ∃ k ∈ doc.visit, k.element = m.element ∧ k.attributes = m.attributes := by
  rcases eq_or_of_clean? h with rfl | ⟨properties, properties', he, rfl, -⟩
  · exact .inr ⟨m, hm, rfl, rfl⟩
  · obtain ⟨o, ho, rfl⟩ := List.mem_map.mp hm
    rcases mem_occurrences_iff.mp ho with rfl | ⟨b, i, k, hk, ho⟩
    · exact .inl ⟨properties', rfl⟩
    · have hbranch : (doc.withElement (.document properties')).branch b = doc.branch b := by
        cases b <;> rfl
      rw [hbranch] at hk
      have hmem := mem_occurrences_iff.mpr (.inr ⟨b, i, k, hk, ho⟩)
      exact .inr ⟨_, List.mem_map_of_mem hmem, rfl, rfl⟩

end Metadata

/-! ## Documents -/

/-- A well-typed document is still well-typed when it has been prepared. -/
theorem isWellTyped_of_prepare? {doc tree : Node} (hdoc : doc.isWellTyped = true)
    (h : prepare? doc = .ok tree) : tree.isWellTyped = true := by
  obtain ⟨merged, hmerged, h⟩ := exists_of_bind_eq_ok h
  have hleaves : MathRun.Leaves doc merged := MathRun.edit?_of_mergeTree? hmerged
  exact Metadata.isWellTyped_of_clean? (hleaves.isWellTyped hdoc) h

/-- The elements of a prepared document are those of the document, with the same attributes, but for
runs and what a document itself is. -/
theorem element_of_prepare? {doc tree m : Node} (hdoc : doc.isWellTyped = true)
    (h : prepare? doc = .ok tree) (hm : m ∈ tree.visit) :
    m.kind = .mathRun ∨ m.kind = .document ∨
      ∃ k ∈ doc.visit, k.element = m.element ∧ k.attributes = m.attributes := by
  obtain ⟨merged, hmerged, h⟩ := exists_of_bind_eq_ok h
  have hleaves : MathRun.Leaves doc merged := MathRun.edit?_of_mergeTree? hmerged
  rcases Metadata.element_of_clean? h hm with ⟨properties, he⟩ | ⟨k, hk, he, hattributes⟩
  · exact .inr (.inl (by rw [kind, he]; rfl))
  · obtain ⟨o, ho, rfl⟩ := List.mem_map.mp hk
    have hmatched := (hleaves.moved hdoc).occurrences (by rfl) (.ofRoot 0) (.ofRoot 0)
    rcases hmatched.exists_of_mem ho with ⟨u, hu, _, _, _, hreads⟩ | hrun
    · exact .inr (.inr ⟨u.node, List.mem_map_of_mem hu, hreads.element.symm.trans he,
        hreads.attributes.symm.trans hattributes⟩)
    · exact .inl (by rw [kind, ← he]; exact hrun)

end Typeset

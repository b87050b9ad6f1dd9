import Typeset.Proofs.Footnotes
import Typeset.Proofs.Render.Reindexed
import Typeset.Proofs.Termination

/-!
# Definitions that no footnote refers to

The definition of a footnote prints nothing where it stands. But what stands in it is printed all the
same, and what that takes is taken from the rest of the document: the first use of another footnote,
a number or a label. A definition in which nothing takes anything can be put anywhere without any
effect.
-/

namespace Typeset

open Action Context Node Render

/-- However many definitions may be printed inside each other, if only they can be as many as there
are, an occurrence is printed in the same way. -/
theorem Render.occurrence_eq (config : Config) (o : Occurrence) {c : Context} {depth : Nat}
    (hdepth : c.references.index.footnotes.length ≤ depth) :
    occurrence config o c = node config (definitionText config depth) o.place o.node c := by
  obtain ⟨-, r, d, -, -, -, -, hrun⟩ :=
    (Staged.IsOrderly.node config o.place o.node c).exists_goesOn config
  have hunused : c.unusedNotes ≤ c.references.index.footnotes.length := List.countP_le_length
  have hdeep : ∀ depth ≥ c.unusedNotes,
      node config (definitionText config depth) o.place o.node c = (r, d) := by
    intro depth hdepth
    rw [← hrun depth hdepth]
    exact (congrFun (Staged.run_node (definitionText config depth) config o.place o.node) c).symm
  rw [hdeep depth (Nat.le_trans hunused hdepth), ← hdeep _ hunused]
  rfl

namespace Insertion

variable {i : Insertion} {config : Config} {label : String} {tree tree' : Node}

/-- Printing begins in contexts that tell the same. -/
theorem mirrors_start (tree tree' : Node) :
    Context.Mirrors i tree.index tree'.index tree.start tree'.start where
  index := rfl
  index' := rfl
  places := rfl
  buffers := rfl
  reservations := .nil
  languages := rfl
  footnotes := rfl
  footnoteCount := rfl
  ancestors := .nil
  heldRows := .nil
  warnings := rfl

/-- A tree with a quiet definition is printed like the tree without it. -/
theorem Twins.print_eq (h : i.Twins (.ofRoot 0) tree tree') (hconfig : config.IsWellTyped)
    (htree : tree.isWellTyped = true) (htree' : tree'.isWellTyped = true)
    (hspares : tree.Spares label) (hnote : i.tree.IsQuietNote config tree'.index label) :
    print config tree' = print config tree := by
  have hproper := isProper_of_isWellTyped htree
  have hproper' := isProper_of_isWellTyped htree'
  have hix := h.reindexes htree htree' hspares hnote
  have hsilent : i.IsSilent config tree.index tree'.index := by
    refine hnote.isSilent hconfig fun kind path target htarget ↦ ?_
    rw [target?_index hproper'] at htarget
    exact isProper_of_mem_occurrences hproper' (mem_of_firstMatch? htarget)
  -- as many definitions inside each other as either tree can have
  obtain ⟨depth, hdepth, hdepth'⟩ : ∃ depth, tree.index.footnotes.length ≤ depth ∧
      tree'.index.footnotes.length ≤ depth := ⟨max _ _, Nat.le_max_left _ _, Nat.le_max_right _ _⟩
  have hrun : Match (Context.Mirrors i tree.index tree'.index) (· = ·)
      (occurrence config ⟨.ofRoot 0, tree⟩ tree.start)
      (occurrence config ⟨.ofRoot 0, tree'⟩ tree'.start) := by
    rw [occurrence_eq config ⟨.ofRoot 0, tree⟩ (c := tree.start) hdepth,
      occurrence_eq config ⟨.ofRoot 0, tree'⟩ (c := tree'.start) hdepth']
    exact Coupled.node hsilent hix (Coupled.definitionText hsilent hix depth)
      ⟨⟨rfl, h⟩, htree, htree', hspares⟩ _ _ (mirrors_start tree tree')
  rw [Typeset.print_eq hproper, Typeset.print_eq hproper']
  have hproperties : tree'.properties = tree.properties := by
    rw [properties, properties, h.element]
  rw [hproperties]
  generalize occurrence config ⟨.ofRoot 0, tree⟩ tree.start = r at hrun ⊢
  generalize occurrence config ⟨.ofRoot 0, tree'⟩ tree'.start = s at hrun ⊢
  cases hrun with
  | error => rfl
  | @ok body body' c d hbody hcd =>
    obtain rfl : body = body' := hbody
    dsimp only
    rw [hcd.buffers, hcd.warnings]

end Insertion

/-- What is found neither in runs nor in documents themselves is not there when a document is
prepared, if it was not there before. -/
theorem Node.Spares.of_prepare? {doc tree : Node} {label : String} (hdoc : doc.isWellTyped = true)
    (htree : prepare? doc = .ok tree) (h : doc.Spares label) : tree.Spares label := by
  intro m hm he
  rcases element_of_prepare? hdoc htree hm with hkind | hkind | ⟨k, hk, hsame, -⟩
  · rw [kind, he] at hkind
    cases hkind
  · rw [kind, he] at hkind
    cases hkind
  · exact h k hk (hsame.trans he)

/-- A quiet definition of a footnote has no effect where it stands: with a configuration of the
declared types, a well-typed document in which no footnote refers to the definition is typeset in the
same way, with the same warnings, wherever the definition is put between the blocks of the
document. -/
theorem quiet_definition_has_no_effect {config : Config} {doc doc' d : Node} {label : String}
    (hconfig : config.IsWellTyped) (hdoc : doc.isWellTyped = true)
    (hd : d.IsQuietNote config doc.index label) (hunused : doc.Spares label)
    (h : d.Gains doc doc') : typeset config doc' = typeset config doc := by
  have hkind : Content.blocks.admits d.kind = true := by
    rw [kind, hd.element]
    rfl
  have hdoc' := h.isWellTyped hdoc hd.isWellTyped hkind
  obtain ⟨tree, htree⟩ := exists_prepare? hdoc
  obtain ⟨left, hedit⟩ := MathRun.exists_edit?_of_isProper (isProper_of_isWellTyped hd.isWellTyped)
  obtain ⟨e, rfl, -⟩ := MathRun.isSettled_of_edit? hedit
  have hleaves : MathRun.Leaves d e := hedit
  obtain ⟨tree', htree', hgains⟩ := h.prepare? hdoc hdoc' htree hleaves
  have htyped := isWellTyped_of_prepare? hdoc htree
  have htyped' := isWellTyped_of_prepare? hdoc' htree'
  have hspares := hunused.of_prepare? hdoc htree
  have hnote := hleaves.isQuietNote hd
  obtain ⟨i, rfl, -, htwins⟩ := hgains.exists_twins htyped (.ofRoot 0)
  have hagree := (LinkIndex.agree_of_prepare? hdoc htree).trans
    (htwins.reindexes htyped htyped' hspares hnote).agree
  rw [typeset, typeset, htree, htree']
  exact htwins.print_eq hconfig htyped htyped' hspares (hnote.congr hagree)

/-- A document with a heading that has an id, and some blocks of the heading before a paragraph with
a footnote. -/
def headedNote (blocks : List Node) : Node := block (.document []) [
  ⟨⟨.unknown, 0, none, [], .heading ⟨1, none, some "h", none, false, []⟩, []⟩,
    blocks ++ [block .paragraph [cite (some "b") []]], [inlineText "t"], none, none⟩,
  block (.footnoteDefinition "b") [block .paragraph [inlineText "x"]]]

/-- A definition with a quotation, a link to the heading and a table. -/
def quietNote : Node := block (.footnoteDefinition "a") [
  block .paragraph [inlineText "\"y\" in ", .inline .unknown 0 (.link "custom-id" "#h") []],
  block .table [block (.tableRow .standard) [block (.tableCell none) [inlineText "z"]]]]

theorem quietNote_has_no_effect :
    Config.default.IsWellTyped ∧ (headedNote []).isWellTyped = true ∧
      quietNote.IsQuietNote .default (headedNote []).index "a" ∧ (headedNote []).Spares "a" ∧
        quietNote.Gains (headedNote []) (headedNote [quietNote]) ∧
          typeset .default (headedNote [quietNote]) = typeset .default (headedNote []) := by
  have hdoc : (headedNote []).isWellTyped = true := by decide +kernel
  have hquiet : quietNote.IsQuietNote .default (headedNote []).index "a" := by
    refine ⟨by decide +kernel, rfl, rfl, by decide, fun b ↦ ?_⟩
    cases b <;> decide +kernel
  have hunused : (headedNote []).Spares "a" := by
    unfold Node.Spares
    decide +kernel
  have hgains : quietNote.Gains (headedNote []) (headedNote [quietNote]) :=
    @Gains.deeper _ _ _ _ [] _ _ _ _ (@Gains.here _ _ [] _ _ _ _ rfl)
  exact ⟨Config.isWellTyped_default, hdoc, hquiet, hunused, hgains,
    quiet_definition_has_no_effect Config.isWellTyped_default hdoc hquiet hunused hgains⟩

/-- A document with some blocks before a footnote that is used once. -/
def usedOnce (blocks : List Node) : Node := block (.document []) (blocks ++ [
  block (.footnoteDefinition "b") [block .paragraph [inlineText "x"]],
  block .paragraph [cite (some "b") []]])

/-- A definition with a reference to another footnote. -/
def citingNote : Node := block (.footnoteDefinition "a") [block .paragraph [cite (some "b") []]]

/-- A definition with nothing in it but a reference to another footnote takes the text of this
footnote from the document. -/
theorem citingNote_takes_the_text :
    (usedOnce []).isWellTyped = true ∧ citingNote.isWellTyped = true ∧
      citingNote.element = .footnoteDefinition "a" ∧ (usedOnce []).Spares "a" ∧
        (∀ k ∈ citingNote.visit, k.info.name = none ∧
          (k = citingNote ∨ k.kind = .paragraph ∨ k.element = .footnoteReference (some "b"))) ∧
        ((usedOnce []).index.footnotes.lookup (.str "b")).isSome = true ∧
          citingNote.Gains (usedOnce []) (usedOnce [citingNote]) ∧
            typeset .default (usedOnce []) = .ok ⟨"\\footnote\x7bx\x7d\n", []⟩ ∧
              typeset .default (usedOnce [citingNote]) = .ok ⟨"\\footnotemark[1]\n", []⟩ := by
  have hunused : (usedOnce []).Spares "a" := by
    unfold Node.Spares
    decide +kernel
  obtain ⟨t, ht, htext⟩ := exists_ok_of_any (x := typeset .default (usedOnce []))
    (p := fun t ↦ decide (t = ⟨"\\footnote\x7bx\x7d\n", []⟩)) (by decide +kernel)
  obtain ⟨t', ht', htext'⟩ := exists_ok_of_any (x := typeset .default (usedOnce [citingNote]))
    (p := fun t ↦ decide (t = ⟨"\\footnotemark[1]\n", []⟩)) (by decide +kernel)
  obtain rfl := of_decide_eq_true htext
  obtain rfl := of_decide_eq_true htext'
  exact ⟨by decide +kernel, by decide +kernel, rfl, hunused, by decide +kernel, by decide +kernel,
    @Gains.here _ _ [] _ _ _ _ rfl, ht, ht'⟩

end Typeset

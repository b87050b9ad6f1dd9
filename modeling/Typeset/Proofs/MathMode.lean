import Typeset.Proofs.Assembled
import Typeset.Proofs.LongestRuns
import Typeset.Proofs.Render.MathPieces
import Typeset.Proofs.Tree.Moved
import Typeset.Proofs.Tree.PreparedTypes

/-!
# Formulas are never nested

Paragraphs may hold formulas, mathematical entities and scripts in any nesting. When their runs are
wrapped, what a document of such paragraphs prints is made of pieces in which formulas are opened and
closed in turn. The pieces hold the texts, the entities and the formulas of the source in its order,
and a formula that stands inside of another one has lost its delimiters.
-/

namespace Typeset

open Action Context Latex MathRun Node Render MathPiece

/-! ## Wrapped paragraphs -/

namespace MathRun

variable {n n' : Node}

/-- In each branch of a well-typed tree the nodes stay as they are and in their order when runs are
wrapped, and only runs are new. -/
theorem Leaves.matched_branch (h : Leaves n n') (hn : n.isWellTyped = true)
    (hrun : isRun n = false) (b : Branch) :
    Matched (fun o o' ↦ o'.node.element = o.node.element) IsRunAt
      (occurrencesIn (.ofRoot 0) b 0 (n.branch b)) (occurrencesIn (.ofRoot 0) b 0 (n'.branch b)) := by
  obtain ⟨e, rfl, hall, -⟩ := h.exists_wrap (isProper_of_isWellTyped hn) hrun
  have hmembers : List.Forall₂ (Member newSteps) (n.branch b) (e.branch b) := by
    refine forall₂_imp_of_mem (hall b) fun m hm m' hleaves ↦ ?_
    have htyped := (isWellTyped_of_mem_branch hn hm).2
    exact ⟨hleaves.info, hleaves.isProper (isProper_of_isWellTyped htyped), hleaves.moved htyped⟩
  rw [branch_wrap]
  refine ((matched_merge (fun _ ↦ rfl) hmembers).1 _ _ b 0 0).mono ?_
  rintro o o' ⟨-, -, -, -, -, -, -, -, hreads⟩
  exact hreads.element

/-- Where nothing opens a run, the trees of a branch are left one by one. -/
theorem Leaves.forall₂_branch (h : Leaves n n') (hn : n.isProper = true) (hrun : isRun n = false)
    {b : Branch} (hopens : ∀ m ∈ n.branch b, opens m = false) :
    List.Forall₂ Leaves (n.branch b) (n'.branch b) := by
  obtain ⟨e, rfl, hall, -⟩ := h.exists_wrap hn hrun
  have hmerge : merge (e.branch b) = e.branch b := by
    refine merge_eq_self (forall_mem_of_forall₂ (hall b) fun m hm e hleaves ↦ ?_)
    rw [opens_congr hleaves.info]
    exact hopens m hm
  rw [branch_wrap, hmerge]
  exact hall b

/-- Wrapping runs leaves the leaves of a branch. -/
theorem Leaves.filterMap_piece? (h : Leaves n n') (hn : n.isWellTyped = true)
    (hrun : isRun n = false) (b : Branch) :
    ((n'.branch b).flatMap visit).filterMap piece? =
      ((n.branch b).flatMap visit).filterMap piece? := by
  rw [← map_node_branch (.ofRoot 0), ← map_node_branch (.ofRoot 0), List.filterMap_map, List.filterMap_map]
  refine ((h.matched_branch hn hrun b).filterMap_eq (k := id) (fun o o' he ↦ ?_)
    fun o ho ↦ ?_).trans (List.map_id _)
  · rw [Option.map_id]
    simp only [Function.comp, piece?, he]
    rfl
  · obtain ho : o.node.kind = .mathRun := ho
    rw [Function.comp, piece?]
    cases he : o.node.element <;> first | rfl | (rw [Node.kind, he] at ho; cases ho)

/-- What stands in a branch once its runs are wrapped is a run or was there before. -/
theorem Leaves.element_cases (h : Leaves n n') (hn : n.isWellTyped = true)
    (hrun : isRun n = false) {b : Branch} {k : Node} (hk : k ∈ (n'.branch b).flatMap visit) :
    (∃ m ∈ (n.branch b).flatMap visit, k.element = m.element) ∨ k.element = .mathRun := by
  rw [← map_node_branch (.ofRoot 0)] at hk ⊢
  obtain ⟨o', ho', rfl⟩ := List.mem_map.mp hk
  refine ((h.matched_branch hn hrun b).exists_of_mem ho').imp ?_ fun ho ↦ ?_
  · rintro ⟨o, ho, he⟩
    exact ⟨o.node, List.mem_map_of_mem ho, he⟩
  · obtain ho : o'.node.kind = .mathRun := ho
    cases he : o'.node.element <;> first | rfl | (rw [Node.kind, he] at ho; cases ho)

end MathRun

/-! ## Printed paragraphs -/

/-- What a paragraph prints of its contents: a line without white space at its end, or nothing. -/
def Render.paragraphText? (t : String) : Option String :=
  if (Text.stripEnd t).isEmpty then none else some (Text.stripEnd t ++ "\n")

/-- A paragraph of texts, markup, scripts, entities and formulas in any nesting. -/
def Node.IsMathParagraph (q : Node) : Prop :=
  q.kind = .paragraph ∧ ∀ k ∈ q.children.flatMap visit, k.element.IsMathProse

namespace Node

variable {n q q' : Node} {ps : List MathPiece}

theorem isFigure_eq_false (h : ∀ m ∈ n.children, m.isImage = false) : n.isFigure = false := by
  have hsole : (sole? n.children).any isImage = false := by
    unfold sole?
    split
    · next m hm =>
      have hmem : m ∈ n.children.filter fun n ↦ !n.isBlankText := hm ▸ List.mem_cons_self
      exact h m (List.mem_of_mem_filter hmem)
    · rfl
  rw [isFigure, isSome_standaloneImage?, hsole, Bool.and_false]

namespace IsMathParagraph

theorem isRun_eq_false (h : q.IsMathParagraph) : isRun q = false := by
  rw [isRun, h.1]
  rfl

theorem opens_eq_false (h : q.IsMathParagraph) : opens q = false := by
  have hkind := h.1
  rw [kind] at hkind
  rw [opens]
  cases he : q.element <;> first | rfl | (rw [he] at hkind; cases hkind)

/-- Only runs are new in a paragraph when its runs are wrapped. -/
theorem element_cases (h : q.IsMathParagraph) (hq : q.isWellTyped = true) (hleaves : Leaves q q') :
    ∀ k ∈ q'.children.flatMap visit, k.element = .mathRun ∨ k.element.IsMathProse := by
  intro k hk
  rcases hleaves.element_cases hq h.isRun_eq_false (b := .children) hk with ⟨m, hm, he⟩ | he
  · exact .inr (he ▸ h.2 m hm)
  · exact .inl he

theorem isImage_eq_false (h : q.IsMathParagraph) (hq : q.isWellTyped = true)
    (hleaves : Leaves q q') : ∀ m ∈ q'.children, m.isImage = false := by
  intro m hm
  have helement := h.element_cases hq hleaves m (List.mem_flatMap.mpr ⟨m, hm, mem_visit_self m⟩)
  rw [isImage, isImageLink, kind]
  rcases helement with he | hprose
  · rw [he]
    rfl
  · cases he : m.element <;> first | rfl | (rw [he] at hprose; cases hprose)

/-- The children of a paragraph are printed as pieces once its runs are wrapped. -/
theorem exists_printAs (h : q.IsMathParagraph) (hq : q.isWellTyped = true)
    (hleaves : Leaves q q') : ∃ ps, PrintAs false q'.children ps ∧
      AreOf false (q.children.flatMap visit) ps := by
  have hkinds := h.element_cases hq hleaves
  have htyped := hleaves.isWellTyped hq
  obtain ⟨m, heq, hinfo, hsettled⟩ := isSettled_of_edit? hleaves
  obtain rfl := Option.some.inj heq
  have hchildren : ∀ m ∈ q'.children, IsSettled m ∧ opens m = false := by
    cases hsettled with
    | run hnot =>
      rw [isRun_congr hinfo, h.isRun_eq_false] at hnot
      cases hnot
    | node _ hmembers hsettled =>
      exact fun m hm ↦ ⟨hsettled .children m hm, (hmembers .children m hm).1⟩
  obtain ⟨ps, hps⟩ : ∃ ps, PrintAs false q'.children ps := by
    refine Node.exists_printAs fun m hm ↦ ?_
    have hbelow : ∀ k ∈ m.visit, k.element = .mathRun ∨ k.element.IsMathProse :=
      fun k hk ↦ hkinds k (List.mem_flatMap.mpr ⟨m, hm, hk⟩)
    have hm' := (isWellTyped_of_mem_branch (b := .children) htyped hm).2
    refine ⟨isProper_of_isWellTyped hm', ?_, exists_printsAs hm' hbelow fun _ ↦ hchildren m hm⟩
    exact isBlock_eq_false_of_prose (hbelow m (mem_visit_self m))
  refine ⟨ps, hps, { hps.toAreOf with sources := ?_ }⟩
  exact hps.sources.trans (hleaves.filterMap_piece? hq h.isRun_eq_false .children)

/-- The formulas among the pieces are those of the paragraph. -/
theorem isFormula (h : q.IsMathParagraph) (hps : AreOf false (q.children.flatMap visit) ps)
    {value : String} (hvalue : .fragment value ∈ ps) : IsFormula value := by
  have hmem : MathPiece.fragment value ∈ ps.filter isSource :=
    List.mem_filter.mpr ⟨hvalue, rfl⟩
  rw [hps.sources] at hmem
  obtain ⟨k, hk, hpiece⟩ := List.mem_filterMap.mp hmem
  have hprose := h.2 k hk
  have helement : k.element = .latexFragment value := by
    rw [piece?] at hpiece
    cases he : k.element <;> rw [he] at hpiece <;> simp_all
  rwa [helement] at hprose

end IsMathParagraph

/-- A paragraph outside of formulas is printed as a line of its pieces. -/
theorem run_of_paragraph (hq : q.isWellTyped = true) (hkind : q.kind = .paragraph)
    (himage : ∀ m ∈ q.children, m.isImage = false) (h : PrintAs false q.children ps)
    (expand : Occurrence → Action String) (p : Place) {c : Context} (hc : c.inMath = false) :
    node .default expand p q c = (.ok (paragraphText? (written false ps)), c) := by
  have helement : q.element = .paragraph := by
    rw [kind] at hkind
    cases he : q.element <;> first | rfl | (rw [he] at hkind; cases hkind)
  have hfigure := isFigure_eq_false himage
  obtain ⟨outputs, hspaced, hrun⟩ := h.run
  have hbelow : ({ c with ancestors := ⟨p, q⟩ :: c.ancestors } : Context).inMath = false := by
    rw [inMath, List.any_cons, hkind]
    exact hc
  have hchildren := within_of_ok (hrun expand p .children 0 _ hbelow)
  rw [node_eq_of_children hq (by rw [hkind]; rfl) (by rw [hkind]; rfl)
    (by rw [printsCaption, hfigure, hkind]; rfl) (by rw [zone, helement]), bind_of_ok hchildren,
    hspaced]
  simp only [transcribeElement, helement, paragraph, hfigure,
    figureFault?_eq_none (isProper_of_isWellTyped hq)]
  rfl

/-- Paragraphs in a row are printed as lines of their pieces once their runs are wrapped. -/
theorem exists_pieces_of_paragraphs {qs qs' : List Node} (h : List.Forall₂ Leaves qs qs')
    (htyped : ∀ q ∈ qs, q.isWellTyped = true) (hqs : ∀ q ∈ qs, q.IsMathParagraph) :
    ∃ pieces : List (List MathPiece),
      List.Forall₂ (fun q ps ↦ AreOf false (q.children.flatMap visit) ps) qs pieces ∧
        ∀ expand p b i c, c.inMath = false →
          all .default expand p b i qs' c =
            (.ok (pieces.map fun ps ↦ paragraphText? (written false ps)), c) := by
  induction h with
  | nil => exact ⟨[], .nil, fun _ _ _ _ _ _ ↦ rfl⟩
  | @cons q q' qs qs' hleaves _ ih =>
    obtain ⟨pieces, hpieces, hrun⟩ := ih (fun q hq ↦ htyped q (.tail _ hq)) fun q hq ↦
      hqs q (.tail _ hq)
    have hq := htyped q List.mem_cons_self
    have hparagraph := hqs q List.mem_cons_self
    obtain ⟨ps, hps, hof⟩ := hparagraph.exists_printAs hq hleaves
    have hq' := hleaves.isWellTyped hq
    have hkind : q'.kind = .paragraph := by
      rw [kind, element, hleaves.info]
      exact hparagraph.1
    refine ⟨ps :: pieces, .cons hof hpieces, fun expand p b i c hc ↦ ?_⟩
    have himage := hparagraph.isImage_eq_false hq hleaves
    have hfirst := run_of_paragraph hq' hkind himage hps expand (p.down b i) hc
    rw [all_cons (isProper_of_isWellTyped hq'), bind_of_ok hfirst,
      bind_of_ok (hrun expand p b (i + 1) c hc)]
    rfl

end Node

/-! ## Printed documents -/

namespace Render

theorem mathMarks_paragraphText? (t : String) :
    mathMarks ((paragraphText? t).getD "").toList = mathMarks t.toList ∧
      ((paragraphText? t).getD "").toList.getLast? ≠ some '\\' := by
  rw [← mathMarks_stripEnd t, paragraphText?]
  split
  · next hempty =>
    rw [String.isEmpty_iff.mp hempty]
    exact ⟨rfl, nofun⟩
  · rw [Option.getD_some, String.toList_append]
    refine ⟨mathMarks_append_of_forall ?_ _, ?_⟩
    · intro c hc
      rw [List.mem_singleton.mp hc]
      decide
    · simp

theorem blankAfter_chars (n : Node) : ∀ c ∈ (blankAfter n).toList, c ∉ ['\\', '(', ')'] := by
  intro c hc
  unfold blankAfter Text.newlines Text.spaces at hc
  split at hc
  · rw [String.toList_ofList] at hc
    rw [List.eq_of_mem_replicate hc]
    decide
  · rw [String.toList_ofList] at hc
    rw [List.eq_of_mem_replicate hc]
    decide

/-- Paragraphs in a row have the delimiters that each of them has. -/
theorem mathMarks_spaced {qs : List Node} {pieces : List (List MathPiece)}
    (h : List.Forall₂ (fun _ ps ↦ MathPiece.Leads false ps false) qs pieces) :
    mathMarks (spaced qs (pieces.map fun ps ↦ paragraphText? (written false ps))).toList =
      pieces.flatten.filterMap mark? := by
  induction h with
  | nil => rfl
  | @cons q ps qs pieces hps _ ih =>
    obtain ⟨hmarks, hending⟩ := mathMarks_paragraphText? (written false ps)
    rw [hps.mathMarks_written.1] at hmarks
    rw [List.map_cons, List.flatten_cons, List.filterMap_append, ← hmarks, ← ih]
    cases hline : paragraphText? (written false ps) with
    | none => rfl
    | some output =>
      have hblank := blankAfter_chars q
      rw [hline, Option.getD_some] at hending
      have hend : (output.toList ++ (blankAfter q).toList).getLast? ≠ some '\\' :=
        getLast?_append_ne hending fun hlast ↦
          hblank '\\' (List.mem_of_getLast? hlast) (by decide)
      rw [spaced, String.toList_append, String.toList_append, mathMarks_append hend,
        mathMarks_append_of_forall hblank]
      rfl

theorem spaced_congr {ns ns' : List Node} (h : List.Forall₂ (fun n n' ↦ n'.info = n.info) ns ns')
    (outputs : List (Option String)) : spaced ns' outputs = spaced ns outputs := by
  induction h generalizing outputs with
  | nil => rfl
  | @cons n n' ns ns' hinfo _ ih =>
    have hblank : blankAfter n' = blankAfter n := by
      rw [blankAfter, blankAfter, isBlock, isBlock, kind, kind, element, element, postBlank,
        postBlank, hinfo]
    rcases outputs with _ | ⟨_ | output, outputs⟩
    · rfl
    · exact ih outputs
    · rw [spaced, spaced, hblank, ih outputs]

end Render

/-- A document without zones is what its children print, without line feeds at the ends. -/
theorem print_of_children {doc : Node} (hdoc : doc.isWellTyped = true) (hkind : doc.kind = .document)
    {outputs : List (Option String)}
    (hall : ∀ expand p b i c, c.inMath = false →
      all .default expand p b i doc.children c = (.ok outputs, c)) :
    print .default doc =
      .ok ⟨Assembly.stack [Text.stripNewlines (spaced doc.children outputs)], []⟩ := by
  have helement : ∃ properties, doc.element = .document properties := by
    rw [kind] at hkind
    cases he : doc.element <;> first | exact ⟨_, rfl⟩ | (rw [he] at hkind; cases hkind)
  obtain ⟨properties, he⟩ := helement
  have hrun : ∀ expand, node .default expand (.ofRoot 0) doc doc.start =
      (.ok (some (spaced doc.children outputs)), doc.start) := by
    intro expand
    have hbelow : ({ doc.start with ancestors := ⟨.ofRoot 0, doc⟩ :: doc.start.ancestors } :
        Context).inMath = false := by
      rw [inMath, List.any_cons, hkind]
      rfl
    have hchildren := within_of_ok (hall expand (.ofRoot 0) .children 0 _ hbelow)
    rw [node_eq_of_children hdoc (by rw [hkind]; rfl) (by rw [hkind]; rfl)
      (by rw [printsCaption, isFigure, hkind]; rfl) (by rw [zone, he]), bind_of_ok hchildren]
    simp only [transcribeElement, he]
    rfl
  have hprinted : occurrence .default ⟨.ofRoot 0, doc⟩ doc.start =
      (.ok (some (spaced doc.children outputs)), doc.start) := by
    rw [occurrence, bind_of_ok (ask_apply _ _)]
    exact hrun _
  have hzones : Assembly.minimal (Assembly.zoneText (spaced doc.children outputs)
      doc.start.buffers.chunks) = Assembly.stack [Text.stripNewlines (spaced doc.children outputs)] := by
    show Assembly.stack ["", Text.stripNewlines (spaced doc.children outputs), "", "", "", ""] = _
    simp [Assembly.stack, List.filter_cons]
  rw [print_eq (isProper_of_isWellTyped hdoc), hprinted]
  show Except.ok (⟨Assembly.minimal (Assembly.zoneText _ _), [] ++ []⟩ : Typescript) = _
  rw [Option.getD_some, hzones]
  rfl

theorem leads_flatten {qs : List Node} {pieces : List (List MathPiece)}
    (h : List.Forall₂ (fun _ ps ↦ MathPiece.Leads false ps false) qs pieces) :
    MathPiece.Leads false pieces.flatten false := by
  induction h with
  | nil => exact .nil false
  | cons hps _ ih => exact hps.append ih

theorem mathMarks_stack (t : String) :
    mathMarks (Assembly.stack [t]).toList = mathMarks t.toList := by
  by_cases hempty : t = ""
  · subst hempty
    rfl
  · have hstack : Assembly.stack [t] = t ++ "\n" := by simp [Assembly.stack, hempty]
    rw [hstack, String.toList_append]
    refine mathMarks_append_of_forall (fun c hc ↦ ?_) _
    rw [List.mem_singleton.mp hc]
    decide

/-! ## Math mode -/

/-- In the text of a document of paragraphs whose texts, entities and formulas keep their delimiters
to themselves, `\(` and `\)` stand in turn, beginning with the former and ending with the latter,
once its runs are wrapped. Each paragraph is a line of pieces that hold its texts, its entities and
its formulas in their order. All delimiters are those of runs, between which texts are as they are
in the source and formulas have lost their own delimiters. -/
theorem math_mode_is_never_nested {doc : Node} (hdoc : doc.isWellTyped = true)
    (hkind : doc.kind = .document) (hparagraphs : ∀ q ∈ doc.children, q.IsMathParagraph) :
    ∃ tree text pieces, mergeTree? doc = .ok tree ∧ print .default tree = .ok ⟨text, []⟩ ∧
      (∃ n, mathMarks text.toList = (List.replicate n [.opening, .closing]).flatten) ∧
      mathMarks text.toList = pieces.flatten.filterMap mark? ∧
      text = Assembly.stack [Text.stripNewlines
        (spaced doc.children (pieces.map fun ps ↦ paragraphText? (written false ps)))] ∧
      List.Forall₂ (fun q ps ↦ AreOf false (q.children.flatMap visit) ps) doc.children pieces ∧
      ∀ ps ∈ pieces, ∀ value, .fragment value ∈ ps →
        IsBare (stripMathDelimiters value).toList := by
  obtain ⟨tree, htree⟩ := exists_mergeTree? (isProper_of_isWellTyped hdoc)
  have hleaves : Leaves doc tree := edit?_of_mergeTree? htree
  have hrun : isRun doc = false := by rw [isRun, hkind]; rfl
  have htyped : ∀ q ∈ doc.children, q.isWellTyped = true :=
    fun q hq ↦ (isWellTyped_of_mem_branch (b := .children) hdoc hq).2
  have hopens : ∀ q ∈ doc.children, opens q = false := fun q hq ↦ (hparagraphs q hq).opens_eq_false
  have hchildren : List.Forall₂ Leaves doc.children tree.children :=
    hleaves.forall₂_branch (b := .children) (isProper_of_isWellTyped hdoc) hrun hopens
  obtain ⟨pieces, hpieces, hall⟩ := exists_pieces_of_paragraphs hchildren htyped hparagraphs
  have htree' := hleaves.isWellTyped hdoc
  have hkind' : tree.kind = .document := by
    rw [kind, element, hleaves.info]
    exact hkind
  have hprint := print_of_children htree' hkind' hall
  rw [spaced_congr (hchildren.imp fun _ _ h ↦ h.info)] at hprint
  have hleads : List.Forall₂ (fun _ ps ↦ MathPiece.Leads false ps false) doc.children pieces :=
    hpieces.imp fun _ _ h ↦ h.leads
  have hmarks := mathMarks_spaced hleads
  rw [← mathMarks_stripNewlines, ← mathMarks_stack] at hmarks
  refine ⟨tree, _, pieces, htree, hprint, ?_, hmarks, rfl, hpieces, fun ps hps value hvalue ↦ ?_⟩
  · rw [hmarks]
    obtain ⟨n, hn⟩ := (leads_flatten hleads).filterMap_mark?
    exact ⟨n, hn⟩
  · -- the formula is one of the source
    obtain ⟨q, hq, hof⟩ := exists_mem_of_forall₂ hpieces hps
    exact (isBare_stripMathDelimiters ((hparagraphs q hq).isFormula hof hvalue)).1

/-- A formula in the subscript of a mathematical entity. -/
def nestedFormula : Node :=
  ⟨⟨.unknown, 0, none, [], .document [], []⟩, [paragraph], [], none, none⟩
where
  paragraph : Node := ⟨⟨.unknown, 0, none, [], .paragraph, []⟩, [entity, subscript], [], none, none⟩
  entity : Node :=
    ⟨⟨.unknown, 0, none, [], .entity "alpha" "\\alpha" true "α", []⟩, [], [], none, none⟩
  subscript : Node := ⟨⟨.unknown, 0, none, [], .subscript, []⟩, [fragment], [], none, none⟩
  fragment : Node := ⟨⟨.unknown, 0, none, [], .latexFragment "$i$", []⟩, [], [], none, none⟩

theorem nestedFormula_is_never_nested :
    ∃ text n, (mergeTree? nestedFormula >>= print .default) = .ok ⟨text, []⟩ ∧
      text = "\\(\\alpha_\x7bi\x7d\\)\n" ∧
        mathMarks text.toList = (List.replicate n [.opening, .closing]).flatten := by
  have hparagraphs : ∀ q ∈ nestedFormula.children, q.IsMathParagraph := by
    intro q hq
    rw [List.mem_singleton.mp hq]
    have hvisit : nestedFormula.paragraph.children.flatMap visit =
        [nestedFormula.entity, nestedFormula.subscript, nestedFormula.fragment] := rfl
    refine ⟨rfl, ?_⟩
    rw [hvisit]
    intro k hk
    have hentity : nestedFormula.entity.element.IsMathProse := ⟨by simp; decide, by decide⟩
    have hfragment : nestedFormula.fragment.element.IsMathProse :=
      ⟨['i'], ⟨by decide, by simp; decide⟩, by decide, (['$'], ['$']), by decide, by decide⟩
    simp only [List.mem_cons, List.not_mem_nil, or_false] at hk
    rcases hk with rfl | rfl | rfl
    · exact hentity
    · trivial
    · exact hfragment
  have hdoc : nestedFormula.isWellTyped = true := by decide
  obtain ⟨tree, text, pieces, htree, hprint, ⟨n, hn⟩, -⟩ :=
    math_mode_is_never_nested hdoc rfl hparagraphs
  have hrun : (mergeTree? nestedFormula >>= print .default) = .ok ⟨text, []⟩ := by
    rw [htree]
    exact hprint
  have htext : (mergeTree? nestedFormula >>= print .default).toOption.map (·.text) =
      some "\\(\\alpha_\x7bi\x7d\\)\n" := by decide +kernel
  rw [hrun] at htext
  exact ⟨text, n, hrun, Option.some.inj htext, hn⟩

end Typeset

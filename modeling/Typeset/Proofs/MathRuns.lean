import Typeset.Proofs.Code.Index
import Typeset.Proofs.Render.Printed
import Typeset.Proofs.Tree.Moved

/-!
# Wrapping math runs is invisible

The nodes of a document are found in the wrapped document in the order of a visit, each where its
run has put it, and all that is read off them is the same. Between them are new runs, which no link
can point at. So links find the counterparts of what they found before, or still nothing, and code
labels stand for the numbers that they stood for.
-/

namespace Typeset

open Node

namespace MathRun

variable {doc doc' : Node} {os os' : List Occurrence}

/-! ## Counterparts -/

/-- A node of the wrapped document is what has become of a node of the document. -/
structure Counterparts (doc : Node) (o o' : Occurrence) : Prop where
  place : o'.place = newPlace doc o.place
  reads : o.node.ReadsLike o'.node

/-- Both searches end at counterparts, or both fail in the same way. -/
inductive Agree (doc : Node) : Except Failure Occurrence → Except Failure Occurrence → Prop
  | ok {o o' : Occurrence} : Counterparts doc o o' → Agree doc (.ok o) (.ok o')
  | error (e : Failure) : Agree doc (.error e) (.error e)

theorem Moves.counterparts {o o' : Occurrence}
    (h : Moves (newSteps doc) (.ofRoot 0) (.ofRoot 0) o o') : Counterparts doc o o' := by
  obtain ⟨steps, ho, ho', hreads⟩ := h
  refine ⟨?_, hreads⟩
  have hsteps : o.place.steps.reverse = steps := by simp [ho, Place.along, Place.ofRoot]
  rw [newPlace, hsteps, ho', ho]
  rfl

/-- The nodes of a well-typed document have counterparts in the wrapped one, in the order of the
visits, and between these are runs. -/
theorem Leaves.matched (h : Leaves doc doc') (hdoc : doc.isWellTyped = true) :
    Matched (Counterparts doc) IsRunAt (doc.occurrences (.ofRoot 0))
      (doc'.occurrences (.ofRoot 0)) :=
  ((h.moved hdoc).occurrences rfl _ _).mono fun _ _ ↦ Moves.counterparts

/-- No two nodes go to one place. -/
theorem eq_of_newPlace_eq (h : Matched (Counterparts doc) IsRunAt os (doc'.occurrences (.ofRoot 0)))
    {o u : Occurrence} (ho : o ∈ os) (hu : u ∈ os)
    (heq : newPlace doc o.place = newPlace doc u.place) : o = u := by
  have hsublist : (os.map fun o ↦ newPlace doc o.place).Sublist
      ((doc'.occurrences (.ofRoot 0)).map (·.place)) := h.map_sublist fun _ _ hco ↦ hco.place
  exact List.inj_on_of_nodup_map (hsublist.nodup (nodup_occurrences doc' _)) ho hu heq

/-! ## Links -/

/-- A test that passes or fails together with its counterpart, and fails for runs. -/
structure IsBlind (test : Node → Bool) : Prop where
  eq_of_readsLike : ∀ n n', n.ReadsLike n' → test n' = test n
  eq_false : ∀ n, n.kind = .mathRun → test n = false

theorem element_eq_of_kind {n : Node} (h : n.kind = .mathRun) : n.element = .mathRun := by
  rw [kind] at h
  cases he : n.element <;> simp_all [Element.kind]

theorem isBlind_isNamed (name : String) : IsBlind (Node.isNamed name) where
  eq_of_readsLike n n' h := by simp only [isNamed, isBlock, kind, h.element, h.name]
  eq_false n h := by simp only [isNamed, isBlock, h, Kind.isBlock, Bool.false_and]

theorem isKeyedLike_of_readsLike {n n' : Node} (h : n.ReadsLike n') : n.IsKeyedLike n' :=
  ⟨h.name, .inl h.element, h.plainTexts .title⟩

theorem isBlind_linkTests {kind path : String} {test : Node → Bool}
    (h : test ∈ linkTests kind path) : IsBlind test where
  eq_of_readsLike _ _ hreads := (isKeyedLike_of_readsLike hreads).test_eq kind path test h
  eq_false n hn := by
    have he := element_eq_of_kind hn
    have hnamed : ∀ t, Node.isNamed t n = false := fun t ↦ (isBlind_isNamed t).eq_false n hn
    refine forall_mem_linkTests (P := fun test ↦ test n = false) ?_ ?_ ?_ ?_ ?_ hnamed kind path
      test h <;> intro t
    · rw [hasCustomId, he]
    · rw [hasIdentifier, he]
    · rw [isRadioTarget, he]
    · rw [isTitled, he]
    · rw [isTarget, he]

theorem isBlind_definesFootnote (label : String) : IsBlind (Node.definesFootnote label) where
  eq_of_readsLike n n' h := by simp only [definesFootnote, h.element]
  eq_false n h := by simp only [definesFootnote, element_eq_of_kind h]

section

variable (h : Matched (Counterparts doc) IsRunAt os os')

include h

theorem find?_of_isBlind {test : Node → Bool} (htest : IsBlind test) :
    Option.Rel (Counterparts doc) (os.find? fun o ↦ test o.node)
      (os'.find? fun o ↦ test o.node) :=
  h.find? (fun _ _ hco ↦ htest.eq_of_readsLike _ _ hco.reads) fun _ ho ↦ htest.eq_false _ ho

/-- The first matches among counterparts are counterparts. -/
theorem firstMatch?_of_isBlind {tests : List (Node → Bool)}
    (htests : ∀ test ∈ tests, IsBlind test) :
    Option.Rel (Counterparts doc) (firstMatch? tests os) (firstMatch? tests os') :=
  h.firstMatch? (fun test ht _ _ hco ↦ (htests test ht).eq_of_readsLike _ _ hco.reads)
    fun test ht _ ho ↦ (htests test ht).eq_false _ ho

end

theorem Agree.orUnresolved {x x' : Option Occurrence} (h : Option.Rel (Counterparts doc) x x')
    (kind : String) (path : Datum) (origin : Option Origin) :
    Agree doc (LinkIndex.orUnresolved kind path origin x)
      (LinkIndex.orUnresolved kind path origin x') := by
  cases h with
  | none => exact .error _
  | some hco => exact .ok hco

/-! ## Code labels -/

/-- The entry of a block of code that has moved. -/
def movedEntry (doc : Node) (e : CodeEntry) : CodeEntry := { e with place := newPlace doc e.place }

theorem filterMap_listing?
    (h : Matched (Counterparts doc) IsRunAt os os') :
    os'.filterMap (·.listing?) = (os.filterMap (·.listing?)).map (movedEntry doc) := by
  refine h.filterMap_eq (fun o o' hco ↦ ?_) (fun o' ho' ↦ ?_)
  · have hloose : ∀ field, o'.node.loose? field = o.node.loose? field := fun field ↦ by
      rw [loose?, loose?, NodeInfo.loose?, NodeInfo.loose?, hco.reads.loose]
    rw [Occurrence.listing?, Occurrence.listing?, hco.reads.element, Option.map_map]
    refine congrArg (fun f ↦ Option.map f _) (funext fun b ↦ ?_)
    simp only [Function.comp, movedEntry, CodeEntry.ofOccurrence, hloose, hco.place]
  · rw [Occurrence.listing?, element_eq_of_kind ho']
    rfl

theorem codeLine_of_matched
    (h : Matched (Counterparts doc) IsRunAt (doc.occurrences (.ofRoot 0))
      (doc'.occurrences (.ofRoot 0))) (label : Datum) (origin : Option Origin) :
    (LinkIndex.empty.add (.ofRoot 0) doc').codeLine label origin =
      (LinkIndex.empty.add (.ofRoot 0) doc).codeLine label origin := by
  have hmem : ∀ e ∈ (LinkIndex.empty.add (.ofRoot 0) doc).codeBlocks,
      ∃ o ∈ doc.occurrences (.ofRoot 0), e.place = o.place := by
    intro e he
    rw [LinkIndex.codeBlocks_add] at he
    obtain ⟨o, ho, hlisting⟩ := List.mem_filterMap.mp he
    obtain ⟨b, -, rfl⟩ := Occurrence.listing?_eq_some_iff.mp hlisting
    exact ⟨o, ho, rfl⟩
  have hentries : (LinkIndex.empty.add (.ofRoot 0) doc').codeBlocks =
      (LinkIndex.empty.add (.ofRoot 0) doc).codeBlocks.map (movedEntry doc) := by
    rw [LinkIndex.codeBlocks_add, LinkIndex.codeBlocks_add, filterMap_listing? h]
    rfl
  have hrelocates : LinkIndex.Relocates (newPlace doc) (LinkIndex.empty.add (.ofRoot 0) doc)
      (LinkIndex.empty.add (.ofRoot 0) doc') :=
    ⟨hentries, LinkIndex.take_numberedCount_add _ _ _, LinkIndex.take_numberedCount_add _ _ _⟩
  refine hrelocates.codeLine (fun e he e' he' heq ↦ ?_) label origin
  obtain ⟨o, ho, hplace⟩ := hmem e he
  obtain ⟨o', ho', hplace'⟩ := hmem e' he'
  rw [hplace, hplace'] at heq ⊢
  rw [eq_of_newPlace_eq h ho ho' heq]

end MathRun

/-! ## The whole document -/

/-- The math runs of a well-typed document can be wrapped, and its nodes are found in the wrapped
document in the order of a visit, with nothing but runs in between, and read alike. Both documents
can be indexed, and then every link and every label of a footnote finds counterparts or fails in
both, and every code label stands for the same line. -/
theorem merging_runs_is_invisible (doc : Node) (hdoc : doc.isWellTyped = true) :
    ∃ doc' r r', MathRun.mergeTree? doc = .ok doc' ∧
      Matched (fun o o' ↦ o'.place = MathRun.newPlace doc o.place ∧ o.node.ReadsLike o'.node)
        (fun o' ↦ o'.node.kind = .mathRun) (doc.occurrences (.ofRoot 0))
        (doc'.occurrences (.ofRoot 0)) ∧
      References.empty.add? (.ofRoot 0) doc = .ok r ∧
      References.empty.add? (.ofRoot 0) doc' = .ok r' ∧
      (∀ kind path origin, MathRun.Agree doc (r.index.resolveDatum kind (.str path) origin)
        (r'.index.resolveDatum kind (.str path) origin)) ∧
      (∀ label origin, MathRun.Agree doc (r.index.footnote (.str label) origin)
        (r'.index.footnote (.str label) origin)) ∧
      ∀ label origin, r'.index.codeLine label origin = r.index.codeLine label origin := by
  have hproper := isProper_of_isWellTyped hdoc
  obtain ⟨left, hedit⟩ := MathRun.exists_edit?_of_isProper hproper
  obtain ⟨doc', rfl, -⟩ := MathRun.isSettled_of_edit? hedit
  have hleaves : MathRun.Leaves doc doc' := hedit
  have hproper' := hleaves.isProper hproper
  have hmatched := hleaves.matched hdoc
  have hempty : References.empty.index.HasOffsets := fun e he ↦ absurd he List.not_mem_nil
  have hfirst : ∀ {n : Node}, n.isProper = true → ∀ test find?, LinkIndex.Finds test find? →
      find? (LinkIndex.empty.add (.ofRoot 0) n) =
        (n.occurrences (.ofRoot 0)).find? fun o ↦ test o.node := by
    intro n hn test find? hfinds
    rw [hfinds.add .empty hn, hfinds.empty]
    rfl
  refine ⟨doc', _, _, ?_, hmatched.mono fun o o' hco ↦ ⟨hco.place, hco.reads⟩,
    (References.add?_of_isProper hempty hproper _).1,
    (References.add?_of_isProper hempty hproper' _).1, ?_, ?_,
    MathRun.codeLine_of_matched hmatched⟩
  · rw [MathRun.mergeTree?_eq, hedit]
    rfl
  · intro kind path origin
    have hrel := MathRun.firstMatch?_of_isBlind hmatched
      fun test (htest : test ∈ linkTests kind path) ↦ MathRun.isBlind_linkTests htest
    rw [← LinkIndex.target?_eq_firstMatch? (hfirst hproper),
      ← LinkIndex.target?_eq_firstMatch? (hfirst hproper')] at hrel
    exact .orUnresolved hrel kind (.str path) origin
  · intro label origin
    have hrel := MathRun.find?_of_isBlind hmatched (MathRun.isBlind_definesFootnote label)
    rw [← hfirst hproper _ _ (LinkIndex.finds_footnotes label),
      ← hfirst hproper' _ _ (LinkIndex.finds_footnotes label)] at hrel
    exact .orUnresolved hrel "footnote" (.str label) origin

/-- A paragraph with a formula of two objects and a target after it. -/
def scriptedTarget : Node :=
  ⟨⟨.unknown, 0, none, [], .document [], []⟩, [paragraph], [], none, none⟩
where
  paragraph : Node := ⟨⟨.unknown, 0, none, [], .paragraph, []⟩, [formula, square, target], [], none,
    none⟩
  formula : Node := .inline .unknown 0 (.latexFragment "$x$") []
  square : Node := .inline .unknown 1 .superscript [.inline .unknown 0 (.text "2") []]
  target : Node := .inline .unknown 0 (.target "t") []

theorem scriptedTarget_moves :
    scriptedTarget.isWellTyped = true ∧ ∃ doc' r' o',
      MathRun.mergeTree? scriptedTarget = .ok doc' ∧
        References.empty.add? (.ofRoot 0) doc' = .ok r' ∧
          r'.index.resolveDatum "fuzzy" (.str "t") none = .ok o' ∧
            o'.place = ((Place.ofRoot 0).down .children 0).down .children 1 := by
  have htyped : scriptedTarget.isWellTyped = true := by decide
  obtain ⟨doc', r, r', hmerge, -, hadd, hadd', hlinks, -⟩ :=
    merging_runs_is_invisible scriptedTarget htyped
  have hindex : r.index = LinkIndex.empty.add (.ofRoot 0) scriptedTarget := by
    have hempty : References.empty.index.HasOffsets := fun e he ↦ absurd he List.not_mem_nil
    rw [(References.add?_of_isProper hempty (isProper_of_isWellTyped htyped) _).1] at hadd
    rw [← Except.ok.inj hadd]
    rfl
  have hfound : r.index.resolveDatum "fuzzy" (.str "t") none =
      .ok ⟨((Place.ofRoot 0).down .children 0).down .children 2, scriptedTarget.target⟩ := by
    rw [hindex]
    rfl
  have hagree := hlinks "fuzzy" "t" none
  rw [hfound] at hagree
  generalize hfound' : r'.index.resolveDatum "fuzzy" (.str "t") none = found' at hagree
  cases hagree with
  | @ok _ o' hco =>
    refine ⟨htyped, doc', r', o', hmerge, hadd', hfound', ?_⟩
    rw [hco.place]
    decide

end Typeset

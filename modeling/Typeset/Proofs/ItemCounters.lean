import Typeset.Proofs.Assembled
import Typeset.Proofs.Render.Enumerated
import Typeset.Proofs.Tree.PreparedTypes

/-!
# Counters of items

An item of an ordered list that says its number sets the counter of the lists around it. This is the
counter of the enumerations that are open there if these are lists, all of them. A section that is
too deep for a heading opens an enumeration as well, which no counter takes into account.
-/

namespace Typeset

open Action Context Latex Render Text

variable {config : Config} {doc tree : Node} {c d : Context} {t : String}

/-! ## Documents -/

/-- Preparing a document gives no list another environment. -/
theorem Node.KeepsListEnvironments.of_prepare? (hlists : doc.KeepsListEnvironments)
    (hdoc : doc.isWellTyped = true) (h : prepare? doc = .ok tree) :
    tree.KeepsListEnvironments := by
  intro n hn hkind
  rcases element_of_prepare? hdoc h hn with hrun | hdocument | ⟨k, hk, helement, hattributes⟩
  · cases hkind.symm.trans hrun
  · cases hkind.symm.trans hdocument
  · rw [← hattributes]
    exact hlists k hk ((congrArg Element.kind helement).trans hkind)

/-- A text that has been put into a buffer is one of its chunks. -/
theorem mem_chunks_of_route {z : Zone} {p : Option Place} (h : route z t p c = (.ok (), d)) :
    t ∈ d.buffers.chunks z := by
  unfold route at h
  split at h
  · cases h
  · next chunks hchunks =>
    have hz : z ≠ .body := by
      rintro rfl
      cases hchunks
    have hset : ∀ chunks', (c.buffers.set chunks' z).chunks z = chunks' := by
      intro chunks'
      rw [Buffers.chunks, Buffers.get?_set_self _ _ hz, Option.getD_some]
    split at h
    · obtain ⟨-, rfl⟩ := Prod.mk.inj h
      exact (hset _).symm ▸ List.mem_concat_self
    · dsimp only at h
      split at h
      · next hslot =>
        obtain ⟨-, rfl⟩ := Prod.mk.inj h
        exact (hset _).symm ▸ List.mem_set hslot t
      · cases h

/-- What the root of a document delivers gets into the document with all that it carries. -/
theorem Delivers.carries_minimal {o : Occurrence} {body : Option String} {ws : List String}
    (h : Delivers config o c body d t) (hroot : c.ancestors = []) (hws : AreCompact ws)
    (ht : Carries ws t.toList) :
    Carries ws (Assembly.minimal (Assembly.zoneText (body.getD "") d.buffers.chunks)).toList := by
  cases h with
  | inPlace => exact Assembly.carries_minimal_body hws ht
  | routed hzone hroute =>
    exact Assembly.carries_minimal_chunk hws hzone (mem_chunks_of_route hroute) ht
  | held _ hheld =>
    rw [Occurrence.heldFor?, Context.table?, hroot] at hheld
    cases hheld

/-! ## Counters -/

/-- An occurrence that is printed in a context delivers its marks, an item that says its number sets
a counter, and each counter is that of the ordered lists around, those that are open where it is set
included. It is that of all enumerations that are open there if these are lists. -/
structure Occurrence.CountsLists (config : Config) (depth : Nat) (o : Occurrence) (c : Context) :
    Prop where
  delivered : ∃ output d t,
    Render.node config (definitionText config depth) o.place o.node c = (.ok output, d) ∧
      Delivers config o (departure config (definitionText config depth) o c) output d t ∧
        Carries (EnumMark.texts (o.enumMarks config depth c)) t.toList
  item : ∀ checkbox n, o.node.element = .item checkbox (some n) →
    (∃ list, c.parent? = some list ∧ list.node.isOrderedList = true) →
      ∃ rest, o.enumMarks config depth c = .sets c.orderedDepth (n - 1) :: rest
  counter : ∀ before k value after,
    o.enumMarks config depth c = before ++ .sets k value :: after →
      k = c.orderedDepth + (EnumMark.openAfter before).count true
  agrees : ∀ before k value after,
    o.enumMarks config depth c = before ++ .sets k value :: after →
      (∀ ofList ∈ EnumMark.openAfter before, ofList = true) →
        k = c.orderedDepth + (EnumMark.openAfter before).length

/-- An item of an ordered list that says its number sets the counter of the lists around it. -/
theorem Occurrence.exists_enumMarks_of_item {depth : Nat} {o : Occurrence}
    {checkbox : Option Checkbox} {n : Int} {list : Occurrence}
    (hancestors : (departure config (definitionText config depth) o c).ancestors = c.ancestors)
    (helement : o.node.element = .item checkbox (some n)) (hparent : c.parent? = some list)
    (hordered : list.node.isOrderedList = true) :
    ∃ rest, o.enumMarks config depth c = .sets c.orderedDepth (n - 1) :: rest := by
  have hdepth : itemDepth? (departure config (definitionText config depth) o c) =
      some c.orderedDepth := by
    rw [itemDepth?, Context.parent?, Context.orderedDepth, hancestors]
    rw [Context.parent?] at hparent
    rw [hparent, Option.any_some, if_pos hordered, Context.orderedDepth]
  rw [enumMarks_eq]
  simp only [elementMarks, helement, itemMarks, hdepth]
  exact ⟨_, rfl⟩

/-- Whatever the printing of a document comes to counts the ordered lists around. -/
theorem Reaches.countsLists (htree : tree.isProper = true) (hlists : tree.KeepsListEnvironments)
    {body : Option String} {r : Context}
    (hrun : occurrence config ⟨.ofRoot 0, tree⟩ tree.start = (.ok body, r)) {depth : Nat}
    {o : Occurrence} (h : Reaches config tree depth o c) : o.CountsLists config depth c := by
  obtain ⟨output, d, t, hnode, hdelivers, hstand⟩ := h.exists_delivered htree hlists hrun
  obtain ⟨outputs, e, -, hancestors, rfl, -⟩ := (h.exists_run htree hrun).1.ok_of_node htree hnode
  refine ⟨⟨output, d, t, hnode, hdelivers, hstand.carries⟩, ?_, ?_, ?_⟩
  · rintro checkbox n helement ⟨list, hparent, hordered⟩
    exact Occurrence.exists_enumMarks_of_item hancestors helement hparent hordered
  · exact fun before k value after hmarks ↦ hstand.nested.eq_of_sets hmarks
  · intro before k value after hmarks hopen
    rw [hstand.nested.eq_of_sets hmarks,
      List.count_eq_length.mpr fun ofList hmem ↦ (hopen ofList hmem).symm]

/-- The marks in what a document prints. -/
def Node.enumMarks (config : Config) (doc : Node) : List EnumMark :=
  Occurrence.enumMarks config doc.index.footnotes.length ⟨.ofRoot 0, doc⟩ doc.start

/-- A document in which lists have their own environments carries the marks of its enumerations, and
each counter is that of the enumerations that are open where it is set, if all of them are lists.
Whatever is printed counts the ordered lists around, in the sections and rows that do not stand in
their places as well. -/
theorem counters_are_those_of_lists {config : Config} {doc : Node} {t : Typescript}
    (hdoc : doc.isWellTyped = true) (hlists : doc.KeepsListEnvironments)
    (h : typeset config doc = .ok t) :
    ∃ tree body r warnings, prepare? doc = .ok tree ∧
      occurrence config ⟨.ofRoot 0, tree⟩ tree.start = (.ok body, r) ∧
        Assembly.assemble config (body.getD "") r.buffers.chunks config.template
            tree.properties = .ok (t.text, warnings) ∧
          (config.template = .null →
            Carries (EnumMark.texts (tree.enumMarks config)) t.text.toList) ∧
            (∀ before k value after, tree.enumMarks config = before ++ .sets k value :: after →
              (∀ ofList ∈ EnumMark.openAfter before, ofList = true) →
                k = (EnumMark.openAfter before).length) ∧
              ∀ depth o c, Reaches config tree depth o c → o.CountsLists config depth c := by
  obtain ⟨tree, body, r, warnings, htree, hproper, hrun, htext⟩ :=
    exists_printed_of_typeset (Node.isProper_of_isWellTyped hdoc) h
  have hcounts : ∀ depth o c, Reaches config tree depth o c → o.CountsLists config depth c :=
    fun depth o c hreaches ↦ hreaches.countsLists hproper (hlists.of_prepare? hdoc htree) hrun
  have hroot := hcounts _ _ _ .root
  refine ⟨tree, body, r, warnings, htree, hrun, htext, fun htemplate ↦ ?_, ?_, hcounts⟩
  · -- the run of the document is that of its root, so what the root delivers is in the zones
    obtain ⟨output, d, text, hnode, hdelivers, hcarries⟩ := hroot.delivered
    obtain ⟨-, -, -, hancestors, rfl, -⟩ := (arrives_ofRoot tree).ok_of_node hproper hnode
    obtain ⟨hbody, rfl⟩ := Prod.mk.inj (hrun.symm.trans hnode)
    obtain rfl := Except.ok.inj hbody
    rw [htemplate] at htext
    rw [← (Prod.mk.inj (Except.ok.inj htext)).1]
    exact hdelivers.carries_minimal hancestors (EnumMark.areCompact_texts _) hcarries
  · intro before k value after hmarks hopen
    have hdepth : tree.start.orderedDepth = 0 := by rfl
    have hagrees := hroot.agrees before k value after hmarks hopen
    rwa [hdepth, Nat.zero_add] at hagrees

/-- An ordered list with an item that says its number. -/
def numberedList (n : Int) (text : String) : Node :=
  block (.plainList .ordered) [block (.item none (some n)) [paragraph]]
where
  block (e : Element) (children : List Node) : Node :=
    ⟨⟨.unknown, 0, none, [], e, []⟩, children, [], none, none⟩
  paragraph : Node := block .paragraph [.inline .unknown 0 (.text text) []]

/-- A numbered list in the item of another one. -/
def nestedLists : Node :=
  numberedList.block (.document [])
    [numberedList.block (.plainList .ordered)
      [numberedList.block (.item none none) [numberedList.paragraph "x", numberedList 5 "y"]]]

theorem nestedLists_counters_are_those_of_lists :
    nestedLists.isWellTyped = true ∧ nestedLists.KeepsListEnvironments ∧
      ∃ t, typeset .default nestedLists = .ok t ∧
        nestedLists.enumMarks .default =
            [.opens true, .opens true, .sets 2 4, .closes, .closes] ∧
          Carries [opening "enumerate", opening "enumerate", "\\setcounter\x7benumii\x7d\x7b4\x7d",
            closing "enumerate", closing "enumerate"] t.text.toList ∧
            2 = (EnumMark.openAfter [.opens true, .opens true]).length := by
  have htyped : nestedLists.isWellTyped = true := by decide
  have hlists : nestedLists.KeepsListEnvironments := by decide
  obtain ⟨t, htypeset, -⟩ := exists_ok_of_any (x := typeset .default nestedLists)
    (p := fun _ ↦ true) (by decide +kernel)
  obtain ⟨tree, body, r, warnings, htree, -, -, hcarries, hcounter, -⟩ :=
    counters_are_those_of_lists htyped hlists htypeset
  have hprepared : prepare? nestedLists = .ok nestedLists := by rfl
  obtain rfl := Except.ok.inj (hprepared.symm.trans htree)
  have hmarks : nestedLists.enumMarks .default =
      [.opens true, .opens true, .sets 2 4, .closes, .closes] := by rfl
  have htexts := hcarries rfl
  rw [hmarks] at htexts
  exact ⟨htyped, hlists, t, htypeset, hmarks, htexts,
    hcounter [.opens true, .opens true] 2 4 _ hmarks (by decide)⟩

/-- A numbered list in a section that is too deep for a heading. -/
def deepList : Node := numberedList.block (.document []) [heading]
where
  heading : Node := numberedList.block (.heading ⟨4, none, some "h", none, false, []⟩)
    [numberedList 3 "x"]
  printed : String := opening "enumerate" ++ "\n\\item " ++ labelCommand "sec:h" ++ "\n" ++
    opening "enumerate" ++ "\n\\setcounter\x7benumi\x7d\x7b2\x7d\n\\item x\n" ++
      closing "enumerate" ++ "\n" ++ closing "enumerate" ++ "\n"

/-- The section opens an enumeration that the counter of the list does not take into account: it is
that of the section and not that of the list. -/
theorem deepList_counter_is_of_outer_enumeration :
    deepList.isWellTyped = true ∧ deepList.KeepsListEnvironments ∧
      typeset .default deepList = .ok ⟨deepList.printed, []⟩ ∧
        deepList.enumMarks .default = [.opens false, .opens true, .sets 1 2, .closes, .closes] ∧
          (EnumMark.openAfter [.opens false, .opens true]).length = 2 ∧
            enumCounter 2 ≠ enumCounter 1 := by
  obtain ⟨t, htypeset, ht⟩ := exists_ok_of_any (x := typeset .default deepList)
    (p := fun t ↦ t == ⟨deepList.printed, []⟩) (by decide +kernel)
  rw [beq_iff_eq] at ht
  exact ⟨by decide, by decide, htypeset.trans (congrArg _ ht), by decide +kernel, by rfl, by decide⟩

end Typeset

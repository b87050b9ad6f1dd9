import Typeset.Proofs.Resolution

/-!
# Blocks of code in an index

An index has the blocks of code of a tree in the order of the visit. The numbers of their first
lines are kept by place, for those that are numbered.
-/

namespace Typeset

/-- The block of code that an element is. -/
def Element.codeBlock? : Element → Option CodeBlock
  | .codeBlock b => some b
  | _ => none

theorem Element.codeBlock?_eq_some_iff {e : Element} {b : CodeBlock} :
    e.codeBlock? = some b ↔ e = .codeBlock b := by
  cases e <;> simp [codeBlock?]

instance (e : Element) (P : CodeBlock → Prop) [DecidablePred P] :
    Decidable (∀ b, e = .codeBlock b → P b) :=
  decidable_of_iff (∀ b ∈ e.codeBlock?, P b)
    (forall_congr' fun _ ↦ imp_congr_left Element.codeBlock?_eq_some_iff)

/-- The entry of an occurrence that is a block of code. -/
def Occurrence.listing? (o : Occurrence) : Option CodeEntry :=
  o.node.element.codeBlock?.map (.ofOccurrence o)

theorem Occurrence.listing?_eq_some_iff {o : Occurrence} {e : CodeEntry} :
    o.listing? = some e ↔ ∃ b, o.node.element = .codeBlock b ∧ e = .ofOccurrence o b := by
  simp only [listing?, Option.map_eq_some_iff, Element.codeBlock?_eq_some_iff, eq_comm (b := e)]

namespace LinkIndex

/-- An index has the blocks of code of a tree in the order of the visit. -/
theorem codeBlocks_add (ix : LinkIndex) (p : Place) (n : Node) :
    (ix.add p n).codeBlocks = ix.codeBlocks ++ (n.occurrences p).filterMap (·.listing?) := by
  have hrecord : ∀ (ix : LinkIndex) (o : Occurrence),
      (ix.record o).codeBlocks = ix.codeBlocks ++ o.listing?.toList := by
    intro ix o
    rw [record_codeBlocks, Occurrence.listing?]
    cases o.node.element <;> rfl
  have hfold : ∀ (os : List Occurrence) (ix : LinkIndex),
      (os.foldl record ix).codeBlocks = ix.codeBlocks ++ os.filterMap (·.listing?) := by
    intro os
    induction os with
    | nil => simp
    | cons o os ih =>
      intro ix
      rw [List.foldl_cons, ih, hrecord, List.append_assoc, List.filterMap_cons]
      cases o.listing? <;> rfl
  exact hfold (n.occurrences p) ix

/-- All blocks of code that have numbers have got them when a tree is indexed. -/
theorem take_numberedCount_add (ix : LinkIndex) (p : Place) (n : Node) :
    (ix.add p n).codeBlocks.take (ix.add p n).numberedCount = (ix.add p n).codeBlocks :=
  List.take_length

end LinkIndex

namespace CodeEntry

variable {f : Place → Place}

/-- The entry of the same block of code at another place. -/
def relocated (f : Place → Place) (e : CodeEntry) : CodeEntry := { e with place := f e.place }

theorem firstLinesFrom_relocated (running : Int) (es : List CodeEntry) :
    firstLinesFrom running (es.map (relocated f)) =
      (firstLinesFrom running es).map fun l ↦ (f l.1, l.2) := by
  induction es generalizing running with
  | nil => rfl
  | cons e es ih =>
    rw [List.map_cons, firstLinesFrom, firstLinesFrom]
    have hfault : (relocated f e).offsetFault? = e.offsetFault? := rfl
    have hfirst : (relocated f e).block.firstLine? running = e.block.firstLine? running := rfl
    rw [hfault, hfirst]
    cases e.offsetFault?.isSome with
    | true => rfl
    | false =>
      cases e.block.firstLine? running with
      | none => exact ih running
      | some first =>
        have hrest := ih (first - 1 + e.block.lineCount)
        exact congrArg (((f e.place, first) : Place × Int) :: ·) hrest

theorem mem_of_firstLinesFrom {running : Int} {es : List CodeEntry} {l : Place × Int}
    (h : l ∈ firstLinesFrom running es) : ∃ e ∈ es, e.place = l.1 := by
  induction es generalizing running with
  | nil => cases h
  | cons e es ih =>
    have hrest : ∀ {running : Int}, l ∈ firstLinesFrom running es →
        ∃ e' ∈ e :: es, e'.place = l.1 := fun h ↦ by
      obtain ⟨e', he', heq⟩ := ih h
      exact ⟨e', .tail _ he', heq⟩
    rw [firstLinesFrom] at h
    split at h
    · cases h
    · split at h
      · exact hrest h
      · rcases List.mem_cons.mp h with rfl | h
        · exact ⟨e, List.mem_cons_self, rfl⟩
        · exact hrest h

end CodeEntry

namespace LinkIndex

variable {ix ix' : LinkIndex} {f : Place → Place}

/-- Two indexes have numbered the same blocks of code, which stand at other places in the second
one. -/
structure Relocates (f : Place → Place) (ix ix' : LinkIndex) : Prop where
  codeBlocks : ix'.codeBlocks = ix.codeBlocks.map (CodeEntry.relocated f)
  numbered : ix.codeBlocks.take ix.numberedCount = ix.codeBlocks
  numbered' : ix'.codeBlocks.take ix'.numberedCount = ix'.codeBlocks

namespace Relocates

variable (h : Relocates f ix ix')

include h

/-- A place has the first line that it had before, if no block has moved there from elsewhere. -/
theorem firstLine? {p : Place} (hinj : ∀ e ∈ ix.codeBlocks, f e.place = f p → e.place = p) :
    ix'.firstLine? (f p) = ix.firstLine? p := by
  rw [LinkIndex.firstLine?, LinkIndex.firstLine?, h.numbered, h.numbered', h.codeBlocks,
    CodeEntry.firstLinesFrom_relocated, ← List.map_reverse]
  refine Assoc.lookup_map (f := f) fun l hl heq ↦ ?_
  obtain ⟨e, he, hplace⟩ := CodeEntry.mem_of_firstLinesFrom (List.mem_reverse.mp hl)
  rw [← hplace] at heq ⊢
  exact hinj e he heq

/-- A code label stands for one number among blocks that have moved to places of their own. -/
theorem codeLine (hinj : ∀ e ∈ ix.codeBlocks, ∀ e' ∈ ix.codeBlocks,
      f e.place = f e'.place → e.place = e'.place) (label : Datum) (origin : Option Origin) :
    ix'.codeLine label origin = ix.codeLine label origin := by
  have hall : ∀ es : List CodeEntry, (∀ e ∈ es, e ∈ ix.codeBlocks) →
      ix'.codeLineIn label origin (es.map (CodeEntry.relocated f)) =
        ix.codeLineIn label origin es := by
    intro es hes
    induction es with
    | nil => rfl
    | cons e es ih =>
      have hfirst : ix'.firstLine? (CodeEntry.relocated f e).place = ix.firstLine? e.place :=
        h.firstLine? fun e' he' ↦ hinj e' he' e (hes e List.mem_cons_self)
      rw [List.map_cons, LinkIndex.codeLineIn, LinkIndex.codeLineIn, hfirst,
        ih fun e he ↦ hes e (.tail _ he)]
      rfl
  rw [LinkIndex.codeLine, LinkIndex.codeLine, h.codeBlocks]
  exact hall ix.codeBlocks fun e he ↦ he

end Relocates

end LinkIndex

end Typeset

import Typeset.Proofs.Assoc
import Typeset.Proofs.Tree.Unkeyed
import Typeset.Reference.Index
import Typeset.Reference.Resolve

/-!
# Indexing a tree without its empty keys

What is entered into an index of a tree without its empty keys is what is entered into that of the
tree, without empty keys of its own: no empty key is ever entered.
-/

namespace Typeset

open Node

namespace Occurrence

/-- The occurrence without empty keys. -/
def unkey (o : Occurrence) : Occurrence := ⟨o.place, o.node.unkey⟩

@[simp] theorem place_unkey (o : Occurrence) : o.unkey.place = o.place := rfl

@[simp] theorem node_unkey (o : Occurrence) : o.unkey.node = o.node.unkey := rfl

end Occurrence

/-- Occurrences by key, without empty keys of their own. -/
def unkeyTargets {α : Type} (t : List (α × Occurrence)) : List (α × Occurrence) :=
  t.map fun e ↦ (e.1, e.2.unkey)

namespace LinkIndex

/-- The index with all occurrences in it without empty keys. -/
def unkey (ix : LinkIndex) : LinkIndex where
  names := unkeyTargets ix.names
  customIds := unkeyTargets ix.customIds
  identifiers := unkeyTargets ix.identifiers
  titles := unkeyTargets ix.titles
  targets := unkeyTargets ix.targets
  radioTargets := unkeyTargets ix.radioTargets
  footnotes := unkeyTargets ix.footnotes
  codeBlocks := ix.codeBlocks
  numberedCount := ix.numberedCount

end LinkIndex

/-! ## Indexing -/

namespace Node

variable (n : Node)

/-- A key is there or not as before, unless it is empty. -/
theorem filter_isEmpty_cases (key : Option String) : key.filter (!·.isEmpty) = key ∨
    key.filter (!·.isEmpty) = none ∧ key = some "" := by
  cases key with
  | none => exact .inl rfl
  | some t =>
    by_cases ht : t = ""
    · exact .inr ⟨by rw [ht]; rfl, by rw [ht]⟩
    · exact .inl (by simp [Option.filter, ht])

/-- So is a name, and no label depends on it then. -/
theorem name_unkey_cases : n.unkey.info.name = n.info.name ∨
    n.unkey.info.name = none ∧ n.info.name = some "" ∧ n.sparesName = true := by
  rw [name_unkey]
  split
  · next hspares => exact (filter_isEmpty_cases _).imp_right fun h ↦ ⟨h.1, h.2, hspares⟩
  · exact .inl rfl

/-- So is the key of a label. -/
theorem explicitKey_unkey_cases : n.unkey.explicitKey = n.explicitKey ∨
    n.unkey.explicitKey = none ∧ n.explicitKey = some "" ∧ n.sparesName = true := by
  rw [explicitKey, explicitKey, element_unkey, loose?_unkey]
  cases n.element with
  | heading h =>
    dsimp only [Element.unkey]
    rcases filter_isEmpty_cases h.customId with heq | ⟨hnone, hempty⟩
    · rw [heq]
      split
      · exact n.name_unkey_cases
      · exact n.name_unkey_cases
      · exact .inl rfl
    · rw [hnone, hempty]
      exact n.name_unkey_cases
  | entity name => exact .inl rfl
  | _ => exact n.name_unkey_cases

theorem occurrencesIn_unkey {ns : List Node}
    (h : ∀ n ∈ ns, ∀ p, n.unkey.occurrences p = (n.occurrences p).map Occurrence.unkey) (p : Place)
    (b : Branch) (i : Nat) :
    occurrencesIn p b i (ns.map Node.unkey) = (occurrencesIn p b i ns).map Occurrence.unkey := by
  induction ns generalizing i with
  | nil => rfl
  | cons n ns ih =>
    rw [List.map_cons, occurrencesIn, occurrencesIn, List.map_append, h n List.mem_cons_self,
      ih fun m hm ↦ h m (.tail _ hm)]

theorem occurrences_unkey (p : Place) :
    n.unkey.occurrences p = (n.occurrences p).map Occurrence.unkey := by
  induction n using Node.induction generalizing p with
  | step n ih =>
    have hin : ∀ b, occurrencesIn p b 0 (n.unkey.branch b) =
        (occurrencesIn p b 0 (n.branch b)).map Occurrence.unkey := by
      intro b
      rw [branch_unkey]
      exact occurrencesIn_unkey (ih b) p b 0
    rw [occurrences_eq, occurrences_eq, List.map_cons, List.map_append, List.map_append,
      List.map_append, ← branch_children, ← branch_title, ← branch_tag, ← branch_caption,
      hin, hin, hin, hin]
    rfl

end Node

theorem CodeEntry.ofOccurrence_unkey (o : Occurrence) (b : CodeBlock) :
    ofOccurrence o.unkey b = ofOccurrence o b := by
  rw [ofOccurrence, ofOccurrence, o.node_unkey, loose?_unkey, loose?_unkey]
  rfl

namespace LinkIndex

variable (ix : LinkIndex) (o : Occurrence)

theorem register_unkey {α : Type} [BEq α] (key : α) (t : List (α × Occurrence)) :
    Assoc.register key o.unkey (unkeyTargets t) = unkeyTargets (Assoc.register key o t) :=
  Assoc.register_map_snd Occurrence.unkey key o t

theorem enter_unkey {key key' : Option String} (h : key' = key ∨ key' = none ∧ key = some "")
    (t : Targets) : enter key' o.unkey (unkeyTargets t) = unkeyTargets (enter key o t) := by
  rcases h with rfl | ⟨rfl, rfl⟩
  · unfold enter
    split
    · rfl
    · rfl
    · exact register_unkey o _ t
  · rfl

theorem recordName_unkey : ix.unkey.recordName o.unkey = (ix.recordName o).unkey := by
  have hname : o.unkey.node.info.name = o.node.info.name ∨
      o.unkey.node.info.name = none ∧ o.node.info.name = some "" :=
    o.node.name_unkey_cases.imp_right fun h ↦ ⟨h.1, h.2.1⟩
  rw [recordName, recordName, show o.unkey.node.isBlock = _ from isBlock_unkey o.node]
  split
  · exact congrArg (fun t ↦ { ix.unkey with names := t }) (enter_unkey o hname ix.names)
  · rfl

theorem recordCustomId_unkey (h : Heading) :
    ix.unkey.recordCustomId o.unkey { h with customId := h.customId.filter (!·.isEmpty) } =
      (ix.recordCustomId o h).unkey := by
  have hkey := filter_isEmpty_cases h.customId
  exact congrArg (fun t ↦ { ix.unkey with customIds := t }) (enter_unkey o hkey ix.customIds)

theorem recordIdentifier_unkey (h : Heading) :
    ix.unkey.recordIdentifier o.unkey h = (ix.recordIdentifier o h).unkey := by
  have hkey : identifierKey? o.unkey.node h.identifier = identifierKey? o.node h.identifier := by
    unfold identifierKey?
    rw [o.node_unkey, loose?_unkey]
  rw [recordIdentifier, recordIdentifier, hkey]
  split
  · next key _ =>
    exact congrArg (fun t ↦ { ix.unkey with identifiers := t })
      (register_unkey o key ix.identifiers)
  · rfl

theorem recordTitle_unkey : ix.unkey.recordTitle o.unkey = (ix.recordTitle o).unkey := by
  rw [recordTitle, o.node_unkey, title_unkey, plainTexts_unkey]
  exact congrArg (fun t ↦ { ix.unkey with titles := t }) (register_unkey o _ ix.titles)

theorem recordElement_unkey : ix.unkey.recordElement o.unkey = (ix.recordElement o).unkey := by
  rw [recordElement, recordElement, o.node_unkey, element_unkey]
  cases o.node.element with
  | heading h =>
    show ((ix.unkey.recordCustomId o.unkey { h with
      customId := h.customId.filter (!·.isEmpty) }).recordIdentifier o.unkey h).recordTitle
        o.unkey = _
    rw [recordCustomId_unkey, recordIdentifier_unkey, recordTitle_unkey]
  | target value =>
    dsimp only [Element.unkey]
    rw [loose?_unkey]
    split
    · rfl
    · exact congrArg (fun t ↦ { ix.unkey with targets := t }) (register_unkey o value ix.targets)
  | radioTarget value =>
    exact congrArg (fun t ↦ { ix.unkey with radioTargets := t })
      (register_unkey o (normalize value) ix.radioTargets)
  | footnoteDefinition label =>
    have hlabel : labelKey o.node.unkey label = labelKey o.node label := by
      rw [labelKey, labelKey, loose?_unkey]
    dsimp only [Element.unkey]
    rw [hlabel]
    exact congrArg (fun t ↦ { ix.unkey with footnotes := t }) (register_unkey o _ ix.footnotes)
  | codeBlock b =>
    dsimp only [Element.unkey]
    rw [CodeEntry.ofOccurrence_unkey]
    rfl
  | _ => rfl

/-- What is indexed of a tree without empty keys is what is indexed of the tree. -/
theorem add_unkey (p : Place) (n : Node) : ix.unkey.add p n.unkey = (ix.add p n).unkey := by
  have hfold : ∀ (os : List Occurrence) (ix : LinkIndex),
      (os.map Occurrence.unkey).foldl record ix.unkey = (os.foldl record ix).unkey := by
    intro os
    induction os with
    | nil => exact fun _ ↦ rfl
    | cons o os ih =>
      intro ix
      rw [List.map_cons, List.foldl_cons, List.foldl_cons, ← ih, record, record, recordName_unkey,
        recordElement_unkey]
  rw [add, add, occurrences_unkey, hfold]
  rfl

end LinkIndex

/-! ## Links -/

namespace LinkIndex

variable (ix : LinkIndex)

theorem lookup_unkeyTargets {α : Type} [BEq α] (t : List (α × Occurrence)) (key : α) :
    (unkeyTargets t).lookup key = (t.lookup key).map Occurrence.unkey :=
  Assoc.lookup_map_snd Occurrence.unkey t key

theorem target?_unkey (kind path : String) :
    ix.unkey.target? kind path = (ix.target? kind path).map Occurrence.unkey := by
  unfold target?
  split
  · exact lookup_unkeyTargets ..
  · exact lookup_unkeyTargets ..
  · exact lookup_unkeyTargets ..
  · split
    · exact lookup_unkeyTargets ..
    · rw [Option.map_or, Option.map_or, ← lookup_unkeyTargets, ← lookup_unkeyTargets,
        ← lookup_unkeyTargets]
      rfl
  · rfl

theorem orUnresolved_unkey (kind : String) (path : Datum) (origin : Option Origin)
    (o : Option Occurrence) : orUnresolved kind path origin (o.map Occurrence.unkey) =
      (orUnresolved kind path origin o).map Occurrence.unkey := by
  cases o <;> rfl

theorem resolveDatum_unkey (kind : String) (path : Datum) (origin : Option Origin) :
    ix.unkey.resolveDatum kind path origin =
      (ix.resolveDatum kind path origin).map Occurrence.unkey := by
  unfold resolveDatum
  split
  · rw [resolve, resolve, target?_unkey, orUnresolved_unkey]
  · split
    · rfl
    · rw [← orUnresolved_unkey, ← lookup_unkeyTargets]
      rfl
  · rfl
  · rfl

theorem footnote_unkey (label : Datum) (origin : Option Origin) :
    ix.unkey.footnote label origin = (ix.footnote label origin).map Occurrence.unkey := by
  rw [footnote, footnote]
  split
  · rfl
  · rw [← orUnresolved_unkey, ← lookup_unkeyTargets]
    rfl

/-- Blocks of code are numbered by what they hold. -/
theorem codeLine_unkey (label : Datum) (origin : Option Origin) :
    ix.unkey.codeLine label origin = ix.codeLine label origin := by
  have hin : ∀ es, codeLineIn ix.unkey label origin es = codeLineIn ix label origin es := by
    intro es
    induction es with
    | nil => rfl
    | cons e es ih => rw [codeLineIn, codeLineIn, ih]; rfl
  exact hin ix.codeBlocks

end LinkIndex

end Typeset

import Typeset.Proofs.Assoc
import Typeset.Proofs.Matched
import Typeset.Proofs.Tree.Faultless
import Typeset.Reference.Label
import Typeset.Reference.Resolve

/-!
# What links point at

The tables of an index are filled as a visit comes by, the first entry of a key staying. What a link
finds in them is said here without tables: the first match in the order in which the indexed trees
are visited, for the first of the link's tests that anything passes.
-/

namespace Typeset

/-! ## The tests of a link -/

namespace Node

/-- A heading with this custom id, which is not empty. -/
def hasCustomId (id : String) (n : Node) : Bool :=
  match n.element with
  | .heading h => h.customId.any fun t ↦ !t.isEmpty && t == id
  | _ => false

/-- A heading with this identifier, which is not empty. -/
def hasIdentifier (id : String) (n : Node) : Bool :=
  match n.element with
  | .heading h => h.identifier.any fun t ↦ !t.isEmpty && t == id
  | _ => false

/-- A heading whose title has this plain text, but for white space and case. -/
def isTitled (text : String) (n : Node) : Bool :=
  match n.element with
  | .heading _ => LinkIndex.normalize (plainTexts n.title) == LinkIndex.normalize text
  | _ => false

/-- A block with this name, which is not empty. -/
def isNamed (name : String) (n : Node) : Bool :=
  n.isBlock && n.info.name.any fun t ↦ !t.isEmpty && t == name

/-- A target with this text. -/
def isTarget (text : String) (n : Node) : Bool :=
  match n.element with
  | .target value => value == text
  | _ => false

/-- A radio target with this text, but for white space and case. -/
def isRadioTarget (text : String) (n : Node) : Bool :=
  match n.element with
  | .radioTarget value => LinkIndex.normalize value == LinkIndex.normalize text
  | _ => false

/-- The definition of the footnote with this label. -/
def definesFootnote (label : String) (n : Node) : Bool :=
  match n.element with
  | .footnoteDefinition l => l == label
  | _ => false

end Node

/-- What a link of a kind looks for along its path, the first wish first. -/
def linkTests (kind path : String) : List (Node → Bool) :=
  match kind with
  | "custom-id" => [Node.hasCustomId (Text.dropBeginning path "#")]
  | "id" => [Node.hasIdentifier path]
  | "radio" => [Node.isRadioTarget path]
  | "fuzzy" =>
    match path.toList with
    | '*' :: title => [Node.isTitled (.ofList title)]
    | _ => [Node.isTarget path, Node.isNamed path, Node.isTitled path]
  | _ => []

/-- The first occurrence that passes the first test that any passes. -/
def firstMatch? (tests : List (Node → Bool)) (visits : List Occurrence) : Option Occurrence :=
  tests.findSome? fun test ↦ visits.find? fun o ↦ test o.node

/-- What visits of some trees come to, one tree after the other. -/
def visitsOf (roots : List Occurrence) : List Occurrence :=
  roots.flatMap fun o ↦ o.node.occurrences o.place

@[simp] theorem visitsOf_cons (o : Occurrence) (roots : List Occurrence) :
    visitsOf (o :: roots) = o.node.occurrences o.place ++ visitsOf roots :=
  List.flatMap_cons

/-- The references with trees indexed one after the other, unless something is wrong. -/
def References.addAll? (r : References) (roots : List Occurrence) : Except Failure References :=
  roots.foldlM (fun r o ↦ r.add? o.place o.node) r

@[simp] theorem firstMatch?_nil (visits : List Occurrence) : firstMatch? [] visits = none := rfl

@[simp] theorem firstMatch?_cons (test : Node → Bool) (tests : List (Node → Bool))
    (visits : List Occurrence) :
    firstMatch? (test :: tests) visits =
      (visits.find? fun o ↦ test o.node).or (firstMatch? tests visits) := by
  rw [firstMatch?, List.findSome?_cons]
  cases visits.find? fun o ↦ test o.node <;> rfl

/-- The first match has the counterpart that is the first match among the counterparts, if tests pass
together and nothing extra passes one. -/
theorem Matched.firstMatch? {R : Occurrence → Occurrence → Prop} {P : Occurrence → Prop}
    {os os' : List Occurrence} (h : Matched R P os os') {tests : List (Node → Bool)}
    (hR : ∀ test ∈ tests, ∀ o o', R o o' → test o'.node = test o.node)
    (hP : ∀ test ∈ tests, ∀ o, P o → test o.node = false) :
    Option.Rel R (Typeset.firstMatch? tests os) (Typeset.firstMatch? tests os') := by
  induction tests with
  | nil => exact .none
  | cons test tests ih =>
    rw [firstMatch?_cons, firstMatch?_cons]
    refine optionRel_or (h.find? (hR test List.mem_cons_self) (hP test List.mem_cons_self)) ?_
    exact ih (fun t ht ↦ hR t (.tail _ ht)) fun t ht ↦ hP t (.tail _ ht)

/-- What all tests have that a link can be after, all tests of a link have. -/
theorem forall_mem_linkTests {P : (Node → Bool) → Prop} (hcustomId : ∀ t, P (Node.hasCustomId t))
    (hidentifier : ∀ t, P (Node.hasIdentifier t)) (hradio : ∀ t, P (Node.isRadioTarget t))
    (htitled : ∀ t, P (Node.isTitled t)) (htarget : ∀ t, P (Node.isTarget t))
    (hnamed : ∀ t, P (Node.isNamed t)) (kind path : String) :
    ∀ test ∈ linkTests kind path, P test := by
  unfold linkTests
  split
  · exact List.forall_mem_singleton.mpr (hcustomId _)
  · exact List.forall_mem_singleton.mpr (hidentifier _)
  · exact List.forall_mem_singleton.mpr (hradio _)
  · split
    · exact List.forall_mem_singleton.mpr (htitled _)
    · refine List.forall_mem_cons.mpr ⟨htarget _, List.forall_mem_cons.mpr ⟨hnamed _, ?_⟩⟩
      exact List.forall_mem_singleton.mpr (htitled _)
  · exact List.forall_mem_nil _

/-- Links find both nodes by the same texts. Documents can have nothing but a name for this. -/
structure Node.IsKeyedLike (n n' : Node) : Prop where
  name : n'.info.name = n.info.name
  element : n'.element = n.element ∨
    (∃ properties, n.element = .document properties) ∧ ∃ properties, n'.element = .document properties
  title : plainTexts n'.title = plainTexts n.title

theorem Node.IsKeyedLike.trans {n₁ n₂ n₃ : Node} (h : n₁.IsKeyedLike n₂) (h' : n₂.IsKeyedLike n₃) :
    n₁.IsKeyedLike n₃ where
  name := h'.name.trans h.name
  element := by
    rcases h.element with he | ⟨hn₁, -⟩
    · rw [← he]
      exact h'.element
    · rcases h'.element with he' | ⟨-, hn₃⟩
      · rw [he']
        exact h.element
      · exact .inr ⟨hn₁, hn₃⟩
  title := h'.title.trans h.title

theorem Node.IsKeyedLike.test_eq {n n' : Node} (h : n.IsKeyedLike n') (kind path : String) :
    ∀ test ∈ linkTests kind path, test n' = test n := by
  refine forall_mem_linkTests ?_ ?_ ?_ ?_ ?_ ?_ kind path <;> intro t <;>
    rcases h.element with he | ⟨⟨_, he⟩, _, he'⟩
  · rw [hasCustomId, hasCustomId, he]
  · rw [hasCustomId, hasCustomId, he, he']
  · rw [hasIdentifier, hasIdentifier, he]
  · rw [hasIdentifier, hasIdentifier, he, he']
  · rw [isRadioTarget, isRadioTarget, he]
  · rw [isRadioTarget, isRadioTarget, he, he']
  · rw [isTitled, isTitled, he, h.title]
  · rw [isTitled, isTitled, he, he']
  · rw [isTarget, isTarget, he]
  · rw [isTarget, isTarget, he, he']
  · rw [isNamed, isNamed, isBlock, isBlock, Node.kind, Node.kind, he, h.name]
  · rw [isNamed, isNamed, isBlock, isBlock, Node.kind, Node.kind, he, he', h.name]
    rfl

theorem firstMatch?_eq_none_iff (tests : List (Node → Bool)) (visits : List Occurrence) :
    firstMatch? tests visits = none ↔
      ∀ test ∈ tests, ∀ o ∈ visits, test o.node = false := by
  simp [firstMatch?]

namespace LinkIndex

/-! ## Proper trees stop no visit -/

theorem recordFault?_eq_none {n : Node} (h : n.isProper = true) : recordFault? n = none := by
  have htitle : titleFault? n = none := by
    have hbelow : ∀ m ∈ n.title, m.isProper = true := ((Node.isProper_iff n).mp h).2 .title
    simp [titleFault?, Node.loose?_eq_none h, Node.plainTextsFault?_eq_none hbelow]
  have hname : nameFault? n = none := by
    simp [nameFault?, trueKeyFault?, Node.loose?_eq_none h]
  have helement : elementFault? n = none := by
    unfold elementFault?
    split <;> simp [trueKeyFault?, Node.loose?_eq_none h, htitle]
  rw [recordFault?, hname, helement]
  rfl

theorem eventFault?_eq_none {n : Node} (h : n.isProper = true) (p : Place) :
    ∀ e ∈ n.events p, eventFault? e = none := by
  intro e he
  rw [Node.events_eq_map_enter h] at he
  obtain ⟨o, ho, rfl⟩ := List.mem_map.mp he
  exact recordFault?_eq_none (Node.isProper_of_mem_occurrences h ho)

/-- The blocks of code of an index have numbers for offsets. -/
def HasOffsets (ix : LinkIndex) : Prop := ∀ e ∈ ix.codeBlocks, e.offsetFault? = none

theorem HasOffsets.numberFault? {ix : LinkIndex} (h : ix.HasOffsets) : ix.numberFault? = none := by
  rw [LinkIndex.numberFault?, List.findSome?_eq_none_iff]
  exact h

theorem recordName_eq (ix : LinkIndex) (o : Occurrence) :
    ix.recordName o =
      { ix with
        names := if o.node.isBlock then enter o.node.info.name o ix.names else ix.names } := by
  unfold recordName
  split <;> rfl

theorem recordIdentifier_eq (ix : LinkIndex) (o : Occurrence) (h : Heading) :
    ix.recordIdentifier o h = { ix with
      identifiers := match identifierKey? o.node h.identifier with
        | some key => Assoc.register key o ix.identifiers
        | none => ix.identifiers } := by
  unfold recordIdentifier
  cases identifierKey? o.node h.identifier <;> rfl

theorem record_codeBlocks (ix : LinkIndex) (o : Occurrence) :
    (ix.record o).codeBlocks = ix.codeBlocks ++ match o.node.element with
      | .codeBlock b => [.ofOccurrence o b]
      | _ => [] := by
  rw [record, recordName_eq, recordElement]
  cases he : o.node.element <;> simp [recordTitle, recordCustomId, recordIdentifier_eq,
    apply_ite LinkIndex.codeBlocks]

theorem HasOffsets.record {ix : LinkIndex} (h : ix.HasOffsets) {o : Occurrence}
    (ho : o.node.isProper = true) : (ix.record o).HasOffsets := by
  intro e he
  rw [record_codeBlocks, List.mem_append] at he
  rcases he with he | he
  · exact h e he
  · split at he
    · obtain rfl := List.mem_singleton.mp he
      simp [CodeEntry.offsetFault?, CodeEntry.ofOccurrence, Node.loose?_eq_none ho]
    · exact absurd he List.not_mem_nil

/-- A proper tree is indexed as a whole. -/
theorem addSound_of_isProper {ix : LinkIndex} {n : Node} (h : ix.HasOffsets)
    (hn : n.isProper = true) (p : Place) :
    ix.addSound p n = (ix.add p n, none) ∧ (ix.add p n).HasOffsets := by
  have hfold : ∀ (os : List Occurrence) (ix : LinkIndex), (∀ o ∈ os, o.node.isProper = true) →
      ix.HasOffsets → (os.foldl LinkIndex.record ix).HasOffsets := by
    intro os
    induction os with
    | nil => exact fun ix _ h ↦ h
    | cons o os ih =>
      intro ix hos h
      exact ih (ix.record o) (fun o ho ↦ hos o (.tail _ ho)) (h.record (hos o List.mem_cons_self))
  have hadd : (ix.add p n).HasOffsets :=
    hfold (n.occurrences p) ix (fun o ho ↦ Node.isProper_of_mem_occurrences hn ho) h
  exact ⟨addSound_of_sound ix p n (eventFault?_eq_none hn p) hadd.numberFault?, hadd⟩

/-! ## The tables after a visit -/

theorem lookup_enter (key : Option String) (o : Occurrence) (t : Targets) (k : String) :
    (enter key o t).lookup k =
      (t.lookup k).or (if key.any fun s ↦ !s.isEmpty && s == k then some o else none) := by
  unfold enter
  split
  · simp
  · simp
  · next s hs =>
    rw [Assoc.lookup_register]
    congr 1
    have : s.isEmpty = false := by
      cases he : s.isEmpty with
      | false => rfl
      | true => exact absurd (String.isEmpty_iff.mp he) hs
    simp [this, BEq.comm (a := k)]

/-- A look into a table finds the first occurrence entered that passes a test. -/
structure Finds (test : Node → Bool) (find? : LinkIndex → Option Occurrence) : Prop where
  empty : find? .empty = none
  record : ∀ (ix : LinkIndex) (o : Occurrence), o.node.isProper = true →
    find? (ix.record o) = (find? ix).or (if test o.node then some o else none)
  number : ∀ ix : LinkIndex, find? ix.number = find? ix

theorem finds_names (name : String) : Finds (Node.isNamed name) fun ix ↦ ix.names.lookup name := by
  refine ⟨rfl, fun ix o _ ↦ ?_, fun _ ↦ rfl⟩
  have hrecord : (ix.record o).names =
      if o.node.isBlock then enter o.node.info.name o ix.names else ix.names := by
    rw [record, recordName_eq, recordElement]
    split <;> simp [recordTitle, recordCustomId, recordIdentifier_eq, apply_ite LinkIndex.names]
  simp only [hrecord]
  cases hb : o.node.isBlock <;> simp [lookup_enter, Node.isNamed, hb]

theorem finds_customIds (id : String) :
    Finds (Node.hasCustomId id) fun ix ↦ ix.customIds.lookup id := by
  refine ⟨rfl, fun ix o _ ↦ ?_, fun _ ↦ rfl⟩
  rw [record, recordName_eq, recordElement]
  cases he : o.node.element
  case heading h =>
    simp [recordTitle, recordCustomId, recordIdentifier_eq, lookup_enter, Node.hasCustomId, he]
  all_goals simp [Node.hasCustomId, he, apply_ite LinkIndex.customIds]

theorem identifierKey?_eq {n : Node} (h : n.isProper = true) (identifier : Option String) :
    identifierKey? n identifier = (identifier.filter (!·.isEmpty)).map .str := by
  simp only [identifierKey?, Node.loose?_eq_none h]
  split
  · rfl
  · rfl
  · next t ht =>
    have : t.isEmpty = false := Bool.eq_false_iff.mpr fun he ↦ ht (String.isEmpty_iff.mp he)
    simp [Option.filter, this]

theorem finds_identifiers (id : String) :
    Finds (Node.hasIdentifier id) fun ix ↦ ix.identifiers.lookup (.str id) := by
  refine ⟨rfl, fun ix o ho ↦ ?_, fun _ ↦ rfl⟩
  rw [record, recordName_eq, recordElement]
  cases he : o.node.element
  case heading h =>
    simp only [recordTitle, recordCustomId, recordIdentifier_eq, identifierKey?_eq ho,
      Node.hasIdentifier, he]
    cases h.identifier with
    | none => simp
    | some t =>
      cases ht : t.isEmpty
      · simp [Option.filter, ht, Assoc.lookup_register, eq_comm (a := id)]
      · simp [Option.filter, ht]
  all_goals simp [Node.hasIdentifier, he, apply_ite LinkIndex.identifiers]

theorem finds_titles (text : String) :
    Finds (Node.isTitled text) fun ix ↦ ix.titles.lookup (normalize text) := by
  refine ⟨rfl, fun ix o _ ↦ ?_, fun _ ↦ rfl⟩
  rw [record, recordName_eq, recordElement]
  cases he : o.node.element
  case heading h =>
    simp [recordTitle, recordCustomId, recordIdentifier_eq, Assoc.lookup_register, Node.isTitled,
      he, eq_comm (a := normalize text)]
  all_goals simp [Node.isTitled, he, apply_ite LinkIndex.titles]

theorem finds_targets (text : String) :
    Finds (Node.isTarget text) fun ix ↦ ix.targets.lookup text := by
  refine ⟨rfl, fun ix o ho ↦ ?_, fun _ ↦ rfl⟩
  rw [record, recordName_eq, recordElement]
  cases he : o.node.element
  case target value =>
    simp [Node.loose?_eq_none ho, Assoc.lookup_register, Node.isTarget, he, eq_comm (a := text)]
  all_goals
    simp [recordTitle, recordCustomId, recordIdentifier_eq, Node.isTarget, he]

theorem finds_radioTargets (text : String) :
    Finds (Node.isRadioTarget text) fun ix ↦ ix.radioTargets.lookup (normalize text) := by
  refine ⟨rfl, fun ix o _ ↦ ?_, fun _ ↦ rfl⟩
  rw [record, recordName_eq, recordElement]
  cases he : o.node.element
  case radioTarget value =>
    simp [Assoc.lookup_register, Node.isRadioTarget, he, eq_comm (a := normalize text)]
  all_goals
    simp [recordTitle, recordCustomId, recordIdentifier_eq, Node.isRadioTarget, he,
      apply_ite LinkIndex.radioTargets]

theorem finds_footnotes (label : String) :
    Finds (Node.definesFootnote label) fun ix ↦ ix.footnotes.lookup (.str label) := by
  refine ⟨rfl, fun ix o ho ↦ ?_, fun _ ↦ rfl⟩
  rw [record, recordName_eq, recordElement]
  cases he : o.node.element
  case footnoteDefinition l =>
    simp [labelKey, Node.loose?_eq_none ho, Assoc.lookup_register, Node.definesFootnote, he,
      eq_comm (a := label)]
  all_goals
    simp [recordTitle, recordCustomId, recordIdentifier_eq, Node.definesFootnote, he,
      apply_ite LinkIndex.footnotes]

theorem mem_footnotes_record {ix : LinkIndex} {o : Occurrence} {e : Datum × Occurrence}
    (h : e ∈ (ix.record o).footnotes) :
    e ∈ ix.footnotes ∨ e.2 = o ∧ o.node.kind = .footnoteDefinition := by
  rw [record, recordName_eq, recordElement] at h
  cases he : o.node.element
  case footnoteDefinition label =>
    simp only [he] at h
    refine (Assoc.mem_register h).imp_right fun h ↦ ?_
    rw [h, Node.kind, he]
    exact ⟨rfl, rfl⟩
  all_goals
    simp only [he, recordTitle, recordCustomId, recordIdentifier_eq] at h
    first
    | exact .inl h
    | split at h <;> exact .inl h

/-- An index holds those definitions of footnotes that a visit came to. -/
theorem mem_footnotes_add {ix : LinkIndex} {p : Place} {n : Node} {e : Datum × Occurrence}
    (h : e ∈ (ix.add p n).footnotes) :
    e ∈ ix.footnotes ∨ e.2 ∈ n.occurrences p ∧ e.2.node.kind = .footnoteDefinition := by
  have hfold : ∀ (os : List Occurrence) (ix : LinkIndex),
      e ∈ (os.foldl LinkIndex.record ix).footnotes →
        e ∈ ix.footnotes ∨ e.2 ∈ os ∧ e.2.node.kind = .footnoteDefinition := by
    intro os
    induction os with
    | nil => exact fun ix h ↦ .inl h
    | cons o os ih =>
      intro ix h
      rcases ih _ h with h | ⟨h, hkind⟩
      · rcases mem_footnotes_record h with h | ⟨rfl, hkind⟩
        · exact .inl h
        · exact .inr ⟨List.mem_cons_self, hkind⟩
      · exact .inr ⟨.tail _ h, hkind⟩
  exact hfold _ ix h

/-- What a visit leaves under a key is what was there, or else the first occurrence that passes the
test of the table. -/
theorem Finds.foldl {test : Node → Bool} {find? : LinkIndex → Option Occurrence}
    (h : Finds test find?) (ix : LinkIndex) {os : List Occurrence}
    (hos : ∀ o ∈ os, o.node.isProper = true) :
    find? (os.foldl LinkIndex.record ix) = (find? ix).or (os.find? fun o ↦ test o.node) := by
  induction os generalizing ix with
  | nil => simp
  | cons o os ih =>
    rw [List.foldl_cons, ih (ix.record o) fun o ho ↦ hos o (.tail _ ho),
      h.record ix o (hos o List.mem_cons_self), Option.or_assoc, List.find?_cons]
    cases test o.node <;> rfl

/-- The visit of a tree goes on with what earlier ones left. -/
theorem Finds.add {test : Node → Bool} {find? : LinkIndex → Option Occurrence}
    (h : Finds test find?) (ix : LinkIndex) {n : Node} (hn : n.isProper = true) (p : Place) :
    find? (ix.add p n) = (find? ix).or ((n.occurrences p).find? fun o ↦ test o.node) := by
  rw [LinkIndex.add, h.number]
  exact h.foldl ix fun _ ho ↦ Node.isProper_of_mem_occurrences hn ho

end LinkIndex

namespace References

theorem add?_of_isProper {r : References} {n : Node} (h : r.index.HasOffsets)
    (hn : n.isProper = true) (p : Place) :
    r.add? p n = .ok (r.add p n) ∧ (r.add p n).index.HasOffsets := by
  obtain ⟨hadd, hoffsets⟩ := LinkIndex.addSound_of_isProper h hn p
  refine ⟨?_, hoffsets⟩
  simp [add?, addSound, hadd, add]

/-- Proper trees are indexed as wholes, and under every key the first match of their visits
counts. -/
theorem addAll?_of_isProper {roots : List Occurrence} (r : References) (h : r.index.HasOffsets)
    (hroots : ∀ o ∈ roots, o.node.isProper = true) :
    ∃ r', r.addAll? roots = .ok r' ∧
      ∀ test find?, LinkIndex.Finds test find? →
        find? r'.index = (find? r.index).or ((visitsOf roots).find? fun o ↦ test o.node) := by
  induction roots generalizing r with
  | nil => exact ⟨r, rfl, fun test find? _ ↦ by simp [visitsOf]⟩
  | cons o roots ih =>
    have ho := hroots o List.mem_cons_self
    obtain ⟨hadd, hoffsets⟩ := add?_of_isProper h ho o.place
    obtain ⟨r', hr', hfind⟩ := ih (r.add o.place o.node) hoffsets fun o ho ↦ hroots o (.tail _ ho)
    refine ⟨r', ?_, fun test find? hf ↦ ?_⟩
    · rw [addAll?, List.foldlM_cons, hadd]
      exact hr'
    · rw [hfind test find? hf,
        show (r.add o.place o.node).index = r.index.add o.place o.node from rfl,
        hf.add r.index ho, Option.or_assoc, visitsOf_cons, List.find?_append]

end References

/-! ## What a link finds -/

/-- A link finds in an index the first match of the visits if the tables find their first. -/
theorem LinkIndex.target?_eq_firstMatch? {ix : LinkIndex} {visits : List Occurrence}
    (h : ∀ test find?, Finds test find? → find? ix = visits.find? fun o ↦ test o.node)
    (kind path : String) :
    ix.target? kind path = firstMatch? (linkTests kind path) visits := by
  unfold LinkIndex.target? linkTests
  split
  · simp [h _ _ (finds_customIds _)]
  · simp [h _ _ (finds_identifiers _)]
  · simp [h _ _ (finds_radioTargets _)]
  · rcases path.toList with _ | ⟨c, title⟩
    · simp [h _ _ (finds_titles _), h _ _ (finds_targets _), h _ _ (finds_names _),
        Option.or_assoc]
    · by_cases hc : c = '*'
      · subst hc
        simp [h _ _ (finds_titles _)]
      · simp [hc, h _ _ (finds_titles _), h _ _ (finds_targets _), h _ _ (finds_names _),
          Option.or_assoc]
  · simp

/-- However many trees are indexed, a link points at the first match of their visits, and at
nothing exactly if there is none; so does the label of a footnote. -/
theorem resolves_to_first_match (roots : List Occurrence)
    (hroots : ∀ o ∈ roots, o.node.isProper = true) :
    ∃ r, References.empty.addAll? roots = .ok r ∧
      (∀ kind path origin, r.index.resolveDatum kind (.str path) origin =
        match firstMatch? (linkTests kind path) (visitsOf roots) with
        | some o => .ok o
        | none => .error (.unresolvedLink kind (.str path) origin)) ∧
      (∀ kind path origin,
        r.index.resolveDatum kind (.str path) origin =
            .error (.unresolvedLink kind (.str path) origin) ↔
          ∀ test ∈ linkTests kind path, ∀ o ∈ visitsOf roots, test o.node = false) ∧
      ∀ label origin, r.index.footnote (.str label) origin =
        match (visitsOf roots).find? fun o ↦ o.node.definesFootnote label with
        | some o => .ok o
        | none => .error (.unresolvedLink "footnote" (.str label) origin) := by
  have hempty : References.empty.index.HasOffsets := by
    intro e he
    exact absurd he List.not_mem_nil
  obtain ⟨r, hr, hfind⟩ := References.addAll?_of_isProper .empty hempty hroots
  have hfirst : ∀ test find?, LinkIndex.Finds test find? →
      find? r.index = (visitsOf roots).find? fun o ↦ test o.node := by
    intro test find? hf
    rw [hfind test find? hf, show References.empty.index = LinkIndex.empty from rfl, hf.empty]
    rfl
  have hresolve : ∀ kind path origin, r.index.resolveDatum kind (.str path) origin =
      LinkIndex.orUnresolved kind (.str path) origin
        (firstMatch? (linkTests kind path) (visitsOf roots)) := by
    intro kind path origin
    rw [← LinkIndex.target?_eq_firstMatch? hfirst kind path]
    rfl
  refine ⟨r, hr, ?_, ?_, ?_⟩
  · intro kind path origin
    rw [hresolve]
    cases firstMatch? (linkTests kind path) (visitsOf roots) <;> rfl
  · intro kind path origin
    rw [hresolve, ← firstMatch?_eq_none_iff]
    cases firstMatch? (linkTests kind path) (visitsOf roots) <;> simp [LinkIndex.orUnresolved]
  · intro label origin
    rw [← hfirst _ _ (LinkIndex.finds_footnotes label)]
    cases h : r.index.footnotes.lookup (.str label) <;>
      simp [LinkIndex.footnote, LinkIndex.orUnresolved, Datum.keyFault?, Datum.unkeyed?, h]

/-- Two trees that are a heading each, with one custom id. -/
def twinHeadings : List Occurrence := [⟨.ofRoot 0, heading⟩, ⟨.ofRoot 1, heading⟩]
where
  heading : Node :=
    ⟨⟨.unknown, 0, none, [], .heading ⟨1, none, some "a", none, false, []⟩, []⟩, [], [], none, none⟩

theorem resolve_twinHeadings :
    (∀ o ∈ twinHeadings, o.node.isProper = true) ∧
      ∃ r, References.empty.addAll? twinHeadings = .ok r ∧
        r.index.resolveDatum "custom-id" (.str "#a") none =
          .ok ⟨.ofRoot 0, twinHeadings.heading⟩ := by
  obtain ⟨r, hr, hresolve, -⟩ := resolves_to_first_match twinHeadings (by decide)
  refine ⟨by decide, r, hr, ?_⟩
  rw [hresolve]
  rfl

end Typeset

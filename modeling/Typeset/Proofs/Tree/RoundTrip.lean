import Typeset.Proofs.Tree.Views

/-!
# Writing and reading trees

A well-typed tree is read back from what is written for it, with its entries in order. What is
written is the same for all trees that are alike.
-/

namespace Typeset

open FieldType

/-! ## What fields carry -/

namespace FieldType

@[simp] theorem carries_text (s : String) : text.Carries (.str s) (.str s) :=
  ⟨rfl, rfl, rfl⟩

@[simp] theorem carries_flag (b : Bool) : flag.Carries (.bool b) (.bool b) :=
  ⟨rfl, rfl, rfl⟩

@[simp] theorem carries_number (n : Int) : number.Carries (.int n) (.int n) :=
  ⟨rfl, rfl, rfl⟩

@[simp] theorem carries_optionalText (s : Option String) :
    optionalText.Carries (.ofText? s) (.ofText? s) := by
  cases s <;> exact ⟨rfl, rfl, rfl⟩

@[simp] theorem carries_optionalNumber (n : Option Int) :
    optionalNumber.Carries (.ofNumber? n) (.ofNumber? n) := by
  cases n <;> exact ⟨rfl, rfl, rfl⟩

@[simp] theorem carries_zone (z : Option Zone) :
    zone.Carries ((z.map Datum.zone).getD .null) ((z.map Datum.zone).getD .null) := by
  cases z with
  | none => exact ⟨rfl, rfl, rfl⟩
  | some z => exact ⟨by simp [Member.readAs, Member.zoneOf], rfl, rfl⟩

theorem ofItems_of_forall {js : List Json} {ds : List Datum}
    (h : List.Forall₂ (fun j d ↦ Datum.ofJson j = .ok d) js ds) : Datum.ofItems js = .ok ds := by
  induction h with
  | nil => rfl
  | cons hd _ ih =>
    rw [Datum.ofItems, hd, ih]
    rfl

theorem ofJson_arr {js : List Json} {ds : List Datum}
    (h : List.Forall₂ (fun j d ↦ Datum.ofJson j = .ok d) js ds) :
    Datum.ofJson (.arr js) = .ok (.seq ds) := by
  rw [Datum.ofJson, ofItems_of_forall h]
  rfl

@[simp] theorem carries_texts (ts : List String) :
    texts.Carries (.ofTexts ts) (.ofTexts ts) := by
  refine ⟨?_, rfl, ?_⟩
  rotate_left
  · rw [Datum.ofTexts, Datum.toJson, Json.hasDistinctNames, Json.haveDistinctNames_iff]
    simp [Datum.toJson, Json.hasDistinctNames]
  simp only [Member.readAs, Datum.ofTexts, Datum.printed_seq, List.map_map]
  refine ofJson_arr ?_
  rw [List.forall₂_map_left_iff, List.forall₂_map_right_iff]
  exact List.forall₂_same.mpr fun _ _ ↦ rfl

theorem carries_mapping {e : Entries} (h : e.areTexts = true) :
    mapping.Carries (.mapping e) (.mapping e.inOrder) := by
  refine ⟨rfl, ?_, ?_⟩
  · rw [Datum.printed_mapping, Datum.printed_mapping,
      Entries.inOrder_of_alike (Entries.areTexts_inOrder h) h (Entries.inOrder_alike h)]
  · obtain ⟨hnames, htexts⟩ := (Entries.areTexts_iff e).mp h
    rw [Datum.toJson, Json.hasDistinctNames, Bool.and_eq_true, decide_eq_true_eq,
      Json.membersHaveDistinctNames_iff]
    refine ⟨hnames, fun m hm ↦ ?_⟩
    have htext := htexts m hm
    cases hv : m.2 <;> simp_all [Json.text?, Json.hasDistinctNames]

/-- The members that a position is written as. -/
def membersOfPosition (p : Position) : List (String × Json) :=
  [("_type", .str "SourceLocation"), ("lineno", .int p.line), ("col_offset", .int p.column),
    ("source_file", (p.file.map Json.str).getD .null)]

theorem nodup_membersOfPosition (p : Position) : ((membersOfPosition p).map (·.1)).Nodup := by
  have h : ["_type", "lineno", "col_offset", "source_file"].Nodup := by decide
  exact h

/-- A position is carried as it is. -/
theorem carries_origin (p : Position) :
    origin.Carries (Origin.position p).toDatum (Origin.position p).toDatum := by
  refine ⟨?_, rfl, ?_⟩
  rotate_left
  · change Json.hasDistinctNames (.obj (membersOfPosition p)) = true
    rw [Json.hasDistinctNames, Bool.and_eq_true, decide_eq_true_eq]
    refine ⟨nodup_membersOfPosition p, ?_⟩
    cases hf : p.file <;>
      simp [membersOfPosition, Json.membersHaveDistinctNames, Json.hasDistinctNames, hf]
  have hlookup := Json.lookup_sortedMembers (nodup_membersOfPosition p)
  have htype : Member.raw? (Datum.membersOf (Json.sortedMembers (membersOfPosition p))) "_type" =
      .str "SourceLocation" := by
    rw [Member.raw?_membersOf, hlookup]
    rfl
  have hline := Member.need_membersOf (hlookup "lineno")
  have hcolumn := Member.need_membersOf (hlookup "col_offset")
  have hfile : Member.raw? (Datum.membersOf (Json.sortedMembers (membersOfPosition p)))
      "source_file" = (p.file.map Json.str).getD .null := by
    rw [Member.raw?_membersOf, hlookup]
    obtain ⟨line, column, file⟩ := p
    cases file <;> rfl
  change Member.toDatum (Datum.membersOf (Json.sortedMembers (membersOfPosition p))) = _
  rw [Member.toDatum, htype]
  change (do
    let line ← Member.need _ "lineno"
    let column ← Member.need _ "col_offset"
    return Datum.position line column _) = _
  rw [hline, hcolumn, hfile]
  rfl

end FieldType

/-! ## What nodes carry -/

namespace Node

/-- The tree is read back in order, and printed as it would be in order. -/
structure IsCarried (n : Node) : Prop where
  read : Datum.ofJson n.toDatum.printed = .ok n.inOrder.toDatum
  record : Record.ofJson n.toDatum.printed = .ok n.inOrder.toDatum
  printed : n.inOrder.toDatum.printed = n.toDatum.printed
  distinct : n.toDatum.toJson.hasDistinctNames = true

theorem carries_nodes {ns : List Node} (h : ∀ n ∈ ns, n.IsCarried) :
    FieldType.nodes.Carries (.seq (toData ns)) (.seq (toData (ns.map inOrder))) := by
  refine ⟨?_, ?_, ?_⟩
  · simp only [Member.readAs, Datum.printed_seq, toData_eq, List.map_map]
    refine FieldType.ofJson_arr ?_
    rw [List.forall₂_map_left_iff, List.forall₂_map_right_iff]
    exact List.forall₂_same.mpr fun n hn ↦ (h n hn).read
  · simp only [Datum.printed_seq, toData_eq, List.map_map, Json.arr.injEq, List.map_inj_left]
    exact fun n hn ↦ (h n hn).printed
  · rw [Datum.toJson, Json.hasDistinctNames, Json.haveDistinctNames_iff]
    simpa using fun n hn ↦ (h n hn).distinct

theorem carries_optionalNodes {ns : Option (List Node)} (h : ∀ n ∈ ns.getD [], n.IsCarried) :
    FieldType.optionalNodes.Carries (toDatum? ns) (toDatum? (ns.map (List.map inOrder))) := by
  cases ns with
  | none => exact ⟨rfl, rfl, rfl⟩
  | some ns => exact ⟨(carries_nodes h).read, (carries_nodes h).printed, (carries_nodes h).distinct⟩

end Node

namespace Field

theorem carry_append {fs gs : List Field} {ds es ds' es' : List Datum} (h : Carry fs ds es)
    (h' : Carry gs ds' es') : Carry (fs ++ gs) (ds ++ ds') (es ++ es') := by
  induction h using Carry.induction with
  | nil => exact h'
  | cons hd _ ih => exact ⟨hd, ih⟩

end Field

namespace Element

/-- A well-typed element is of a kind that a serialized tree may name. -/
theorem kind_mem_registered {e : Element} (h : e.isWellTyped = true) :
    e.kind ∈ Kind.registered := by
  cases e
  case bareNode => exact absurd h (by decide)
  case bareBlock => exact absurd h (by decide)
  case bareInline => exact absurd h (by decide)
  case foreign d => exact absurd h Bool.false_ne_true
  all_goals simp [kind, Kind.registered]

/-- The fields of an element carry it, given that they carry what stands below. -/
theorem carry_values {e : Element} (h : e.isWellTyped = true)
    {children children' title title' tag tag' : Datum}
    (hchildren : FieldType.nodes.Carries children children')
    (htitle : FieldType.nodes.Carries title title')
    (htag : FieldType.optionalNodes.Carries tag tag') :
    Field.Carry e.kind.ownFields (e.values children title tag)
      (e.inOrder.values children' title' tag') := by
  cases e
  case document e =>
    exact ⟨hchildren, FieldType.carries_mapping h, trivial⟩
  case image path e =>
    exact ⟨FieldType.carries_text path, FieldType.carries_mapping h, trivial⟩
  all_goals
    simp [Field.Carry, Kind.ownFields, kind, values, inOrder, Kind.children, Kind.optionalChildren,
      Field.required, Field.optional, hchildren, htitle, htag]

end Element

namespace NodeInfo

theorem carry_sharedValues {i : NodeInfo} (h : i.isWellTyped = true) {caption caption' : Datum}
    (hcaption : FieldType.optionalNodes.Carries caption caption') :
    Field.Carry i.element.kind.sharedFields (i.sharedValues caption)
      (i.inOrder.sharedValues caption') := by
  have hattributes := areTexts_attributes h
  have horigin : FieldType.origin.Carries i.origin.toDatum i.origin.toDatum := by
    simp only [isWellTyped, Bool.and_eq_true] at h
    cases ho : i.origin with
    | position p => exact FieldType.carries_origin p
    | other d => simp [ho] at h
  have hkind : i.inOrder.element.kind = i.element.kind := Element.kind_inOrder _
  rw [Kind.sharedFields, sharedValues, sharedValues, hkind]
  split
  · exact ⟨horigin, FieldType.carries_number _, FieldType.carries_optionalText _, hcaption,
      FieldType.carries_mapping hattributes, trivial⟩
  · exact ⟨horigin, FieldType.carries_number _, trivial⟩

end NodeInfo

namespace Node

/-- A well-typed tree is carried as a whole. -/
theorem isCarried {n : Node} (h : n.isWellTyped = true) : n.IsCarried := by
  induction n using Node.induction with
  | step n ih =>
    have hinfo := info_isWellTyped h
    have hbelow : ∀ b, ∀ m ∈ n.branch b, m.IsCarried :=
      fun b m hm ↦ ih b m hm (isWellTyped_of_mem_branch h hm).2
    have hcarry : Field.Carry n.kind.fields n.values n.inOrder.values := by
      rw [inOrder_eq]
      exact Field.carry_append
        (NodeInfo.carry_sharedValues hinfo (carries_optionalNodes (hbelow .caption)))
        (Element.carry_values (NodeInfo.isWellTyped_element hinfo)
          (carries_nodes (hbelow .children)) (carries_nodes (hbelow .title))
          (carries_optionalNodes (hbelow .tag)))
    have hkind : n.kind ∈ Kind.registered :=
      Element.kind_mem_registered (NodeInfo.isWellTyped_element hinfo)
    have hdatum := toDatum_eq (isProper_of_isWellTyped h)
    have hdatum' := toDatum_eq (isProper_of_isWellTyped (isWellTyped_inOrder h))
    rw [kind_inOrder] at hdatum'
    refine ⟨?_, ?_, ?_, ?_⟩
    · rw [hdatum, hdatum']
      exact Datum.ofJson_printed_node hkind hcarry
    · rw [hdatum, hdatum']
      exact Datum.recordOfJson_printed_node hkind hcarry
    · rw [hdatum, hdatum']
      exact Datum.printed_node_congr (Field.printed_eq_of_carry hcarry)
    · rw [hdatum]
      exact Datum.hasDistinctNames_node hkind hcarry

/-- A document is read back in order from its text. -/
theorem parseDocument_print {n : Node} (h : n.isWellTyped = true) (hkind : n.kind = .document)
    (indent : Option Nat) :
    Record.parseDocument (Record.print indent n.toDatum) = .ok n.inOrder.toDatum := by
  have hcarried := isCarried h
  have hdatum : n.inOrder.toDatum = .node .document n.inOrder.values := by
    rw [toDatum_eq (isProper_of_isWellTyped (isWellTyped_inOrder h)), kind_inOrder, hkind]
  have hrecord := hcarried.record
  rw [hdatum] at hrecord ⊢
  rw [Record.parseDocument, Record.print, Json.parse_text_of_hasDistinctNames indent
    hcarried.distinct]
  change (Record.ofJson n.toDatum.printed >>= _) = _
  rw [hrecord]
  rfl

/-- Trees that are alike have the same text. -/
theorem print_of_alike {m n : Node} (hm : m.isWellTyped = true) (hn : n.isWellTyped = true)
    (h : m.Alike n) (indent : Option Nat) :
    Record.print indent m.toDatum = Record.print indent n.toDatum := by
  have hprinted : m.toDatum.printed = n.toDatum.printed := by
    rw [← (isCarried hm).printed, ← (isCarried hn).printed, inOrder_of_alike hm hn h]
  exact congrArg (fun j ↦ String.ofList (Json.chars indent 0 j)) hprinted

/-- A well-typed document survives its text, up to the order of attributes and properties. The text
is ASCII and the same for all documents that are alike. -/
theorem document_survives_text {n : Node} (h : n.isWellTyped = true) (hkind : n.kind = .document)
    (indent : Option Nat) :
    (∃ m, ofDatum <$> Record.parseDocument (Record.print indent n.toDatum) = .ok m ∧ m.Alike n) ∧
      (∀ c ∈ (Record.print indent n.toDatum).toList, c.toNat < 0x80) ∧
      ∀ m : Node, m.isWellTyped = true → m.Alike n →
        Record.print indent m.toDatum = Record.print indent n.toDatum := by
  refine ⟨⟨n.inOrder, ?_, inOrder_alike h⟩, ?_, fun m hm hmn ↦ print_of_alike hm h hmn indent⟩
  · rw [parseDocument_print h hkind]
    exact congrArg Except.ok (ofDatum_toDatum (isWellTyped_inOrder h))
  · rw [Record.print, Json.text, String.toList_ofList]
    exact Json.isAscii_chars indent _ 0

/-- A document of one paragraph with an empty caption, whose only text is beyond ASCII. -/
def titled (properties : Attributes) : Node :=
  ⟨⟨.unknown, 0, none, [], .document properties, []⟩,
    [⟨⟨.unknown, 1, none, [("_type", .str "Node")], .paragraph, []⟩,
      [.inline .unknown 0 (.text "é😀") []], [], none, some []⟩], [], none, none⟩

/-- A title and an empty date. -/
def titleAndDate : Attributes := [("title", .str "a"), ("date", .str "")]

theorem titled_reverse_alike : (titled titleAndDate.reverse).Alike (titled titleAndDate) := by
  have hproperties : Entries.Alike titleAndDate.reverse titleAndDate := by
    intro name
    exact Assoc.lookup_of_perm titleAndDate.reverse_perm (by decide) name
  have htext : NodeInfo.Alike ⟨.unknown, 0, none, [], .text "é😀", []⟩
      ⟨.unknown, 0, none, [], .text "é😀", []⟩ := ⟨rfl, rfl, rfl, fun _ ↦ rfl, rfl, rfl⟩
  refine ⟨⟨rfl, rfl, rfl, fun _ ↦ rfl, hproperties, rfl⟩, ⟨⟨?_, ?_⟩, trivial⟩, trivial, trivial,
    trivial⟩
  · exact ⟨rfl, rfl, rfl, fun _ ↦ rfl, rfl, rfl⟩
  · exact ⟨⟨⟨htext, trivial, trivial, trivial, trivial⟩, trivial⟩, trivial, trivial, trivial⟩

theorem titled_survives_text :
    (titled titleAndDate).isWellTyped = true ∧
      (∃ m, ofDatum <$> Record.parseDocument (Record.print (some 2) (titled titleAndDate).toDatum) =
        .ok m ∧ m.Alike (titled titleAndDate)) ∧
      Record.print (some 2) (titled titleAndDate.reverse).toDatum =
        Record.print (some 2) (titled titleAndDate).toDatum := by
  obtain ⟨hread, -, halike⟩ :=
    document_survives_text (n := titled titleAndDate) (by decide) rfl (some 2)
  exact ⟨by decide, hread, halike _ (by decide) titled_reverse_alike⟩

end Node

end Typeset

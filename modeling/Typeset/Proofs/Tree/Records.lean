import Typeset.Proofs.Tree.Alike
import Typeset.Tree.Typed

/-!
# Records of well-typed trees

What a field holds is written as JSON with its members in order, and read back by the type of the
field. A record is read back once all its fields are.
-/

namespace Typeset

namespace Datum

/-- A value as it is printed. -/
def printed (d : Datum) : Json := d.toJson.sorted

@[simp] theorem printed_null : printed .null = .null := rfl

@[simp] theorem printed_bool (b : Bool) : printed (.bool b) = .bool b := rfl

@[simp] theorem printed_int (n : Int) : printed (.int n) = .int n := rfl

@[simp] theorem printed_str (s : String) : printed (.str s) = .str s := rfl

@[simp] theorem printed_zone (z : Zone) : printed (.zone z) = .str z.name := rfl

@[simp] theorem itemsToJson_eq (ds : List Datum) : itemsToJson ds = ds.map toJson := by
  induction ds with
  | nil => rfl
  | cons d ds ih => rw [itemsToJson, ih, List.map_cons]

@[simp] theorem printed_seq (items : List Datum) :
    printed (.seq items) = .arr (items.map printed) := by
  simp [printed, toJson, Json.sorted]

@[simp] theorem printed_mapping (ms : Entries) :
    printed (.mapping ms) = .obj ms.inOrder := rfl

end Datum

/-! ## Members -/

namespace Member

/-- What the value of a field reads as, by the type of the field. -/
def readAs (t : FieldType) (j : Json) : Except Failure Datum :=
  match t with
  | .mapping => mappingOf j
  | .zone => zoneOf j
  | _ => Datum.ofJson j

theorem find?_membersOf (ms : List (String × Json)) (name : String) :
    find? (Datum.membersOf ms) name =
      (ms.lookup name).map fun value ↦ ⟨name, value, Datum.ofJson value⟩ := by
  induction ms with
  | nil => rfl
  | cons m ms ih =>
    obtain ⟨key, value⟩ := m
    rw [Datum.membersOf, find?, List.find?_cons, List.lookup_cons]
    by_cases h : key = name
    · subst h
      simp
    · have hkey : (key == name) = false := by simpa using h
      have hname : (name == key) = false := by simpa using Ne.symm h
      simp only [hkey, hname]
      exact ih

theorem raw?_membersOf (ms : List (String × Json)) (name : String) :
    raw? (Datum.membersOf ms) name = (ms.lookup name).getD .null := by
  rw [raw?, find?_membersOf]
  cases ms.lookup name <;> rfl

theorem need_membersOf {ms : List (String × Json)} {name : String} {value : Json}
    (h : ms.lookup name = some value) : need (Datum.membersOf ms) name = .ok value := by
  simp only [need, find?_membersOf, h, Option.map_some]

/-- A field that is present is read by its type. -/
theorem readField?_membersOf {ms : List (String × Json)} {f : Field} {value : Json}
    (h : ms.lookup f.name = some value) :
    readField? (Datum.membersOf ms) f = some <$> readAs f.type value := by
  have hread : ∀ t, read ⟨f.name, value, Datum.ofJson value⟩ t = readAs t value := by
    intro t
    cases t <;> rfl
  simp only [readField?, find?_membersOf, h, Option.map_some, hread]

end Member

namespace Json

/-- Members of distinct names are found in order as they were before. -/
theorem lookup_sortedMembers {ms : List (String × Json)} (h : (ms.map (·.1)).Nodup)
    (name : String) : (sortedMembers ms).lookup name = (ms.lookup name).map sorted := by
  have hnames : ((ms.map fun m ↦ (m.1, m.2.sorted)).map (·.1)).Nodup := by
    rwa [List.map_map]
  rw [Assoc.lookup_of_perm (perm_sortedMembers ms) hnames]
  clear h hnames
  induction ms with
  | nil => rfl
  | cons m ms ih =>
    obtain ⟨key, value⟩ := m
    rw [List.map_cons, List.lookup_cons, List.lookup_cons, ih]
    cases name == key <;> rfl

end Json

/-! ## Fields -/

/-- A field that holds the one value is printed as if it held the other, and read as the other. -/
structure FieldType.Carries (t : FieldType) (d d' : Datum) : Prop where
  read : Member.readAs t d.printed = .ok d'
  printed : d'.printed = d.printed
  distinct : d.toJson.hasDistinctNames = true

/-- Fields carry values one by one. -/
def Field.Carry : List Field → List Datum → List Datum → Prop
  | [], [], [] => True
  | f :: fs, d :: ds, e :: es => f.type.Carries d e ∧ Carry fs ds es
  | _, _, _ => False

namespace Field

/-- Fields and the values that they carry come side by side. -/
@[elab_as_elim]
theorem Carry.induction {motive : (fs : List Field) → (ds es : List Datum) → Carry fs ds es → Prop}
    (nil : motive [] [] [] trivial)
    (cons : ∀ {f d e fs ds es} (hd : f.type.Carries d e) (h : Carry fs ds es), motive fs ds es h →
      motive (f :: fs) (d :: ds) (e :: es) ⟨hd, h⟩)
    {fs : List Field} {ds es : List Datum} (h : Carry fs ds es) : motive fs ds es h := by
  induction fs generalizing ds es with
  | nil =>
    cases ds <;> cases es <;> first | exact nil | exact h.elim
  | cons f fs ih =>
    rcases ds with _ | ⟨d, ds⟩
    · exact h.elim
    · rcases es with _ | ⟨e, es⟩
      · exact h.elim
      · exact cons h.1 h.2 (ih h.2)

theorem length_eq_of_carry {fs : List Field} {ds es : List Datum} (h : Carry fs ds es) :
    ds.length = fs.length ∧ es.length = fs.length := by
  induction h using Carry.induction with
  | nil => exact ⟨rfl, rfl⟩
  | cons _ _ ih => exact ⟨congrArg Nat.succ ih.1, congrArg Nat.succ ih.2⟩

theorem printed_eq_of_carry {fs : List Field} {ds es : List Datum} (h : Carry fs ds es) :
    es.map Datum.printed = ds.map Datum.printed := by
  induction h using Carry.induction with
  | nil => rfl
  | cons hd _ ih => rw [List.map_cons, List.map_cons, hd.printed, ih]

theorem hasDistinctNames_of_carry {fs : List Field} {ds es : List Datum} (h : Carry fs ds es) :
    ∀ d ∈ ds, d.toJson.hasDistinctNames = true := by
  induction h using Carry.induction with
  | nil => exact fun d hd ↦ absurd hd List.not_mem_nil
  | cons hd _ ih => exact List.forall_mem_cons.mpr ⟨hd.distinct, ih⟩

/-- Where every field is found among some members as it is printed, all of them are read. -/
theorem mapM_readField? {ms : List (String × Json)} {fs : List Field} {ds es : List Datum}
    (h : Carry fs ds es)
    (hms : ∀ p ∈ fs.zip ds, ms.lookup p.1.name = some p.2.printed) :
    fs.mapM (Member.readField? (Datum.membersOf ms)) = .ok (es.map some) := by
  induction h using Carry.induction with
  | nil => rfl
  | @cons f d e fs ds es hd _ ih =>
    have hfield := Member.readField?_membersOf (hms (f, d) List.mem_cons_self)
    rw [hd.read] at hfield
    rw [List.mapM_cons, hfield, ih fun p hp ↦ hms p (.tail _ hp)]
    rfl

theorem missing_eq_nil {fs : List Field} {es : List Datum} :
    Member.missing fs (es.map some) = [] := by
  rw [Member.missing, List.map_eq_nil_iff, List.filter_eq_nil_iff]
  intro p hp
  obtain ⟨e, -, he⟩ := List.mem_map.mp (List.of_mem_zip hp).2
  simp [← he]

end Field

/-! ## Nodes -/

/-- The fields of a kind have different names, none of which is the mark of the kind. -/
theorem Kind.nodup_fieldNames : ∀ k ∈ Kind.registered, ("_type" :: k.fieldNames).Nodup := by decide

/-- No kind of node is named like a position. -/
theorem Kind.name_ne_position : ∀ k ∈ Kind.registered, k.name ≠ "SourceLocation" := by decide

namespace Datum

/-- The members that a node is written as. -/
def membersOfNode (k : Kind) (ds : List Datum) : List (String × Json) :=
  ("_type", .str k.name) :: k.fieldNames.zip (ds.map toJson)

theorem printed_node (k : Kind) (ds : List Datum) :
    printed (.node k ds) = .obj (Json.sortedMembers (membersOfNode k ds)) := by
  simp [printed, toJson, Json.sorted, membersOfNode]

theorem map_sorted_membersOfNode (k : Kind) (ds : List Datum) :
    (membersOfNode k ds).map (fun m ↦ (m.1, m.2.sorted)) =
      ("_type", .str k.name) :: k.fieldNames.zip (ds.map printed) := by
  simp only [membersOfNode, List.map_cons, List.zip_map_right, List.map_map]
  rfl

/-- A node is printed as any other of its kind whose fields are. -/
theorem printed_node_congr {k : Kind} {ds es : List Datum}
    (h : es.map printed = ds.map printed) : printed (.node k es) = printed (.node k ds) := by
  rw [printed_node, printed_node, Json.sortedMembers_eq, Json.sortedMembers_eq,
    map_sorted_membersOfNode, map_sorted_membersOfNode, h]

theorem names_membersOfNode {k : Kind} {ds : List Datum} (h : ds.length = k.fields.length) :
    (membersOfNode k ds).map (·.1) = "_type" :: k.fieldNames := by
  rw [membersOfNode, List.map_cons, List.map_fst_zip]
  simp [h, Kind.fieldNames]

/-- A node whose fields are carried is written without repeated names. -/
theorem hasDistinctNames_node {k : Kind} (hk : k ∈ Kind.registered) {ds es : List Datum}
    (h : Field.Carry k.fields ds es) : (Datum.node k ds).toJson.hasDistinctNames = true := by
  have hmembers : (Datum.node k ds).toJson = .obj (membersOfNode k ds) := by
    rw [toJson, itemsToJson_eq]
    rfl
  rw [hmembers, Json.hasDistinctNames, names_membersOfNode (Field.length_eq_of_carry h).1,
    Bool.and_eq_true, decide_eq_true_eq, Json.membersHaveDistinctNames_iff]
  refine ⟨Kind.nodup_fieldNames k hk, fun m hm ↦ ?_⟩
  rcases List.mem_cons.mp hm with rfl | hm
  · rfl
  · obtain ⟨d, hd, hm⟩ := List.mem_map.mp (List.of_mem_zip hm).2
    rw [← hm]
    exact Field.hasDistinctNames_of_carry h d hd

section Reading

variable {k : Kind} (hk : k ∈ Kind.registered) {ds es : List Datum} (h : Field.Carry k.fields ds es)

include hk h

theorem raw?_membersOfNode :
    Member.raw? (membersOf (Json.sortedMembers (membersOfNode k ds))) "_type" = .str k.name := by
  have hnames : ((membersOfNode k ds).map (·.1)).Nodup := by
    rw [names_membersOfNode (Field.length_eq_of_carry h).1]
    exact Kind.nodup_fieldNames k hk
  rw [Member.raw?_membersOf, Json.lookup_sortedMembers hnames]
  rfl

theorem toNode_membersOfNode :
    Member.toNode (membersOf (Json.sortedMembers (membersOfNode k ds))) = .ok (.node k es) := by
  have hnames : ((membersOfNode k ds).map (·.1)).Nodup := by
    rw [names_membersOfNode (Field.length_eq_of_carry h).1]
    exact Kind.nodup_fieldNames k hk
  have hfields : k.fields.mapM (Member.readField? (membersOf (Json.sortedMembers
      (membersOfNode k ds)))) = .ok (es.map some) := by
    refine Field.mapM_readField? h fun p hp ↦ ?_
    have hmem : (p.1.name, p.2.toJson) ∈ membersOfNode k ds := by
      refine .tail _ ?_
      rw [Kind.fieldNames, List.zip_map]
      exact List.mem_map.mpr ⟨p, hp, rfl⟩
    rw [Json.lookup_sortedMembers hnames, Assoc.lookup_of_mem hnames hmem]
    rfl
  rw [Member.toNode, raw?_membersOfNode hk h]
  dsimp only
  rw [Kind.ofName?_name k hk]
  dsimp only
  rw [hfields]
  dsimp only [bind, Except.bind]
  rw [Field.missing_eq_nil, List.map_map]
  exact congrArg (fun es ↦ Except.ok (node k es)) (List.map_id es)

/-- A node whose fields are carried is read as the node of what they carry. -/
theorem ofJson_printed_node : ofJson (printed (.node k ds)) = .ok (.node k es) := by
  have hposition : k.name ≠ "SourceLocation" := Kind.name_ne_position k hk
  rw [printed_node, ofJson, Member.toDatum, raw?_membersOfNode hk h]
  split
  · simp_all
  · simp_all
  · exact toNode_membersOfNode hk h

/-- So is one that is read as a node in the first place. -/
theorem recordOfJson_printed_node : Record.ofJson (printed (.node k ds)) = .ok (.node k es) := by
  rw [printed_node, Record.ofJson]
  exact toNode_membersOfNode hk h

end Reading

end Datum

/-! ## Trees -/

namespace NodeInfo

/-- The values of the fields that all blocks have, or all inline objects. -/
def sharedValues (i : NodeInfo) (caption : Datum) : List Datum :=
  if i.element.kind.isBlock then
    [i.origin.toDatum, .int i.postBlank, .ofText? i.name, caption, .mapping i.attributes]
  else [i.origin.toDatum, .int i.postBlank]

end NodeInfo

namespace Node

@[simp] theorem toData_eq (ns : List Node) : toData ns = ns.map toDatum := by
  induction ns with
  | nil => rfl
  | cons n ns ih => rw [toData, ih, List.map_cons]

/-- The values of the fields of a node. -/
def values (n : Node) : List Datum :=
  n.info.sharedValues (toDatum? n.caption) ++
    n.element.values (.seq (toData n.children)) (.seq (toData n.title)) (toDatum? n.tag)

theorem length_values (n : Node) : n.kind.fieldNames.length = n.values.length := by
  simp only [values, NodeInfo.sharedValues, Kind.fieldNames, Kind.fields, Kind.sharedFields,
    List.length_map, List.length_append]
  cases h : n.info.element <;>
    simp [kind, element, h, Element.kind, Kind.isBlock, Kind.ownFields, Element.values]

/-- The record of a proper tree holds the values of its fields. -/
theorem toDatum_eq {n : Node} (h : n.isProper = true) : n.toDatum = .node n.kind n.values := by
  have hforeign := element_ne_foreign h
  have hlength := length_values n
  have hloose : n.info.loose = [] := by
    have := ((isProper_iff n).mp h).1
    simp only [NodeInfo.isProper, Bool.and_eq_true, List.isEmpty_iff] at this
    exact this.1
  obtain ⟨info, children, title, tag, caption⟩ := n
  simp only at hloose hforeign
  rw [toDatum]
  split
  · next hd => exact absurd hd (hforeign _)
  · rw [hloose]
    exact congrArg (Datum.node info.element.kind) (Datum.restore_nil _ _ hlength)

end Node

end Typeset

import Typeset.Proofs.Tree.Reads

/-!
# Mappings that describe nodes

Which mappings are read as nodes can be told without reading them: by the kind that a mapping names,
by the members that are there, and by what stands in those that the kind declares. All others do
not matter, and what is written for a node that has been read is read as the same node.
-/

namespace Typeset

/-! ## What is acceptable -/

/-- The fields that hold mappings, which are taken as they are. -/
def Kind.mappingNames : List String := ["attributes", "properties"]

/-- A mapping names the kind, has all fields that the kind requires, and only a zone where the kind
declares one. A location is never required: every kind has a default for it. -/
structure Kind.IsMetBy (k : Kind) (ms : List (String × Json)) : Prop where
  registered : k ∈ registered
  type : ms.lookup "_type" = some (.str k.name)
  required : ∀ f ∈ k.fields, f.default? = none → (ms.lookup f.name).isSome = true
  zone : "zone" ∈ k.fieldNames → ∀ j, ms.lookup "zone" = some j →
    j = .null ∨ ∃ z : Zone, j = .str z.name

namespace Json

/-- The value is acceptable in a field that is neither a zone nor a mapping. -/
inductive IsAcceptable : Json → Prop
  | null : IsAcceptable .null
  | bool (b : Bool) : IsAcceptable (.bool b)
  | int (n : Int) : IsAcceptable (.int n)
  | str (s : String) : IsAcceptable (.str s)
  | arr {items : List Json} (hitems : ∀ j ∈ items, IsAcceptable j) : IsAcceptable (.arr items)
  /-- A mapping that names no type. -/
  | plain {ms : List (String × Json)} (htype : (ms.lookup "_type").getD .null = .null) :
    IsAcceptable (.obj ms)
  | position {ms : List (String × Json)} (htype : ms.lookup "_type" = some (.str "SourceLocation"))
    (hline : (ms.lookup "lineno").isSome = true)
    (hcolumn : (ms.lookup "col_offset").isSome = true) : IsAcceptable (.obj ms)
  | node {ms : List (String × Json)} {k : Kind} (hmet : k.IsMetBy ms)
    (hothers : ∀ name ∈ k.fieldNames, name ≠ "zone" → name ∉ Kind.mappingNames →
      ∀ j, ms.lookup name = some j → IsAcceptable j) : IsAcceptable (.obj ms)

/-- The members of a mapping describe a node: its kind is met and what else it declares is
acceptable. -/
def DescribesNode (ms : List (String × Json)) : Prop :=
  ∃ k : Kind, k.IsMetBy ms ∧ ∀ name ∈ k.fieldNames, name ≠ "zone" → name ∉ Kind.mappingNames →
    ∀ j, ms.lookup name = some j → j.IsAcceptable

/-- The names of the fields that the kind which a mapping names declares. -/
def declaredNames (ms : List (String × Json)) : List String :=
  match ms.lookup "_type" with
  | some (.str name) => ((Kind.ofName? name).map Kind.fieldNames).getD []
  | _ => []

/-- The value is a mapping. -/
def isMapping : Json → Bool
  | .obj _ => true
  | _ => false

mutual

/-- Wherever the value has attributes or properties that a kind declares, these are mappings. -/
def hasMappings : Json → Bool
  | .arr items => haveMappings items
  | .obj ms => membersHaveMappings (declaredNames ms) ms
  | _ => true
termination_by structural j => j

/-- The same for some values. -/
def haveMappings : List Json → Bool
  | [] => true
  | j :: js => j.hasMappings && haveMappings js
termination_by structural js => js

/-- The same for the members of the declared names. -/
def membersHaveMappings (declared : List String) : List (String × Json) → Bool
  | [] => true
  | (name, j) :: ms =>
    (!declared.contains name ||
      if Kind.mappingNames.contains name then j.isMapping else j.hasMappings) &&
      membersHaveMappings declared ms
termination_by structural ms => ms

end

theorem haveMappings_iff {js : List Json} :
    haveMappings js = true ↔ ∀ j ∈ js, j.hasMappings = true := by
  induction js with
  | nil => simp [haveMappings]
  | cons j js ih => simp [haveMappings, ih]

theorem membersHaveMappings_iff {declared : List String} {ms : List (String × Json)} :
    membersHaveMappings declared ms = true ↔ ∀ m ∈ ms, m.1 ∈ declared →
      if m.1 ∈ Kind.mappingNames then m.2.isMapping = true else m.2.hasMappings = true := by
  induction ms with
  | nil => simp [membersHaveMappings]
  | cons m ms ih =>
    obtain ⟨name, j⟩ := m
    rw [membersHaveMappings, Bool.and_eq_true, ih, List.forall_mem_cons]
    refine and_congr_left fun _ ↦ ?_
    by_cases hdeclared : name ∈ declared <;> by_cases hname : name ∈ Kind.mappingNames <;>
      simp [hdeclared, hname]

theorem declaredNames_eq {ms : List (String × Json)} {k : Kind} (hk : k ∈ Kind.registered)
    (htype : ms.lookup "_type" = some (.str k.name)) : declaredNames ms = k.fieldNames := by
  rw [declaredNames, htype]
  simp only
  rw [Kind.ofName?_name k hk]
  rfl

theorem mappings_of_lookup {ms : List (String × Json)} {k : Kind} {name : String} {j : Json}
    (h : (Json.obj ms).hasMappings = true) (hk : k.IsMetBy ms) (hname : name ∈ k.fieldNames)
    (hj : ms.lookup name = some j) :
    if name ∈ Kind.mappingNames then j.isMapping = true else j.hasMappings = true := by
  rw [hasMappings, membersHaveMappings_iff, declaredNames_eq hk.registered hk.type] at h
  exact h (name, j) (Assoc.mem_of_lookup hj) hname

end Json

/-- The names of fields tell which of them are zones and which are mappings. -/
theorem Kind.type_of_name : ∀ k ∈ registered, ∀ f ∈ k.fields,
    (f.type = .zone ↔ f.name = "zone") ∧ (f.type = .mapping ↔ f.name ∈ mappingNames) := by decide

theorem Kind.exists_field {k : Kind} {name : String} (h : name ∈ k.fieldNames) :
    ∃ f ∈ k.fields, f.name = name := List.mem_map.mp h

/-! ## What is acceptable is read -/

namespace Field

variable {ms : List (String × Json)} {k : Kind} {f : Field}

theorem exists_readAs {j : Json} (hk : k ∈ Kind.registered) (hf : f ∈ k.fields)
    (hzone : f.name = "zone" → j = .null ∨ ∃ z : Zone, j = .str z.name)
    (hmapping : f.name ∈ Kind.mappingNames → j.isMapping = true)
    (hothers : f.name ≠ "zone" → f.name ∉ Kind.mappingNames → ∃ d, Datum.ofJson j = .ok d) :
    ∃ d, Member.readAs f.type j = .ok d := by
  obtain ⟨hzone', hmapping'⟩ := Kind.type_of_name k hk f hf
  cases htype : f.type
  case zone =>
    rcases hzone (hzone'.mp htype) with rfl | ⟨z, rfl⟩
    · exact ⟨.null, rfl⟩
    · exact ⟨.zone z, by simp [Member.readAs, Member.zoneOf]⟩
  case mapping =>
    have hobj := hmapping (hmapping'.mp htype)
    cases j
    case obj ms => exact ⟨.mapping ms, rfl⟩
    all_goals cases hobj
  all_goals
    exact hothers (fun hname ↦ by simp [hzone'.mpr hname] at htype)
      fun hname ↦ by simp [hmapping'.mpr hname] at htype

/-- A field gets a value if its member is fit to be read, and if there is one where it has to be. -/
theorem exists_gets (hk : k.IsMetBy ms) (hf : f ∈ k.fields)
    (hread : ∀ j, ms.lookup f.name = some j → ∃ d, Member.readAs f.type j = .ok d) :
    ∃ d, f.Gets ms d := by
  cases hmember : ms.lookup f.name with
  | none =>
    cases hdefault : f.default? with
    | none =>
      have hsome := hk.required f hf hdefault
      rw [hmember] at hsome
      cases hsome
    | some d => exact ⟨d, .default hmember hdefault⟩
  | some j =>
    obtain ⟨d, hd⟩ := hread j hmember
    exact ⟨d, .member hmember hd⟩

end Field

theorem exists_forall₂ {α β : Type} {R : α → β → Prop} {xs : List α} (h : ∀ x ∈ xs, ∃ y, R x y) :
    ∃ ys, List.Forall₂ R xs ys := by
  induction xs with
  | nil => exact ⟨[], .nil⟩
  | cons x xs ih =>
    obtain ⟨y, hy⟩ := h x List.mem_cons_self
    obtain ⟨ys, hys⟩ := ih fun x hx ↦ h x (.tail _ hx)
    exact ⟨y :: ys, .cons hy hys⟩

/-- A kind that is met gets all values if what else it declares is read. -/
theorem Kind.IsMetBy.exists_values {k : Kind} {ms : List (String × Json)} (hk : k.IsMetBy ms)
    (h : (Json.obj ms).hasMappings = true)
    (hothers : ∀ name ∈ k.fieldNames, name ≠ "zone" → name ∉ mappingNames →
      ∀ j, ms.lookup name = some j → j.hasMappings = true → ∃ d, Datum.ofJson j = .ok d) :
    ∃ values, List.Forall₂ (Field.Gets ms) k.fields values := by
  refine exists_forall₂ fun f hf ↦ Field.exists_gets hk hf fun j hj ↦ ?_
  have hname : f.name ∈ k.fieldNames := List.mem_map_of_mem hf
  have hmappings := Json.mappings_of_lookup h hk hname hj
  refine Field.exists_readAs hk.registered hf (fun hzone ↦ ?_) (fun hmapping ↦ ?_)
    fun hzone hmapping ↦ ?_
  · rw [hzone] at hname hj
    exact hk.zone hname j hj
  · rwa [if_pos hmapping] at hmappings
  · rw [if_neg hmapping] at hmappings
    exact hothers f.name hname hzone hmapping j hj hmappings

namespace Json

theorem IsAcceptable.exists_ofJson {j : Json} (h : j.IsAcceptable)
    (hmappings : j.hasMappings = true) : ∃ d, Datum.ofJson j = .ok d := by
  induction h with
  | null => exact ⟨.null, rfl⟩
  | bool b => exact ⟨.bool b, rfl⟩
  | int n => exact ⟨.int n, rfl⟩
  | str s => exact ⟨.str s, rfl⟩
  | arr hitems ih =>
    obtain ⟨ds, hds⟩ := exists_forall₂ fun j hj ↦ ih j hj (haveMappings_iff.mp hmappings j hj)
    exact ⟨.seq ds, Datum.ofJson_arr_eq_ok_iff.mpr ⟨ds, hds, rfl⟩⟩
  | plain htype => exact ⟨_, Datum.ofJson_obj_eq_ok_iff.mpr (.plain htype)⟩
  | position htype hline hcolumn =>
    obtain ⟨line, hline⟩ := Option.isSome_iff_exists.mp hline
    obtain ⟨column, hcolumn⟩ := Option.isSome_iff_exists.mp hcolumn
    exact ⟨_, Datum.ofJson_obj_eq_ok_iff.mpr (.position htype hline hcolumn)⟩
  | node hmet hothers ih =>
    obtain ⟨values, hvalues⟩ := hmet.exists_values hmappings ih
    exact ⟨_, Datum.ofJson_obj_eq_ok_iff.mpr (.node hmet.registered hmet.type hvalues)⟩

end Json

/-! ## What is read is acceptable -/

section Read

variable {ms : List (String × Json)} {k : Kind} {values : List Datum}

theorem Field.Gets.readAs_of_lookup {f : Field} {d : Datum} {j : Json} (h : f.Gets ms d)
    (hj : ms.lookup f.name = some j) : Member.readAs f.type j = .ok d := by
  cases h with
  | member hmember hread =>
    rw [hj] at hmember
    cases hmember
    exact hread
  | default hnone _ =>
    rw [hj] at hnone
    cases hnone

variable (hk : k ∈ Kind.registered) (htype : ms.lookup "_type" = some (.str k.name))
  (hvalues : List.Forall₂ (Field.Gets ms) k.fields values)

include hvalues

theorem exists_gets_of_mem {f : Field} (hf : f ∈ k.fields) : ∃ d, f.Gets ms d := by
  obtain ⟨i, hi, rfl⟩ := List.mem_iff_getElem.mp hf
  exact ⟨_, hvalues.get hi (hvalues.length_eq ▸ hi)⟩

include hk

theorem exists_ofJson_of_gets {name : String} (hname : name ∈ k.fieldNames) (hzone : name ≠ "zone")
    (hmapping : name ∉ Kind.mappingNames) {j : Json} (hj : ms.lookup name = some j) :
    ∃ d, Datum.ofJson j = .ok d := by
  obtain ⟨f, hf, rfl⟩ := Kind.exists_field hname
  obtain ⟨hzone', hmapping'⟩ := Kind.type_of_name k hk f hf
  obtain ⟨d, hd⟩ := exists_gets_of_mem hvalues hf
  rcases Member.readAs_cases (hd.readAs_of_lookup hj) with ⟨htype, -⟩ | ⟨htype, -⟩ | ⟨-, -, hread⟩
  · exact absurd (hmapping'.mp htype) hmapping
  · exact absurd (hzone'.mp htype) hzone
  · exact ⟨d, hread⟩

include htype

theorem Kind.isMetBy_of_gets : k.IsMetBy ms where
  registered := hk
  type := htype
  required f hf hdefault := by
    obtain ⟨d, hd⟩ := exists_gets_of_mem hvalues hf
    cases hd with
    | member hmember _ => rw [hmember]; rfl
    | default _ hsome => rw [hdefault] at hsome; cases hsome
  zone hname j hj := by
    obtain ⟨f, hf, hfname⟩ := Kind.exists_field hname
    obtain ⟨hzone', hmapping'⟩ := Kind.type_of_name k hk f hf
    obtain ⟨d, hd⟩ := exists_gets_of_mem hvalues hf
    rw [← hfname] at hj
    rcases Member.readAs_cases (hd.readAs_of_lookup hj) with
      ⟨htype, -⟩ | ⟨-, hzone⟩ | ⟨-, hne, -⟩
    · rw [hzone'.mpr hfname] at htype
      cases htype
    · exact hzone.imp And.left fun ⟨z, hz, _⟩ ↦ ⟨z, hz⟩
    · exact absurd (hzone'.mpr hfname) hne

end Read

namespace Json

theorem isAcceptable_of_ofJson {j : Json} {d : Datum} (h : Datum.ofJson j = .ok d) :
    j.IsAcceptable := by
  induction j using Json.induction generalizing d with
  | step j ih =>
    cases j
    case null => exact .null
    case bool b => exact .bool b
    case int n => exact .int n
    case str s => exact .str s
    case arr items =>
      obtain ⟨ds, hds, -⟩ := Datum.ofJson_arr_eq_ok_iff.mp h
      refine .arr fun j hj ↦ ?_
      obtain ⟨i, hi, rfl⟩ := List.mem_iff_getElem.mp hj
      exact ih _ hj (hds.get hi (hds.length_eq ▸ hi))
    case obj ms =>
      cases Datum.ofJson_obj_eq_ok_iff.mp h with
      | plain htype => exact .plain htype
      | position htype hline hcolumn =>
        exact .position htype (by rw [hline]; rfl) (by rw [hcolumn]; rfl)
      | node hk htype hvalues =>
        refine .node (Kind.isMetBy_of_gets hk htype hvalues) fun name hname hzone hmapping j hj ↦ ?_
        obtain ⟨d, hd⟩ := exists_ofJson_of_gets hk hvalues hname hzone hmapping hj
        exact ih j (mem_parts_of_lookup hj) hd

end Json

/-! ## Records -/

namespace Record

variable {ms : List (String × Json)}

theorem exists_ofJson_iff (h : (Json.obj ms).hasMappings = true) :
    (∃ d, Record.ofJson (.obj ms) = .ok d) ↔ Json.DescribesNode ms := by
  constructor
  · rintro ⟨d, hd⟩
    obtain ⟨k, hk, htype, values, hvalues, -⟩ := Member.toNode_eq_ok_iff.mp hd
    refine ⟨k, Kind.isMetBy_of_gets hk htype hvalues, fun name hname hzone hmapping j hj ↦ ?_⟩
    obtain ⟨e, he⟩ := exists_ofJson_of_gets hk hvalues hname hzone hmapping hj
    exact Json.isAcceptable_of_ofJson he
  · rintro ⟨k, hmet, hothers⟩
    obtain ⟨values, hvalues⟩ := hmet.exists_values h
      fun name hname hzone hmapping j hj ↦ (hothers name hname hzone hmapping j hj).exists_ofJson
    exact ⟨_, Member.toNode_eq_ok_iff.mpr ⟨k, hmet.registered, hmet.type, values, hvalues, rfl⟩⟩

end Record

namespace Node

theorem ofJson_eq_ok_iff {j : Json} {n : Node} :
    Node.ofJson j = .ok n ↔ ∃ d, Record.ofJson j = .ok d ∧ ofDatum d = n := by
  rw [Node.ofJson]
  cases Record.ofJson j <;> simp

theorem ofJson_toJson {ms : List (String × Json)} {n : Node} (h : Node.ofJson (.obj ms) = .ok n) :
    Node.ofJson n.toJson = .ok n := by
  obtain ⟨d, hd, rfl⟩ := ofJson_eq_ok_iff.mp h
  have hread := Datum.ofJson_obj_eq_ok_iff.mpr (Record.ofJson_obj_eq_ok_iff.mp hd).1
  have hwritten : (ofDatum d).toJson = d.toJson := by
    rw [toJson, toDatum_ofDatum (Datum.isWhole_of_ofJson hread)]
  rw [hwritten]
  exact ofJson_eq_ok_iff.mpr ⟨d, Record.ofJson_toJson hd, rfl⟩

/-- A mapping whose attributes and properties are mappings is read as a node just if it describes
one. What is written for the node that is read, or for its record, is read as the same again.
Members that the kind does not declare never matter. -/
theorem described_nodes_are_read {ms : List (String × Json)}
    (h : (Json.obj ms).hasMappings = true) :
    ((∃ n, Node.ofJson (.obj ms) = .ok n) ↔ Json.DescribesNode ms) ∧
      (∀ n, Node.ofJson (.obj ms) = .ok n → Node.ofJson n.toJson = .ok n) ∧
      (∀ d, Record.ofJson (.obj ms) = .ok d → Record.ofJson d.toJson = .ok d) ∧
      ∀ ms' : List (String × Json), ms'.lookup "_type" = ms.lookup "_type" →
        (∀ name ∈ Json.declaredNames ms, ms'.lookup name = ms.lookup name) →
          Record.ofJson (.obj ms') = Record.ofJson (.obj ms) := by
  refine ⟨?_, fun n ↦ ofJson_toJson, fun d ↦ Record.ofJson_toJson, fun ms' htype hfields ↦ ?_⟩
  · rw [← Record.exists_ofJson_iff h]
    constructor
    · rintro ⟨n, hn⟩
      obtain ⟨d, hd, -⟩ := ofJson_eq_ok_iff.mp hn
      exact ⟨d, hd⟩
    · rintro ⟨d, hd⟩
      exact ⟨_, ofJson_eq_ok_iff.mpr ⟨d, hd, rfl⟩⟩
  · refine Record.ofJson_congr htype fun k hk hname name hmem ↦ hfields name ?_
    rwa [Json.declaredNames_eq hk hname]

/-- A paragraph of a text that is no text, with a line that is no number and a member that no
paragraph has. -/
def looseParagraph (note : Json) : List (String × Json) := [
  ("_type", .str "Paragraph"),
  ("children", .arr [.obj [("_type", .str "Text"), ("content", .arr [.int 1, .obj []])], .null]),
  ("location",
    .obj [("_type", .str "SourceLocation"), ("lineno", .str "1"), ("col_offset", .null)]),
  ("attributes", .obj [("align", .obj [("_type", .str "Centre")])]),
  ("note", note)]

/-- A text without content. -/
def emptyText : Json := .obj [("_type", .str "Text")]

theorem looseParagraph_is_read :
    (Json.obj (looseParagraph emptyText)).hasMappings = true ∧
      (∃ n, Node.ofJson (.obj (looseParagraph emptyText)) = .ok n ∧ Node.ofJson n.toJson = .ok n) ∧
      Json.DescribesNode (looseParagraph emptyText) ∧
      Record.ofJson (.obj (looseParagraph .null)) =
        Record.ofJson (.obj (looseParagraph emptyText)) := by
  have hmappings : (Json.obj (looseParagraph emptyText)).hasMappings = true := by decide
  obtain ⟨hiff, hagain, -, hundeclared⟩ := described_nodes_are_read hmappings
  obtain ⟨n, hn, -⟩ := exists_ok_of_any (x := Node.ofJson (.obj (looseParagraph emptyText)))
    (p := fun _ ↦ true) (by decide)
  exact ⟨hmappings, ⟨n, hn, hagain n hn⟩, hiff.mp ⟨n, hn⟩, hundeclared _ rfl (by decide)⟩

end Node

end Typeset

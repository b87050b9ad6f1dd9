import Typeset.Proofs.Matched
import Typeset.Proofs.Tree.Prepared
import Typeset.Proofs.Tree.Restored
import Typeset.Proofs.Tree.RoundTrip

/-!
# What mappings are read as

A mapping is read as plain data, as a position, or as a node whose fields get their values from its
members. What has been read once is written so that it is read as the same again.
-/

namespace Typeset

/-- A function gives values one by one just if it gives each of them. -/
theorem mapM_eq_ok_iff {ε α β : Type} {f : α → Except ε β} {xs : List α} {ys : List β} :
    xs.mapM f = .ok ys ↔ List.Forall₂ (fun x y ↦ f x = .ok y) xs ys := by
  constructor
  · intro h
    induction xs generalizing ys with
    | nil =>
      cases h
      exact .nil
    | cons x xs ih =>
      rw [List.mapM_cons] at h
      obtain ⟨y, hy, h⟩ := exists_of_bind_eq_ok h
      obtain ⟨ys, hys, h⟩ := exists_of_bind_eq_ok h
      cases h
      exact .cons hy (ih hys)
  · intro h
    induction h with
    | nil => rfl
    | cons hy _ ih =>
      rw [List.mapM_cons, hy, ih]
      rfl

theorem mapM_congr {ε α β : Type} {f g : α → Except ε β} {xs : List α}
    (h : ∀ x ∈ xs, f x = g x) : xs.mapM f = xs.mapM g := by
  induction xs with
  | nil => rfl
  | cons x xs ih =>
    rw [List.mapM_cons, List.mapM_cons, h x List.mem_cons_self, ih fun x hx ↦ h x (.tail _ hx)]

theorem Zone.name_of_ofName? {s : String} {z : Zone} (h : ofName? s = some z) : z.name = s := by
  rw [ofName?] at h
  simpa using List.find?_some h

theorem Kind.of_ofName? {s : String} {k : Kind} (h : ofName? s = some k) :
    k ∈ registered ∧ k.name = s := by
  rw [ofName?] at h
  exact ⟨List.mem_of_find?_eq_some h, by simpa using List.find?_some h⟩

namespace Json

/-- The values that a value is made of: the items of a list or the values of the members of a
mapping. -/
def parts : Json → List Json
  | .arr items => items
  | .obj ms => ms.map (·.2)
  | _ => []

/-- What holds of a value as soon as it holds of the values it is made of holds of every value. -/
theorem induction {motive : Json → Prop}
    (step : ∀ j : Json, (∀ i ∈ j.parts, motive i) → motive j) (j : Json) : motive j := by
  have hsimple : ∀ j : Json, j.parts = [] → motive j := by
    intro j hj
    refine step j fun i hi ↦ ?_
    rw [hj] at hi
    exact absurd hi List.not_mem_nil
  refine Json.rec (motive_1 := motive) (motive_2 := fun js ↦ ∀ i ∈ js, motive i)
    (motive_3 := fun ms ↦ ∀ i ∈ (Json.obj ms).parts, motive i) (motive_4 := fun m ↦ motive m.2)
    (hsimple _ rfl) (fun _ ↦ hsimple _ rfl) (fun _ ↦ hsimple _ rfl) (fun _ ↦ hsimple _ rfl)
    (fun items ↦ step (.arr items)) (fun ms ↦ step (.obj ms)) ?_ ?_ ?_ ?_ (fun _ _ h ↦ h) j
  · exact fun i hi ↦ absurd hi List.not_mem_nil
  · intro j js hj hjs i hi
    rcases List.mem_cons.mp hi with rfl | hi
    · exact hj
    · exact hjs i hi
  · exact fun i hi ↦ absurd hi List.not_mem_nil
  · intro m ms hm hms i hi
    rcases List.mem_cons.mp hi with rfl | hi
    · exact hm
    · exact hms i hi

theorem mem_parts_of_lookup {ms : List (String × Json)} {name : String} {j : Json}
    (h : ms.lookup name = some j) : j ∈ (Json.obj ms).parts :=
  List.mem_map.mpr ⟨_, Assoc.mem_of_lookup h, rfl⟩

end Json

/-! ## Fields -/

/-- A field gets a value from the members of a mapping: what the member of its name is read as, or
else its default. -/
inductive Field.Gets (ms : List (String × Json)) (f : Field) (d : Datum) : Prop
  | member {j : Json} (hmember : ms.lookup f.name = some j) (hread : Member.readAs f.type j = .ok d)
  | default (hnone : ms.lookup f.name = none) (hdefault : f.default? = some d)

namespace Member

theorem readField?_eq (ms : List (String × Json)) (f : Field) :
    readField? (Datum.membersOf ms) f =
      match ms.lookup f.name with
      | some j => some <$> readAs f.type j
      | none => .ok f.default? := by
  cases h : ms.lookup f.name with
  | none => simp only [readField?, find?_membersOf, h, Option.map_none]
  | some j => exact readField?_membersOf h

theorem readField?_eq_ok_iff {ms : List (String × Json)} {f : Field} {d : Datum} :
    readField? (Datum.membersOf ms) f = .ok (some d) ↔ f.Gets ms d := by
  rw [readField?_eq]
  cases h : ms.lookup f.name with
  | none =>
    constructor
    · exact fun heq ↦ .default h (Except.ok.inj heq)
    · rintro (⟨hmember, -⟩ | ⟨-, hdefault⟩)
      · rw [h] at hmember
        cases hmember
      · exact congrArg Except.ok hdefault
  | some j =>
    constructor
    · intro heq
      cases hread : readAs f.type j with
      | error e => simp [hread] at heq
      | ok e =>
        simp only [hread, Except.map_ok, Except.ok.injEq, Option.some.injEq] at heq
        exact .member h (heq ▸ hread)
    · rintro (⟨hmember, hread⟩ | ⟨hnone, -⟩)
      · rw [h] at hmember
        cases hmember
        exact congrArg (some <$> ·) hread
      · rw [h] at hnone
        cases hnone

/-- Where no field lacks a value, each gets the one that it is read with. -/
theorem forall_gets_of_missing {ms : List (String × Json)} {fs : List Field}
    {vs : List (Option Datum)}
    (h : List.Forall₂ (fun f v ↦ readField? (Datum.membersOf ms) f = .ok v) fs vs)
    (hmissing : missing fs vs = []) :
    List.Forall₂ (Field.Gets ms) fs (vs.map fun v ↦ v.getD .null) := by
  induction h with
  | nil => exact .nil
  | @cons f v fs vs hv _ ih =>
    cases v with
    | none => simp [missing] at hmissing
    | some d => exact .cons (readField?_eq_ok_iff.mp hv) (ih (by simpa [missing] using hmissing))

theorem mapM_readField?_of_gets {ms : List (String × Json)} {fs : List Field} {ds : List Datum}
    (h : List.Forall₂ (Field.Gets ms) fs ds) :
    fs.mapM (readField? (Datum.membersOf ms)) = .ok (ds.map some) := by
  rw [mapM_eq_ok_iff, List.forall₂_map_right_iff]
  exact h.imp fun _ _ ↦ readField?_eq_ok_iff.mpr

/-- Only mappings and zones are read in a way of their own. -/
theorem readAs_cases {t : FieldType} {j : Json} {d : Datum} (h : readAs t j = .ok d) :
    (t = .mapping ∧ ∃ ms, d = .mapping ms) ∨
      (t = .zone ∧ (j = .null ∧ d = .null ∨ ∃ z : Zone, j = .str z.name ∧ d = .zone z)) ∨
      (t ≠ .mapping ∧ t ≠ .zone ∧ Datum.ofJson j = .ok d) := by
  cases t
  case mapping =>
    refine .inl ⟨rfl, ?_⟩
    simp only [readAs] at h
    unfold mappingOf at h
    split at h
    · cases h
      exact ⟨_, rfl⟩
    · split at h
      · obtain ⟨entries, -, h⟩ := exists_of_bind_eq_ok h
        cases h
        exact ⟨_, rfl⟩
      · cases h
  case zone =>
    refine .inr (.inl ⟨rfl, ?_⟩)
    simp only [readAs] at h
    unfold zoneOf at h
    split at h
    · cases h
      exact .inl ⟨rfl, rfl⟩
    · split at h
      · next hz =>
        cases h
        exact .inr ⟨_, congrArg Json.str (Zone.name_of_ofName? hz).symm, rfl⟩
      · cases h
    · cases h
  all_goals exact .inr (.inr ⟨by simp, by simp, h⟩)

end Member

/-! ## Mappings -/

/-- What the members of a mapping are read as. -/
inductive Datum.OfMembers (ms : List (String × Json)) : Datum → Prop
  | plain (htype : (ms.lookup "_type").getD .null = .null) : OfMembers ms (.mapping ms)
  | position {line column : Json} (htype : ms.lookup "_type" = some (.str "SourceLocation"))
    (hline : ms.lookup "lineno" = some line) (hcolumn : ms.lookup "col_offset" = some column) :
    OfMembers ms (.position line column ((ms.lookup "source_file").getD .null))
  | node {k : Kind} {values : List Datum} (hk : k ∈ Kind.registered)
    (htype : ms.lookup "_type" = some (.str k.name))
    (hfields : List.Forall₂ (Field.Gets ms) k.fields values) : OfMembers ms (.node k values)

namespace Member

variable {ms : List (String × Json)} {d : Datum}

theorem lookup_of_raw? {name : String} {j : Json} (hj : j ≠ .null)
    (h : raw? (Datum.membersOf ms) name = j) : ms.lookup name = some j := by
  rw [raw?_membersOf] at h
  cases hlookup : ms.lookup name with
  | none =>
    rw [hlookup] at h
    exact absurd h.symm hj
  | some i =>
    rw [hlookup] at h
    exact congrArg some h

theorem lookup_of_need {name : String} {j : Json}
    (h : need (Datum.membersOf ms) name = .ok j) : ms.lookup name = some j := by
  rw [need, find?_membersOf] at h
  cases hlookup : ms.lookup name with
  | none =>
    rw [hlookup] at h
    cases h
  | some i =>
    rw [hlookup] at h
    cases h
    rfl

/-- A mapping is read as a node if it names a kind whose fields all get values. -/
theorem toNode_eq_ok_iff :
    toNode (Datum.membersOf ms) = .ok d ↔
      ∃ k ∈ Kind.registered, ms.lookup "_type" = some (.str k.name) ∧
        ∃ values, List.Forall₂ (Field.Gets ms) k.fields values ∧ d = .node k values := by
  constructor
  · intro h
    unfold toNode at h
    split at h
    · cases h
    · next s hs =>
      split at h
      · cases h
      · next k hk =>
        obtain ⟨hregistered, hname⟩ := Kind.of_ofName? hk
        obtain ⟨vs, hvs, h⟩ := exists_of_bind_eq_ok h
        split at h
        · next hmissing =>
          cases h
          refine ⟨k, hregistered, ?_, _,
            forall_gets_of_missing (mapM_eq_ok_iff.mp hvs) hmissing, rfl⟩
          rw [hname]
          exact lookup_of_raw? (by simp) hs
        · cases h
    · cases h
    · cases h
    · cases h
  · rintro ⟨k, hk, htype, values, hfields, rfl⟩
    rw [toNode, raw?_membersOf, htype, Option.getD_some]
    dsimp only
    rw [Kind.ofName?_name k hk]
    dsimp only
    rw [mapM_readField?_of_gets hfields]
    dsimp only [bind, Except.bind]
    rw [Field.missing_eq_nil, List.map_map]
    exact congrArg (fun ds ↦ Except.ok (Datum.node k ds)) (List.map_id values)

theorem map_membersOf (ms : List (String × Json)) :
    ((Datum.membersOf ms).map fun m ↦ (m.name, m.raw)) = ms := by
  induction ms with
  | nil => rfl
  | cons m ms ih =>
    obtain ⟨name, j⟩ := m
    rw [Datum.membersOf, List.map_cons, ih]

end Member

namespace Datum

variable {ms : List (String × Json)} {d : Datum}

theorem ofJson_obj_eq_ok_iff : ofJson (.obj ms) = .ok d ↔ OfMembers ms d := by
  rw [ofJson]
  constructor
  · intro h
    unfold Member.toDatum at h
    split at h
    · next htype =>
      cases h
      rw [Member.map_membersOf]
      exact .plain (by rwa [Member.raw?_membersOf] at htype)
    · next htype =>
      obtain ⟨line, hline, h⟩ := exists_of_bind_eq_ok h
      obtain ⟨column, hcolumn, h⟩ := exists_of_bind_eq_ok h
      cases h
      rw [Member.raw?_membersOf]
      exact .position (Member.lookup_of_raw? (by simp) htype) (Member.lookup_of_need hline)
        (Member.lookup_of_need hcolumn)
    · obtain ⟨k, hk, htype, values, hfields, rfl⟩ := Member.toNode_eq_ok_iff.mp h
      exact .node hk htype hfields
  · intro h
    cases h with
    | plain htype =>
      rw [Member.toDatum, Member.raw?_membersOf, htype, Member.map_membersOf]
    | position htype hline hcolumn =>
      rw [Member.toDatum, Member.raw?_membersOf, htype, Option.getD_some,
        Member.need_membersOf hline, Member.need_membersOf hcolumn, Member.raw?_membersOf]
      rfl
    | node hk htype hfields =>
      have hposition := Kind.name_ne_position _ hk
      rw [Member.toDatum, Member.raw?_membersOf, htype, Option.getD_some]
      split
      · next heq => cases heq
      · next heq => exact absurd (Json.str.inj heq) hposition
      · exact Member.toNode_eq_ok_iff.mpr ⟨_, hk, htype, _, hfields, rfl⟩

theorem forall_of_ofItems {js : List Json} {ds : List Datum} (h : ofItems js = .ok ds) :
    List.Forall₂ (fun j d ↦ ofJson j = .ok d) js ds := by
  induction js generalizing ds with
  | nil =>
    cases h
    exact .nil
  | cons j js ih =>
    rw [ofItems] at h
    obtain ⟨d, hd, h⟩ := exists_of_bind_eq_ok h
    obtain ⟨ds, hds, h⟩ := exists_of_bind_eq_ok h
    cases h
    exact .cons hd (ih hds)

theorem ofJson_arr_eq_ok_iff {js : List Json} :
    ofJson (.arr js) = .ok d ↔
      ∃ ds, List.Forall₂ (fun j d ↦ ofJson j = .ok d) js ds ∧ d = .seq ds := by
  constructor
  · intro h
    rw [ofJson] at h
    cases hitems : ofItems js with
    | error e =>
      rw [hitems] at h
      cases h
    | ok ds =>
      rw [hitems] at h
      cases h
      exact ⟨ds, forall_of_ofItems hitems, rfl⟩
  · rintro ⟨ds, hitems, rfl⟩
    exact FieldType.ofJson_arr hitems

end Datum

theorem Record.ofJson_obj_eq_ok_iff {ms : List (String × Json)} {d : Datum} :
    Record.ofJson (.obj ms) = .ok d ↔
      Datum.OfMembers ms d ∧ ∃ k ∈ Kind.registered, ms.lookup "_type" = some (.str k.name) := by
  rw [Record.ofJson, Member.toNode_eq_ok_iff]
  constructor
  · rintro ⟨k, hk, htype, values, hfields, rfl⟩
    exact ⟨.node hk htype hfields, k, hk, htype⟩
  · rintro ⟨h, k, hk, htype⟩
    cases h with
    | plain hplain =>
      rw [htype] at hplain
      cases hplain
    | position hposition _ _ =>
      rw [htype] at hposition
      exact absurd (Json.str.inj (Option.some.inj hposition)) (Kind.name_ne_position k hk)
    | node hk' htype' hfields => exact ⟨_, hk', htype', _, hfields, rfl⟩

/-! ## What is read again -/

/-- What a field holds by default is read as it is when it is written. -/
theorem Kind.default_is_read : ∀ k ∈ registered, ∀ f ∈ k.fields, ∀ d ∈ f.default?,
    Member.readAs f.type d.toJson = .ok d ∧ d.isWhole = true := by decide

namespace Field

variable {ms : List (String × Json)} {k : Kind} {f : Field} {d : Datum}

theorem Gets.readAs_toJson (h : f.Gets ms d) (hk : k ∈ Kind.registered) (hf : f ∈ k.fields)
    (hread : ∀ j ∈ (Json.obj ms).parts, ∀ d, Datum.ofJson j = .ok d →
      Datum.ofJson d.toJson = .ok d) :
    Member.readAs f.type d.toJson = .ok d := by
  cases h with
  | default _ hdefault => exact (Kind.default_is_read k hk f hf d hdefault).1
  | member hmember h =>
    rcases Member.readAs_cases h with ⟨htype, ms, rfl⟩ |
      ⟨htype, ⟨-, rfl⟩ | ⟨z, -, rfl⟩⟩ | ⟨hmapping, hzone, hvalue⟩
    · rw [htype]
      rfl
    · rw [htype]
      rfl
    · rw [htype]
      simp [Member.readAs, Member.zoneOf, Datum.toJson]
    · rw [← hread _ (Json.mem_parts_of_lookup hmember) d hvalue]
      cases htype : f.type
      case mapping => exact absurd htype hmapping
      case zone => exact absurd htype hzone
      all_goals rfl

theorem Gets.isWhole (h : f.Gets ms d) (hk : k ∈ Kind.registered) (hf : f ∈ k.fields)
    (hwhole : ∀ j ∈ (Json.obj ms).parts, ∀ d, Datum.ofJson j = .ok d → d.isWhole = true) :
    d.isWhole = true := by
  cases h with
  | default _ hdefault => exact (Kind.default_is_read k hk f hf d hdefault).2
  | member hmember h =>
    rcases Member.readAs_cases h with ⟨-, ms, rfl⟩ | ⟨-, ⟨-, rfl⟩ | ⟨z, -, rfl⟩⟩ | ⟨-, -, hvalue⟩
    · rfl
    · rfl
    · rfl
    · exact hwhole _ (Json.mem_parts_of_lookup hmember) d hvalue

/-- The members that a node is written as give its fields their values again. -/
theorem gets_membersOfNode {values : List Datum} (hk : k ∈ Kind.registered)
    (h : List.Forall₂ (fun f d ↦ Member.readAs f.type d.toJson = .ok d) k.fields values) :
    List.Forall₂ (Field.Gets (Datum.membersOfNode k values)) k.fields values := by
  have hnames : ((Datum.membersOfNode k values).map (·.1)).Nodup := by
    rw [Datum.names_membersOfNode h.length_eq.symm]
    exact Kind.nodup_fieldNames k hk
  obtain ⟨hlength, hread⟩ := List.forall₂_iff_zip.mp h
  refine List.forall₂_iff_zip.mpr ⟨hlength, fun {f d} hmem ↦ ?_⟩
  have hmember : (f.name, d.toJson) ∈ Datum.membersOfNode k values := by
    refine .tail _ ?_
    rw [Kind.fieldNames, List.zip_map]
    exact List.mem_map.mpr ⟨(f, d), hmem, rfl⟩
  exact .member (Assoc.lookup_of_mem hnames hmember) (hread hmem)

end Field

namespace Datum

theorem toJson_node (k : Kind) (values : List Datum) :
    (Datum.node k values).toJson = .obj (membersOfNode k values) := by
  rw [toJson, itemsToJson_eq]
  rfl

/-- What a value is read as is written so that it is read as the same. -/
theorem ofJson_toJson {j : Json} {d : Datum} (h : ofJson j = .ok d) : ofJson d.toJson = .ok d := by
  induction j using Json.induction generalizing d with
  | step j ih =>
    cases j
    case arr items =>
      obtain ⟨ds, hds, rfl⟩ := ofJson_arr_eq_ok_iff.mp h
      rw [toJson, itemsToJson_eq, ofJson_arr_eq_ok_iff]
      refine ⟨ds, List.forall₂_map_left_iff.mpr (List.forall₂_same.mpr ?_), rfl⟩
      exact forall_mem_of_forall₂ hds fun j hj d hd ↦ ih j hj hd
    case obj ms =>
      cases ofJson_obj_eq_ok_iff.mp h with
      | plain htype => exact h
      | position htype hline hcolumn => exact ofJson_obj_eq_ok_iff.mpr (.position rfl rfl rfl)
      | @node k values hk htype hfields =>
        have hread : List.Forall₂ (fun f d ↦ Member.readAs f.type d.toJson = .ok d) k.fields
            values := by
          refine ((List.forall₂_and_left _ _).mpr ⟨fun f hf ↦ hf, hfields⟩).imp fun f d hfd ↦ ?_
          exact hfd.2.readAs_toJson hk hfd.1 fun j hj d hd ↦ ih j hj hd
        rw [toJson_node, ofJson_obj_eq_ok_iff]
        exact .node hk rfl (Field.gets_membersOfNode hk hread)
    all_goals
      cases h
      rfl

/-- What a value is read as has a value for each field of each node. -/
theorem isWhole_of_ofJson {j : Json} {d : Datum} (h : ofJson j = .ok d) : d.isWhole = true := by
  induction j using Json.induction generalizing d with
  | step j ih =>
    cases j
    case arr items =>
      obtain ⟨ds, hds, rfl⟩ := ofJson_arr_eq_ok_iff.mp h
      exact isWhole_seq.mpr (forall_mem_of_forall₂ hds fun j hj d hd ↦ ih j hj hd)
    case obj ms =>
      cases ofJson_obj_eq_ok_iff.mp h with
      | plain htype => rfl
      | position htype hline hcolumn => rfl
      | node hk htype hfields =>
        refine isWhole_node.mpr ⟨hk, hfields.length_eq.symm, ?_⟩
        exact forall_mem_of_forall₂ hfields fun f hf d hd ↦
          hd.isWhole hk hf fun j hj d hd ↦ ih j hj hd
    all_goals
      cases h
      rfl

end Datum

namespace Record

variable {ms : List (String × Json)} {d : Datum}

theorem ofJson_toJson (h : Record.ofJson (.obj ms) = .ok d) : Record.ofJson d.toJson = .ok d := by
  obtain ⟨k, hk, htype, values, hfields, rfl⟩ := Member.toNode_eq_ok_iff.mp h
  have hread := Datum.ofJson_toJson (Datum.ofJson_obj_eq_ok_iff.mpr (.node hk htype hfields))
  rw [Datum.toJson_node] at hread ⊢
  exact ofJson_obj_eq_ok_iff.mpr ⟨Datum.ofJson_obj_eq_ok_iff.mp hread, k, hk, rfl⟩

/-- The members that are no fields of the kind that a mapping names do not matter. -/
theorem ofJson_congr {ms' : List (String × Json)}
    (htype : ms'.lookup "_type" = ms.lookup "_type")
    (hfields : ∀ k ∈ Kind.registered, ms.lookup "_type" = some (.str k.name) →
      ∀ name ∈ k.fieldNames, ms'.lookup name = ms.lookup name) :
    Record.ofJson (.obj ms') = Record.ofJson (.obj ms) := by
  have hraw : Member.raw? (Datum.membersOf ms') "_type" =
      Member.raw? (Datum.membersOf ms) "_type" := by
    rw [Member.raw?_membersOf, Member.raw?_membersOf, htype]
  rw [ofJson, ofJson, Member.toNode, Member.toNode, hraw]
  split
  · rfl
  · next s hs =>
    cases hk : Kind.ofName? s with
    | none => rfl
    | some k =>
      obtain ⟨hregistered, rfl⟩ := Kind.of_ofName? hk
      have hnames := hfields k hregistered (Member.lookup_of_raw? (by simp) hs)
      have hvalues : k.fields.mapM (Member.readField? (Datum.membersOf ms')) =
          k.fields.mapM (Member.readField? (Datum.membersOf ms)) := by
        refine mapM_congr fun f hf ↦ ?_
        rw [Member.readField?_eq, Member.readField?_eq, hnames _ (List.mem_map_of_mem hf)]
      dsimp only
      rw [hvalues]
  · rfl
  · rfl
  · rfl

end Record

end Typeset

import Typeset.Proofs.Tree.Views

/-!
# Records with values of any types

A record that has a value for each field is read as a tree without any loss, whatever the types of
the values. Those that fit their fields come back from the element, or from the nodes below it, and
all others are kept beside it.
-/

namespace Typeset

namespace Datum

/-- The values that a value is made of: the items of a sequence or the fields of a node. -/
def parts : Datum → List Datum
  | .seq items => items
  | .node _ values => values
  | _ => []

/-- What holds of a value as soon as it holds of the values it is made of holds of every value. -/
theorem induction {motive : Datum → Prop}
    (step : ∀ d : Datum, (∀ e ∈ d.parts, motive e) → motive d) (d : Datum) : motive d := by
  have hsimple : ∀ d : Datum, d.parts = [] → motive d := by
    intro d hd
    refine step d fun e he ↦ ?_
    rw [hd] at he
    exact absurd he List.not_mem_nil
  refine Datum.rec (motive_1 := motive) (motive_2 := fun ds ↦ ∀ e ∈ ds, motive e)
    (hsimple _ rfl) (fun _ ↦ hsimple _ rfl) (fun _ ↦ hsimple _ rfl) (fun _ ↦ hsimple _ rfl)
    (fun items ↦ step (.seq items)) (fun _ ↦ hsimple _ rfl) (fun _ _ _ ↦ hsimple _ rfl)
    (fun _ ↦ hsimple _ rfl) (fun k values ↦ step (.node k values)) ?_ ?_ d
  · exact fun e he ↦ absurd he List.not_mem_nil
  · intro d ds hd hds e he
    rcases List.mem_cons.mp he with rfl | he
    · exact hd
    · exact hds e he

mutual

/-- Every node in the value is of a kind that a serialized tree may name and has a value for each of
its fields. -/
def isWhole : Datum → Bool
  | .seq items => areWhole items
  | .node k values =>
    decide (k ∈ Kind.registered) && values.length == k.fields.length && areWhole values
  | _ => true
termination_by structural d => d

/-- Every node in the values is. -/
def areWhole : List Datum → Bool
  | [] => true
  | d :: ds => d.isWhole && areWhole ds
termination_by structural ds => ds

end

theorem areWhole_iff {ds : List Datum} : areWhole ds = true ↔ ∀ d ∈ ds, d.isWhole = true := by
  induction ds with
  | nil => simp [areWhole]
  | cons d ds ih => simp [areWhole, ih]

theorem isWhole_seq {items : List Datum} :
    (Datum.seq items).isWhole = true ↔ ∀ d ∈ items, d.isWhole = true := by
  rw [isWhole, areWhole_iff]

theorem isWhole_node {k : Kind} {values : List Datum} :
    (Datum.node k values).isWhole = true ↔
      k ∈ Kind.registered ∧ values.length = k.fields.length ∧ ∀ d ∈ values, d.isWhole = true := by
  rw [isWhole, Bool.and_eq_true, Bool.and_eq_true, decide_eq_true_eq, beq_iff_eq, areWhole_iff,
    and_assoc]

/-! ## What is put back -/

theorem lookup_loose {fs : List Field} (hfs : (fs.map Field.name).Nodup) (value : String → Datum)
    {f : Field} (hf : f ∈ fs) :
    ((fs.filter fun f ↦ !f.type.fits (value f.name)).map fun f ↦ (f.name, value f.name)).lookup
        f.name =
      if f.type.fits (value f.name) then none else some (value f.name) := by
  induction fs with
  | nil => exact absurd hf List.not_mem_nil
  | cons g fs ih =>
    rw [List.map_cons, List.nodup_cons] at hfs
    rcases List.mem_cons.mp hf with rfl | hf
    · cases hfits : f.type.fits (value f.name) with
      | true =>
        rw [List.filter_cons_of_neg (by simp [hfits]), if_pos rfl, List.lookup_eq_none_iff]
        intro m hm
        obtain ⟨g, hg, rfl⟩ := List.mem_map.mp hm
        have hne : f.name ≠ g.name := fun heq ↦
          hfs.1 (heq ▸ List.mem_map_of_mem (List.mem_of_mem_filter hg))
        simpa using hne
      | false =>
        rw [List.filter_cons_of_pos (by simp [hfits]), List.map_cons, List.lookup_cons,
          beq_self_eq_true]
        rfl
    · have hne : (f.name == g.name) = false :=
        beq_eq_false_iff_ne.mpr fun heq ↦ hfs.1 (heq ▸ List.mem_map_of_mem hf)
      rw [← ih hfs.2 hf, List.filter_cons]
      split
      · rw [List.map_cons, List.lookup_cons, hne]
      · rfl

/-- Values are put back where those that fit their fields are there already. -/
theorem restore_eq {fs : List Field} {value : String → Datum} {es : List Datum}
    {loose : List (String × Datum)}
    (hloose : ∀ f ∈ fs, loose.lookup f.name =
      if f.type.fits (value f.name) then none else some (value f.name))
    (h : List.Forall₂ (fun f e ↦ f.type.fits (value f.name) = true → e = value f.name) fs es) :
    restore loose (fs.map Field.name) es = fs.map fun f ↦ value f.name := by
  induction h with
  | nil => rfl
  | @cons f e fs es hfirst _ ih =>
    rw [List.map_cons, restore, hloose f List.mem_cons_self,
      ih fun f hf ↦ hloose f (.tail _ hf), List.map_cons]
    split
    · next hfits => rw [hfirst hfits, Option.getD_none]
    · rfl

end Datum

/-! ## Values that fit -/

/-- The one value is the other if that fits the field. -/
def FieldType.Keeps (t : FieldType) (d e : Datum) : Prop := t.fits d = true → e = d

namespace FieldType

@[simp] theorem keeps_self (t : FieldType) (d : Datum) : t.Keeps d d := fun _ ↦ rfl

@[simp] theorem keeps_text (d : Datum) : text.Keeps d (.str d.asText) := by
  intro h
  cases d <;> first | rfl | cases h

@[simp] theorem keeps_plain (d : Datum) : text.Keeps d (.str d.plain) := by
  intro h
  cases d <;> first | rfl | cases h

@[simp] theorem keeps_optionalText (d : Datum) : optionalText.Keeps d (.ofText? d.asText?) := by
  intro h
  cases d <;> first | rfl | cases h

@[simp] theorem keeps_flag (d : Datum) : flag.Keeps d (.bool d.isTrue) := by
  intro h
  cases d <;> first | rfl | cases h

@[simp] theorem keeps_number (d : Datum) : number.Keeps d (.int (d.number?.getD 0)) := by
  intro h
  cases d <;> first | rfl | cases h

@[simp] theorem keeps_optionalNumber (d : Datum) :
    optionalNumber.Keeps d (.ofNumber? d.number?) := by
  intro h
  cases d <;> first | rfl | cases h

@[simp] theorem keeps_zone (d : Datum) :
    zone.Keeps d ((d.asZone?.map Datum.zone).getD .null) := by
  intro h
  cases d <;> first | rfl | cases h

@[simp] theorem keeps_mapping (d : Datum) : mapping.Keeps d (.mapping d.asEntries) := by
  intro h
  cases d <;> first | rfl | cases h

@[simp] theorem keeps_texts (d : Datum) : texts.Keeps d (.ofTexts d.asTexts) := by
  intro h
  cases d
  case seq items =>
    have htexts : ∀ item ∈ items, isText item = true := List.all_eq_true.mp h
    clear h
    induction items with
    | nil => rfl
    | cons item items ih =>
      have hfirst := htexts item List.mem_cons_self
      have hrest := ih fun item hitem ↦ htexts item (.tail _ hitem)
      cases item
      case str s => exact congrArg Datum.seq (congrArg (Datum.str s :: ·) (Datum.seq.inj hrest))
      all_goals cases hfirst
  all_goals cases h

end FieldType

/-- Reading the value as a tree, or as a sequence of trees, loses nothing. -/
structure Datum.IsRestored (d : Datum) : Prop where
  node : (Node.ofDatum d).toDatum = d
  nodes : ∀ ns, Node.nodesIn? d = some ns → Datum.seq (Node.toData ns) = d

namespace FieldType

variable {d : Datum}

theorem keeps_nodes (h : d.IsRestored) :
    nodes.Keeps d (.seq (Node.toData ((Node.nodesIn? d).getD []))) := by
  intro hfits
  cases d
  case seq items => exact h.nodes _ rfl
  all_goals cases hfits

theorem keeps_optionalNodes (h : d.IsRestored) :
    optionalNodes.Keeps d (Node.toDatum? (Node.nodesIn? d)) := by
  intro hfits
  cases d
  case seq items => exact h.nodes _ rfl
  case null => rfl
  all_goals cases hfits

end FieldType

/-! ## Views of records -/

namespace Node

theorem readings_eq (ds : List Datum) : readings ds = ds.map fun d ↦ ⟨d, nodesIn? d⟩ := by
  induction ds with
  | nil => rfl
  | cons d ds ih => rw [readings_cons, ih, List.map_cons]

end Node

namespace RecordView

/-- The view of a record. -/
def of (k : Kind) (values : List Datum) : RecordView := ⟨k, k.fieldNames.zip (Node.readings values)⟩

section Of

variable {k : Kind} {values : List Datum}

theorem lookup_of {name : String} {r : Reading} (h : (of k values).entries.lookup name = some r) :
    r.value ∈ values ∧ r.nodes = Node.nodesIn? r.value := by
  have hmem := (List.of_mem_zip (Assoc.mem_of_lookup h)).2
  rw [Node.readings_eq] at hmem
  obtain ⟨d, hd, rfl⟩ := List.mem_map.mp hmem
  exact ⟨hd, rfl⟩

theorem value_of (name : String) :
    (of k values).value name = .null ∨ (of k values).value name ∈ values := by
  rw [value]
  cases h : (of k values).entries.lookup name with
  | none => exact .inl rfl
  | some r => exact .inr (lookup_of h).1

theorem nodes?_of (name : String) :
    (of k values).nodes? name = Node.nodesIn? ((of k values).value name) := by
  rw [nodes?, value]
  cases h : (of k values).entries.lookup name with
  | none => rfl
  | some r => exact (lookup_of h).2

theorem map_value_of (hk : k ∈ Kind.registered) (hlength : values.length = k.fields.length) :
    (k.fields.map fun f ↦ (of k values).value f.name) = values := by
  have hnames : ((k.fieldNames.zip (Node.readings values)).map (·.1)).Nodup := by
    rw [List.map_fst_zip (by simp [Node.readings_eq, Kind.fieldNames, hlength])]
    exact (List.nodup_cons.mp (Kind.nodup_fieldNames k hk)).2
  refine List.ext_getElem (by simp [hlength]) fun i hi hi' ↦ ?_
  have hfield : i < k.fields.length := by simpa using hi
  have hmem : (k.fields[i].name, (⟨values[i], Node.nodesIn? values[i]⟩ : Reading)) ∈
      k.fieldNames.zip (Node.readings values) := by
    have hzip : i < (k.fieldNames.zip (Node.readings values)).length := by
      simp [Node.readings_eq, Kind.fieldNames]
      omega
    refine List.mem_iff_getElem.mpr ⟨i, hzip, ?_⟩
    simp [Node.readings_eq, Kind.fieldNames]
  have hlookup := Assoc.lookup_of_mem hnames hmem
  rw [List.getElem_map, value, show (of k values).entries = k.fieldNames.zip (Node.readings values)
    from rfl, hlookup]
  rfl

end Of

variable {v : RecordView}

theorem kind_element (h : v.kind ∈ Kind.registered) : v.element.kind = v.kind := by
  obtain ⟨kind, entries⟩ := v
  cases kind
  case foreign type => exact absurd h (by simp [Kind.registered])
  all_goals rfl

/-- The values that the tree of a record has for the fields of its kind. -/
def written (v : RecordView) : List Datum :=
  v.info.sharedValues (Node.toDatum? (v.nodes? "caption")) ++
    v.element.values (.seq (Node.toData (v.nodes "children")))
      (.seq (Node.toData (v.nodes "title"))) (Node.toDatum? (v.nodes? "tag"))

theorem toDatum_node (h : v.kind ∈ Kind.registered) :
    v.node.toDatum = .node v.kind (Datum.restore v.loose v.kind.fieldNames v.written) := by
  have hkind : v.info.element.kind = v.kind := kind_element h
  have hregistered : ∀ d : Datum, (Element.foreign d).kind ∈ Kind.registered → False := by
    intro d hd
    simp [Element.kind, Kind.registered] at hd
  rw [node, Node.toDatum]
  split
  · next d hd => exact (hregistered d (by rwa [← hd, hkind])).elim
  · rw [hkind, written, NodeInfo.sharedValues, hkind]
    cases v.kind.isBlock <;> rfl

section Keeps

variable (hk : v.kind ∈ Kind.registered)
  (hnodes : ∀ name, v.nodes? name = Node.nodesIn? (v.value name))
  (hrestored : ∀ name, (v.value name).IsRestored)

include hk hnodes hrestored

theorem keeps_sharedValues :
    List.Forall₂ (fun f e ↦ f.type.Keeps (v.value f.name) e) v.kind.sharedFields
      (v.info.sharedValues (Node.toDatum? (v.nodes? "caption"))) := by
  have hkind : v.info.element.kind = v.kind := kind_element hk
  have hcaption := FieldType.keeps_optionalNodes (hrestored "caption")
  rw [Kind.sharedFields, NodeInfo.sharedValues, hkind]
  cases hblock : v.kind.isBlock <;>
    simp [hblock, info, number, text?_eq, attributes_eq, Kind.locationField, Kind.blankField,
      Field.optional, Field.mapping, hnodes, hcaption]

theorem keeps_ownValues :
    List.Forall₂ (fun f e ↦ f.type.Keeps (v.value f.name) e) v.kind.ownFields
      (v.element.values (.seq (Node.toData (v.nodes "children")))
        (.seq (Node.toData (v.nodes "title"))) (Node.toDatum? (v.nodes? "tag"))) := by
  have hchildren := FieldType.keeps_nodes (hrestored "children")
  have htitle := FieldType.keeps_nodes (hrestored "title")
  have htag := FieldType.keeps_optionalNodes (hrestored "tag")
  have hcheckbox : Checkbox.name ∘ Checkbox.ofName = id := funext Checkbox.name_ofName
  have hnumbering : Numbering.name ∘ Numbering.ofName = id := funext Numbering.name_ofName
  rw [← hnodes] at hchildren htitle htag
  obtain ⟨kind, entries⟩ := v
  cases kind
  case foreign type => exact absurd hk (by simp [Kind.registered])
  all_goals
    simp [Kind.ownFields, Kind.children, Kind.optionalChildren, Field.required, Field.optional,
      Field.mapping, element, Element.values, nodes, flag, number, text_eq, text?_eq, texts_eq,
      zone?_eq, attributes_eq, hchildren, htitle, htag, hcheckbox, hnumbering, -Node.toData_eq]

/-- What the tree of a record has for a field is the value of the record if that fits. -/
theorem keeps_written :
    List.Forall₂ (fun f e ↦ f.type.Keeps (v.value f.name) e) v.kind.fields v.written :=
  List.rel_append (keeps_sharedValues hk hnodes hrestored) (keeps_ownValues hk hnodes hrestored)

end Keeps

/-- What the tree of a record has for its fields and what is kept beside it are its values. -/
theorem restore_written {k : Kind} {values : List Datum} (hk : k ∈ Kind.registered)
    (hlength : values.length = k.fields.length)
    (hrestored : ∀ name, ((of k values).value name).IsRestored) :
    Datum.restore (of k values).loose k.fieldNames (of k values).written = values := by
  have hnames : (k.fields.map Field.name).Nodup :=
    (List.nodup_cons.mp (Kind.nodup_fieldNames k hk)).2
  have hloose : ∀ f ∈ k.fields, (of k values).loose.lookup f.name =
      if f.type.fits ((of k values).value f.name) then none
      else some ((of k values).value f.name) :=
    fun f hf ↦ Datum.lookup_loose hnames (of k values).value hf
  have hput := Datum.restore_eq hloose (keeps_written hk nodes?_of hrestored)
  rwa [map_value_of hk hlength] at hput

end RecordView

namespace Node

theorem isRestored {d : Datum} (h : d.isWhole = true) : d.IsRestored := by
  induction d using Datum.induction with
  | step d ih =>
    cases d
    case seq items =>
      have hitems : items.map (toDatum ∘ ofDatum) = items := by
        refine (List.map_congr_left fun d hd ↦ ?_).trans (List.map_id _)
        exact (ih d hd (Datum.isWhole_seq.mp h d hd)).node
      refine ⟨rfl, fun ns hns ↦ ?_⟩
      rw [nodesIn?_seq] at hns
      rw [← Option.some.inj hns, toData_eq, List.map_map, hitems]
    case node k values =>
      obtain ⟨hk, hlength, hvalues⟩ := Datum.isWhole_node.mp h
      refine ⟨?_, fun ns hns ↦ by cases hns⟩
      have hrestored : ∀ name, ((RecordView.of k values).value name).IsRestored := by
        intro name
        have hvalue : (RecordView.of k values).value name = .null ∨
            (RecordView.of k values).value name ∈ values := RecordView.value_of name
        rcases hvalue with hnull | hmem
        · rw [hnull]
          exact ⟨rfl, fun ns hns ↦ by cases hns⟩
        · exact ih _ hmem (hvalues _ hmem)
      have hview : ofDatum (.node k values) = (RecordView.of k values).node := by
        rw [ofDatum]
        rfl
      rw [hview, RecordView.toDatum_node hk]
      exact congrArg (Datum.node k) (RecordView.restore_written hk hlength hrestored)
    all_goals exact ⟨rfl, fun ns hns ↦ by cases hns⟩

/-- A record with a value for each field is written for the tree that is read from it. -/
theorem toDatum_ofDatum {d : Datum} (h : d.isWhole = true) : (ofDatum d).toDatum = d :=
  (isRestored h).node

end Node

end Typeset

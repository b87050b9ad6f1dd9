import Typeset.Proofs.Tree.Records

/-!
# Reading trees from their records

A record of a well-typed tree holds values of the declared types, so each part of the tree is read
from its field as it was.
-/

namespace Typeset

/-! ## What values are read as -/

namespace Datum

/-- The text that a value is, empty for any other value. -/
def asText : Datum → String
  | .str s => s
  | _ => ""

/-- The text that a value is, if it is not null, empty for any other value. -/
def asText? : Datum → Option String
  | .null => none
  | .str s => some s
  | _ => some ""

/-- The texts that a value holds. -/
def asTexts : Datum → List String
  | .seq items => items.filterMap fun
    | .str s => some s
    | _ => none
  | _ => []

/-- The zone that a value is. -/
def asZone? : Datum → Option Zone
  | .zone z => some z
  | _ => none

/-- The entries that a value has. -/
def asEntries : Datum → Attributes
  | .mapping ms => ms
  | _ => []

@[simp] theorem asText_str (s : String) : asText (.str s) = s := rfl

@[simp] theorem asText?_ofText? (s : Option String) : asText? (.ofText? s) = s := by
  cases s <;> rfl

@[simp] theorem number?_ofNumber? (n : Option Int) : number? (.ofNumber? n) = n := by
  cases n <;> rfl

@[simp] theorem number?_int (n : Int) : number? (.int n) = some n := rfl

@[simp] theorem asTexts_ofTexts (ts : List String) : asTexts (.ofTexts ts) = ts := by
  induction ts with
  | nil => rfl
  | cons t ts ih => exact congrArg (t :: ·) ih

@[simp] theorem asZone?_getD (z : Option Zone) : asZone? ((z.map zone).getD .null) = z := by
  cases z <;> rfl

@[simp] theorem asEntries_mapping (e : Entries) : asEntries (.mapping e) = e := rfl

end Datum

namespace RecordView

variable (v : RecordView) (name : String)

theorem text_eq : v.text name = (v.value name).asText := rfl

theorem text?_eq : v.text? name = (v.value name).asText? := rfl

theorem texts_eq : v.texts name = (v.value name).asTexts := rfl

theorem zone?_eq : v.zone? name = (v.value name).asZone? := rfl

theorem attributes_eq : v.attributes name = (v.value name).asEntries := rfl

end RecordView

namespace FieldType

@[simp] theorem fits_origin (d : Datum) : origin.fits d = true := rfl

@[simp] theorem fits_text (s : String) : text.fits (.str s) = true := rfl

@[simp] theorem fits_flag (b : Bool) : flag.fits (.bool b) = true := rfl

@[simp] theorem fits_number (n : Int) : number.fits (.int n) = true := rfl

@[simp] theorem fits_mapping (e : Entries) : mapping.fits (.mapping e) = true := rfl

@[simp] theorem fits_optionalText (s : Option String) : optionalText.fits (.ofText? s) = true := by
  cases s <;> rfl

@[simp] theorem fits_optionalNumber (n : Option Int) :
    optionalNumber.fits (.ofNumber? n) = true := by
  cases n <;> rfl

@[simp] theorem fits_zone (z : Option Zone) :
    zone.fits ((z.map Datum.zone).getD .null) = true := by
  cases z <;> rfl

@[simp] theorem fits_texts (ts : List String) : texts.fits (.ofTexts ts) = true := by
  simp [fits, Datum.ofTexts, isText]

end FieldType

/-! ## Words of declared literals -/

namespace ListKind

theorem ofName_name {k : ListKind} (h : (Element.plainList k).isWellTyped = true) :
    ofName k.name = k := by
  cases k
  case undeclared => exact absurd h Bool.false_ne_true
  all_goals rfl

end ListKind

namespace RowKind

theorem ofName_name {k : RowKind} (h : (Element.tableRow k).isWellTyped = true) :
    ofName k.name = k := by
  cases k
  case undeclared => exact absurd h Bool.false_ne_true
  all_goals rfl

end RowKind

namespace Checkbox

theorem ofName_name {c : Option Checkbox} {n : Option Int}
    (h : (Element.item c n).isWellTyped = true) : c.map (ofName ∘ name) = c := by
  cases c with
  | none => rfl
  | some c =>
    cases c
    case undeclared => exact absurd h Bool.false_ne_true
    all_goals rfl

end Checkbox

namespace Numbering

theorem ofName_name {b : CodeBlock} (h : (Element.codeBlock b).isWellTyped = true) :
    b.numbering.map (ofName ∘ name) = b.numbering := by
  cases hn : b.numbering with
  | none => rfl
  | some n =>
    cases n
    case undeclared => exact absurd h (by simp [Element.isWellTyped, hn])
    all_goals rfl

end Numbering

/-! ## Views of parts -/

namespace Node

@[simp] theorem ofData_eq (ds : List Datum) : ofData ds = ds.map ofDatum := by
  induction ds with
  | nil => rfl
  | cons d ds ih => rw [ofData, ih, List.map_cons]

theorem readings_nil : readings [] = [] := rfl

theorem readings_cons (d : Datum) (ds : List Datum) :
    readings (d :: ds) = ⟨d, nodesIn? d⟩ :: readings ds := rfl

end Node

namespace RecordView

/-- The view of the values of a node. -/
def ofParts (i : NodeInfo) (children title tag caption : Datum) : RecordView :=
  ⟨i.element.kind, i.element.kind.fieldNames.zip
    (Node.readings (i.sharedValues caption ++ i.element.values children title tag))⟩

theorem node_ofParts {i : NodeInfo} (h : i.isWellTyped = true) {children title : List Node}
    {tag caption : Option (List Node)} {c t g p : Datum}
    (hc : Node.nodesIn? c = some children) (hc' : FieldType.nodes.fits c = true)
    (ht : Node.nodesIn? t = some title) (ht' : FieldType.nodes.fits t = true)
    (hg : Node.nodesIn? g = tag) (hg' : FieldType.optionalNodes.fits g = true)
    (hp : Node.nodesIn? p = caption) (hp' : FieldType.optionalNodes.fits p = true)
    (hchildren : i.element.kind.content .children = .nothing → children = [])
    (htitle : i.element.kind.content .title = .nothing → title = [])
    (htag : i.element.kind.content .tag = .nothing → tag = none)
    (hcaption : i.element.kind.content .caption = .nothing → caption = none) :
    (ofParts i c t g p).node = ⟨i, children, title, tag, caption⟩ := by
  obtain ⟨origin, postBlank, name, attributes, element, loose⟩ := i
  have helement : element.isWellTyped = true := NodeInfo.isWellTyped_element h
  simp only [NodeInfo.isWellTyped, NodeInfo.isProper, Bool.and_eq_true, Bool.or_eq_true,
    List.isEmpty_iff, Option.isNone_iff_eq_none] at h
  obtain ⟨⟨⟨⟨⟨hloose, -⟩, horigin⟩, -⟩, hblock⟩, -⟩ := h
  subst hloose
  cases origin with
  | other d => exact absurd horigin Bool.false_ne_true
  | position q =>
    have horigin' : Origin.ofDatum (Origin.position q).toDatum = .position q := by
      obtain ⟨line, column, file⟩ := q
      cases file <;> rfl
    cases element
    case bareNode => exact absurd helement (by decide)
    case bareBlock => exact absurd helement (by decide)
    case bareInline => exact absurd helement (by decide)
    case foreign d => exact absurd helement Bool.false_ne_true
    -- by the kind of the element, what it lacks and what stands under each of its names
    all_goals
      simp [Kind.content, Kind.childContent, Element.kind, Kind.isBlock]
        at hchildren htitle htag hcaption hblock
      simp [node, info, loose, ofParts, NodeInfo.sharedValues, Element.values, Element.kind,
        Kind.isBlock, Kind.fieldNames, Kind.fields, Kind.sharedFields, Kind.ownFields,
        Kind.locationField, Kind.blankField, Kind.children, Kind.optionalChildren, Field.optional,
        Field.required, Field.mapping, Node.readings_cons, Node.readings_nil, value, nodes, nodes?,
        element, number, flag, text_eq, text?_eq, texts_eq, zone?_eq, attributes_eq,
        List.lookup_cons, Datum.isTrue, ListKind.ofName_name, RowKind.ofName_name,
        Numbering.ofName_name, *]
    exact Checkbox.ofName_name helement

end RecordView

namespace Node

theorem nodesIn?_seq (ds : List Datum) : nodesIn? (.seq ds) = some (ds.map ofDatum) := by
  rw [nodesIn?, ofData_eq]

theorem nodesIn?_toDatum? {ns : Option (List Node)}
    (h : nodesIn? (.seq (toData (ns.getD []))) = some (ns.getD [])) :
    nodesIn? (toDatum? ns) = ns := by
  cases ns with
  | none => rfl
  | some ns => exact h

/-- A well-typed tree is read from its record as it is. -/
theorem ofDatum_toDatum {n : Node} (h : n.isWellTyped = true) : ofDatum n.toDatum = n := by
  induction n using Node.induction with
  | step n ih =>
    have hbelow : ∀ b, (n.branch b).map (ofDatum ∘ toDatum) = n.branch b := by
      intro b
      refine (List.map_congr_left fun m hm ↦ ?_).trans (List.map_id _)
      exact ih b m hm (isWellTyped_of_mem_branch h hm).2
    have hseq : ∀ b, nodesIn? (.seq (toData (n.branch b))) = some (n.branch b) := by
      intro b
      rw [nodesIn?_seq, toData_eq, List.map_map, hbelow b]
    have hnil : ∀ b, n.kind.content b = .nothing → n.branch b = [] := by
      intro b hb
      refine List.eq_nil_iff_forall_not_mem.mpr fun m hm ↦ ?_
      have hadmits := (isWellTyped_of_mem_branch h hm).1
      rw [hb] at hadmits
      exact absurd hadmits Bool.false_ne_true
    obtain ⟨hinfo, -, htag, hcaption⟩ := (isWellTyped_iff n).mp h
    rw [toDatum_eq (isProper_of_isWellTyped h), ofDatum]
    refine Eq.trans (b := ⟨n.info, n.children, n.title, n.tag, n.caption⟩) ?_
      (by obtain ⟨info, children, title, tag, caption⟩ := n; rfl)
    refine RecordView.node_ofParts hinfo (hseq .children) rfl (hseq .title) rfl ?_ ?_ ?_ ?_
      (hnil .children) (hnil .title) ?_ ?_
    · exact nodesIn?_toDatum? (hseq .tag)
    · cases n.tag <;> rfl
    · exact nodesIn?_toDatum? (hseq .caption)
    · cases n.caption <;> rfl
    · intro hnone
      cases ht : n.tag with
      | none => rfl
      | some ns => exact absurd hnone (htag (by rw [ht]; rfl))
    · intro hnone
      cases hc : n.caption with
      | none => rfl
      | some ns => exact absurd hnone (hcaption (by rw [hc]; rfl))

end Node

end Typeset

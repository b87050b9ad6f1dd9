import Typeset.Proofs.Json.RoundTrip
import Typeset.Proofs.Tree.WellTyped

/-!
# Trees up to the order of their mappings

Attributes and properties are maps, but a tree keeps the order in which they were written. Two trees
are alike if they differ in such orders only, and `Node.inOrder` is the tree alike with all entries
in the order of their names.
-/

namespace Typeset

/-! ## Entries -/

namespace Entries

/-- The entries are the same as maps. -/
def Alike (e f : Entries) : Prop := ∀ name, e.lookup name = f.lookup name

/-- The entries in the order of their names. -/
def inOrder (e : Entries) : Entries := Json.sortedMembers e

theorem areTexts_iff (e : Entries) :
    e.areTexts = true ↔ (e.map (·.1)).Nodup ∧ ∀ m ∈ e, m.2.text?.isSome = true := by
  simp [areTexts]

theorem exists_str_of_lookup {e : Entries} {name : String} {j : Json}
    (h : ∀ m ∈ e, m.2.text?.isSome = true) (hlookup : e.lookup name = some j) : ∃ t, j = .str t := by
  have htext := h _ (Assoc.mem_of_lookup hlookup)
  cases j with
  | str t => exact ⟨t, rfl⟩
  | _ => cases htext

theorem trueLoose?_eq_none {e : Entries} (h : ∀ m ∈ e, m.2.text?.isSome = true) (name : String) :
    e.trueLoose? name = none := by
  unfold trueLoose? true?
  cases hlookup : e.lookup name with
  | none => rfl
  | some j =>
    obtain ⟨t, rfl⟩ := exists_str_of_lookup h hlookup
    cases htrue : (Json.str t).isTrue <;> simp [Option.filter, htrue]

/-- Texts are entered as they are. -/
theorem perm_inOrder {e : Entries} (h : e.areTexts = true) : e.inOrder.Perm e := by
  have hmap : e.map (fun m ↦ (m.1, m.2.sorted)) = e := by
    refine (List.map_congr_left fun m hm ↦ ?_).trans (List.map_id e)
    obtain ⟨name, value⟩ := m
    have := ((areTexts_iff e).mp h).2 _ hm
    cases value <;> simp_all [Json.text?, Json.sorted]
  have hperm := Json.perm_sortedMembers e
  rwa [hmap] at hperm

theorem areTexts_inOrder {e : Entries} (h : e.areTexts = true) : e.inOrder.areTexts = true := by
  have hperm := perm_inOrder h
  obtain ⟨hnames, htexts⟩ := (areTexts_iff e).mp h
  refine (areTexts_iff _).mpr ⟨((hperm.map _).nodup_iff).mpr hnames, fun m hm ↦ ?_⟩
  exact htexts m (hperm.mem_iff.mp hm)

theorem inOrder_alike {e : Entries} (h : e.areTexts = true) : e.inOrder.Alike e := by
  intro name
  exact Assoc.lookup_of_perm (perm_inOrder h) ((areTexts_iff e).mp h).1 name

/-- Texts that are the same as maps come into one order. -/
theorem inOrder_of_alike {e f : Entries} (he : e.areTexts = true) (hf : f.areTexts = true)
    (h : e.Alike f) : e.inOrder = f.inOrder := by
  have hnames := ((areTexts_iff e).mp he).1
  exact Json.sortedMembers_of_perm
    (Assoc.perm_of_lookup hnames ((areTexts_iff f).mp hf).1 h) hnames

end Entries

/-! ## Elements -/

namespace Element

/-- The elements are equal, but for the order of their entries. -/
def Alike : Element → Element → Prop
  | .document e, .document f => e.Alike f
  | .image path e, .image path' f => path = path' ∧ e.Alike f
  | e, f => e = f

/-- The element with its entries in order. -/
def inOrder : Element → Element
  | .document e => .document e.inOrder
  | .image path e => .image path e.inOrder
  | e => e

@[simp] theorem kind_inOrder (e : Element) : e.inOrder.kind = e.kind := by
  cases e <;> rfl

theorem isWellTyped_inOrder {e : Element} (h : e.isWellTyped = true) :
    e.inOrder.isWellTyped = true := by
  cases e
  case document e => exact Entries.areTexts_inOrder h
  case image path e => exact Entries.areTexts_inOrder h
  all_goals exact h

theorem inOrder_alike {e : Element} (h : e.isWellTyped = true) : e.inOrder.Alike e := by
  cases e
  case document e => exact Entries.inOrder_alike h
  case image path e => exact ⟨rfl, Entries.inOrder_alike h⟩
  all_goals exact rfl

theorem inOrder_of_alike {e f : Element} (he : e.isWellTyped = true) (hf : f.isWellTyped = true)
    (h : e.Alike f) : e.inOrder = f.inOrder := by
  unfold Alike at h
  split at h
  · exact congrArg document (Entries.inOrder_of_alike he hf h)
  · obtain ⟨rfl, h⟩ := h
    exact congrArg (image _) (Entries.inOrder_of_alike he hf h)
  · rw [h]

end Element

/-! ## Nodes -/

namespace NodeInfo

/-- The nodes hold the same values, but for the order of their entries. -/
structure Alike (i j : NodeInfo) : Prop where
  origin : i.origin = j.origin
  postBlank : i.postBlank = j.postBlank
  name : i.name = j.name
  attributes : i.attributes.Alike j.attributes
  element : i.element.Alike j.element
  loose : i.loose = j.loose

/-- The values with all entries in order. -/
def inOrder (i : NodeInfo) : NodeInfo :=
  ⟨i.origin, i.postBlank, i.name, i.attributes.inOrder, i.element.inOrder, i.loose⟩

theorem areTexts_attributes {i : NodeInfo} (h : i.isWellTyped = true) :
    i.attributes.areTexts = true := by
  simp only [isWellTyped, Bool.and_eq_true] at h
  exact h.1.1.2

theorem isWellTyped_element {i : NodeInfo} (h : i.isWellTyped = true) :
    i.element.isWellTyped = true := by
  simp only [isWellTyped, Bool.and_eq_true] at h
  exact h.2

theorem isWellTyped_inOrder {i : NodeInfo} (h : i.isWellTyped = true) :
    i.inOrder.isWellTyped = true := by
  have hattributes := Entries.areTexts_inOrder (areTexts_attributes h)
  have helement := Element.isWellTyped_inOrder (isWellTyped_element h)
  have hempty : i.attributes = [] → i.attributes.inOrder = [] := by
    intro he
    rw [he]
    rfl
  simp only [isWellTyped, isProper, Bool.and_eq_true, Bool.or_eq_true, List.isEmpty_iff] at h ⊢
  obtain ⟨⟨⟨⟨⟨hloose, hforeign⟩, horigin⟩, -⟩, hblock⟩, -⟩ := h
  refine ⟨⟨⟨⟨⟨hloose, ?_⟩, horigin⟩, hattributes⟩, ?_⟩, helement⟩
  · obtain ⟨origin, postBlank, name, attributes, element, loose⟩ := i
    cases element <;> exact hforeign
  · rcases hblock with hblock | ⟨hname, hattr⟩
    · exact .inl ((Element.kind_inOrder _).symm ▸ hblock)
    · exact .inr ⟨hname, hempty hattr⟩

end NodeInfo

namespace Node

mutual

/-- The trees are equal, but for the order of entries. -/
def Alike : Node → Node → Prop
  | ⟨info, children, title, tag, caption⟩, n =>
    info.Alike n.info ∧ AllAlike children n.children ∧ AllAlike title n.title ∧
      AllAlike? tag n.tag ∧ AllAlike? caption n.caption
termination_by structural n => n

/-- Trees are alike one by one. -/
def AllAlike : List Node → List Node → Prop
  | [], [] => True
  | m :: ms, n :: ns => m.Alike n ∧ AllAlike ms ns
  | _, _ => False
termination_by structural ns => ns

/-- Two branches are both missing or alike. -/
def AllAlike? : Option (List Node) → Option (List Node) → Prop
  | none, none => True
  | some ms, some ns => AllAlike ms ns
  | _, _ => False
termination_by structural ns => ns

end

mutual

/-- The tree with all entries in the order of their names. -/
def inOrder : Node → Node
  | ⟨info, children, title, tag, caption⟩ =>
    ⟨info.inOrder, allInOrder children, allInOrder title, allInOrder? tag, allInOrder? caption⟩
termination_by structural n => n

/-- Trees, each in order. -/
def allInOrder : List Node → List Node
  | [] => []
  | n :: ns => n.inOrder :: allInOrder ns
termination_by structural ns => ns

/-- The trees of a branch that may be missing, each in order. -/
def allInOrder? : Option (List Node) → Option (List Node)
  | none => none
  | some ns => some (allInOrder ns)
termination_by structural ns => ns

end

@[simp] theorem allInOrder_eq (ns : List Node) : allInOrder ns = ns.map inOrder := by
  induction ns with
  | nil => rfl
  | cons n ns ih => rw [allInOrder, ih, List.map_cons]

@[simp] theorem allInOrder?_eq (ns : Option (List Node)) :
    allInOrder? ns = ns.map (List.map inOrder) := by
  cases ns <;> simp [allInOrder?]

theorem inOrder_eq (n : Node) : n.inOrder = ⟨n.info.inOrder, n.children.map inOrder,
    n.title.map inOrder, n.tag.map (List.map inOrder), n.caption.map (List.map inOrder)⟩ := by
  obtain ⟨info, children, title, tag, caption⟩ := n
  simp [inOrder]

@[simp] theorem kind_inOrder (n : Node) : n.inOrder.kind = n.kind := by
  rw [inOrder_eq]
  exact Element.kind_inOrder _

@[simp] theorem branch_inOrder (n : Node) (b : Branch) :
    n.inOrder.branch b = (n.branch b).map inOrder := by
  rw [inOrder_eq]
  cases b with
  | children => rfl
  | title => rfl
  | tag => cases h : n.tag <;> simp [h]
  | caption => cases h : n.caption <;> simp [h]

theorem isWellTyped_inOrder {n : Node} (h : n.isWellTyped = true) :
    n.inOrder.isWellTyped = true := by
  induction n using Node.induction with
  | step n ih =>
    obtain ⟨hinfo, hbelow, htag, hcaption⟩ := (isWellTyped_iff n).mp h
    refine (isWellTyped_iff _).mpr ⟨?_, ?_, ?_, ?_⟩
    · rw [inOrder_eq]
      exact NodeInfo.isWellTyped_inOrder hinfo
    · intro b m hm
      rw [branch_inOrder] at hm
      obtain ⟨k, hk, rfl⟩ := List.mem_map.mp hm
      obtain ⟨hadmits, hwell⟩ := hbelow b k hk
      rw [kind_inOrder, kind_inOrder]
      exact ⟨hadmits, ih b k hk hwell⟩
    · rw [kind_inOrder, inOrder_eq]
      simpa using htag
    · rw [kind_inOrder, inOrder_eq]
      simpa using hcaption

theorem allAlike_map {f : Node → Node} {ns : List Node} (h : ∀ n ∈ ns, (f n).Alike n) :
    AllAlike (ns.map f) ns := by
  induction ns with
  | nil => trivial
  | cons n ns ih => exact ⟨h n List.mem_cons_self, ih fun m hm ↦ h m (.tail _ hm)⟩

theorem allAlike?_map {f : Node → Node} {ns : Option (List Node)}
    (h : ∀ n ∈ ns.getD [], (f n).Alike n) : AllAlike? (ns.map (List.map f)) ns := by
  cases ns with
  | none => trivial
  | some ns => exact allAlike_map h

/-- A well-typed tree is alike to itself in order. -/
theorem inOrder_alike {n : Node} (h : n.isWellTyped = true) : n.inOrder.Alike n := by
  induction n using Node.induction with
  | step n ih =>
    have hbelow : ∀ b, ∀ m ∈ n.branch b, m.inOrder.Alike m :=
      fun b m hm ↦ ih b m hm (isWellTyped_of_mem_branch h hm).2
    have hinfo := info_isWellTyped h
    rw [inOrder_eq, Alike]
    refine ⟨⟨rfl, rfl, rfl, ?_, ?_, rfl⟩, ?_, ?_, ?_, ?_⟩
    · exact Entries.inOrder_alike (NodeInfo.areTexts_attributes hinfo)
    · exact Element.inOrder_alike (NodeInfo.isWellTyped_element hinfo)
    · exact allAlike_map (hbelow .children)
    · exact allAlike_map (hbelow .title)
    · exact allAlike?_map (hbelow .tag)
    · exact allAlike?_map (hbelow .caption)

theorem map_inOrder_of_alike {ms ns : List Node} (h : AllAlike ms ns)
    (hm : ∀ m ∈ ms, ∀ n ∈ ns, m.Alike n → m.inOrder = n.inOrder) :
    ms.map inOrder = ns.map inOrder := by
  induction ms generalizing ns with
  | nil =>
    cases ns with
    | nil => rfl
    | cons n ns => exact h.elim
  | cons m ms ih =>
    cases ns with
    | nil => exact h.elim
    | cons n ns =>
      rw [List.map_cons, List.map_cons, hm m List.mem_cons_self n List.mem_cons_self h.1,
        ih h.2 fun m hm' n hn ↦ hm m (.tail _ hm') n (.tail _ hn)]

theorem map_inOrder_of_alike? {ms ns : Option (List Node)} (h : AllAlike? ms ns)
    (hm : ∀ m ∈ ms.getD [], ∀ n ∈ ns.getD [], m.Alike n → m.inOrder = n.inOrder) :
    ms.map (List.map inOrder) = ns.map (List.map inOrder) := by
  cases ms <;> cases ns
  · rfl
  · exact h.elim
  · exact h.elim
  · exact congrArg some (map_inOrder_of_alike h hm)

/-- Trees that are alike come into one order. -/
theorem inOrder_of_alike {m n : Node} (hm : m.isWellTyped = true) (hn : n.isWellTyped = true)
    (h : m.Alike n) : m.inOrder = n.inOrder := by
  induction m using Node.induction generalizing n with
  | step m ih =>
    have hbelow : ∀ b, ∀ k ∈ m.branch b, ∀ l ∈ n.branch b, k.Alike l → k.inOrder = l.inOrder :=
      fun b k hk l hl hkl ↦
        ih b k hk (isWellTyped_of_mem_branch hm hk).2 (isWellTyped_of_mem_branch hn hl).2 hkl
    obtain ⟨hinfo, hchildren, htitle, htag, hcaption⟩ :
        m.info.Alike n.info ∧ AllAlike m.children n.children ∧ AllAlike m.title n.title ∧
          AllAlike? m.tag n.tag ∧ AllAlike? m.caption n.caption := by
      obtain ⟨info, children, title, tag, caption⟩ := m
      exact h
    have horder : m.info.inOrder = n.info.inOrder := by
      have hi := info_isWellTyped hm
      have hj := info_isWellTyped hn
      rw [NodeInfo.inOrder, NodeInfo.inOrder, hinfo.origin, hinfo.postBlank, hinfo.name,
        hinfo.loose, Entries.inOrder_of_alike (NodeInfo.areTexts_attributes hi)
          (NodeInfo.areTexts_attributes hj) hinfo.attributes,
        Element.inOrder_of_alike (NodeInfo.isWellTyped_element hi)
          (NodeInfo.isWellTyped_element hj) hinfo.element]
    rw [inOrder_eq, inOrder_eq, horder, map_inOrder_of_alike hchildren (hbelow .children),
      map_inOrder_of_alike htitle (hbelow .title), map_inOrder_of_alike? htag (hbelow .tag),
      map_inOrder_of_alike? hcaption (hbelow .caption)]

end Node

end Typeset

import Typeset.Proofs.Tree.Occurrences

/-!
# Well-typed trees

A tree is well-typed if every field of every node holds a value of the type that the kind of the
node declares: literals are declared ones, attributes and properties are texts by distinct names,
and the sequences below a node hold nodes of the kinds that may stand there. A tree is proper
already if no value in it is loose and none is foreign, whatever stands where.
-/

namespace Typeset

namespace Entries

/-- The entries are texts, and no name has two. -/
def areTexts (e : Entries) : Bool :=
  decide (e.map (·.1)).Nodup && e.all fun (_, value) ↦ value.text?.isSome

end Entries

/-- What a sequence of nodes may hold. -/
inductive Content where
  /-- There is no such sequence. -/
  | nothing
  | blocks
  | inlines
  | items
  | rows
  | cells
deriving DecidableEq, Repr

namespace Content

/-- Nodes of a kind may stand in a sequence. -/
def admits : Content → Kind → Bool
  | .nothing, _ => false
  | .blocks, k => k.isBlock && Kind.registered.contains k
  | .inlines, k => !k.isBlock && Kind.registered.contains k
  | .items, k => k == .item
  | .rows, k => k == .tableRow
  | .cells, k => k == .tableCell

end Content

namespace Kind

/-- What the children of a node are, by its kind. -/
def childContent : Kind → Content
  | .document | .heading | .item | .quoteBlock | .specialBlock | .footnoteDefinition => .blocks
  | .paragraph | .tableCell | .bold | .italic | .underline | .strikeThrough | .link
  | .footnoteReference | .subscript | .superscript | .mathRun | .radioTarget => .inlines
  | .plainList => .items
  | .table => .rows
  | .tableRow => .cells
  | _ => .nothing

/-- What a sequence below a node may hold, by the kind of the node. -/
def content (k : Kind) : Branch → Content
  | .children => k.childContent
  | .title => if k = .heading then .inlines else .nothing
  | .tag => if k = .item then .inlines else .nothing
  | .caption => if k.isBlock then .inlines else .nothing

end Kind

namespace Element

/-- The values peculiar to a node are of their declared types. -/
def isWellTyped : Element → Bool
  | .document properties => properties.areTexts
  | .plainList (.undeclared _) => false
  | .item (some (.undeclared _)) _ => false
  | .tableRow (.undeclared _) => false
  | .codeBlock b =>
    match b.numbering with
    | some (.undeclared _) => false
    | _ => true
  | .image _ attributes => attributes.areTexts
  | .bareNode | .bareBlock | .bareInline | .foreign _ => false
  | _ => true

end Element

namespace NodeInfo

/-- No value is loose, and the node is a value of a node type. -/
def isProper (i : NodeInfo) : Bool :=
  i.loose.isEmpty && match i.element with
    | .foreign _ => false
    | _ => true

/-- All values besides other nodes are of their declared types. -/
def isWellTyped (i : NodeInfo) : Bool :=
  i.isProper && (match i.origin with
    | .position _ => true
    | .other _ => false) &&
    i.attributes.areTexts && (i.element.kind.isBlock || (i.name.isNone && i.attributes.isEmpty)) &&
    i.element.isWellTyped

end NodeInfo

namespace Node

mutual

/-- No value in the tree is of another type than declared, and none is foreign. -/
def isProper : Node → Bool
  | ⟨info, children, title, tag, caption⟩ =>
    info.isProper && areProper children && areProper title && areProper? tag && areProper? caption
termination_by structural n => n

/-- All trees are proper. -/
def areProper : List Node → Bool
  | [] => true
  | n :: ns => n.isProper && areProper ns
termination_by structural ns => ns

/-- All trees of a branch that may be missing are proper. -/
def areProper? : Option (List Node) → Bool
  | none => true
  | some ns => areProper ns
termination_by structural ns => ns

end

mutual

/-- Every value in the tree is of its declared type. -/
def isWellTyped : Node → Bool
  | ⟨info, children, title, tag, caption⟩ =>
    info.isWellTyped && areWellTyped (info.element.kind.content .children) children &&
      areWellTyped (info.element.kind.content .title) title &&
      areWellTyped? (info.element.kind.content .tag) tag &&
      areWellTyped? (info.element.kind.content .caption) caption
termination_by structural n => n

/-- The trees are well-typed and may stand in a sequence. -/
def areWellTyped (c : Content) : List Node → Bool
  | [] => true
  | n :: ns => c.admits n.info.element.kind && n.isWellTyped && areWellTyped c ns
termination_by structural ns => ns

/-- The trees of a branch that may be missing are well-typed and may stand there. -/
def areWellTyped? (c : Content) : Option (List Node) → Bool
  | none => true
  | some ns => c != .nothing && areWellTyped c ns
termination_by structural ns => ns

end

/-! ## Proper trees -/

theorem areProper_iff (ns : List Node) :
    areProper ns = true ↔ ∀ n ∈ ns, n.isProper = true := by
  induction ns with
  | nil => simp [areProper]
  | cons n ns ih => simp [areProper, ih]

theorem areProper?_iff (ns : Option (List Node)) :
    areProper? ns = true ↔ ∀ n ∈ ns.getD [], n.isProper = true := by
  cases ns <;> simp [areProper?, areProper_iff]

/-- A tree is proper if its root and all trees one step below are. -/
theorem isProper_iff (n : Node) :
    n.isProper = true ↔ n.info.isProper = true ∧ ∀ b, ∀ m ∈ n.branch b, m.isProper = true := by
  obtain ⟨info, children, title, tag, caption⟩ := n
  simp only [isProper, Bool.and_eq_true, areProper_iff, areProper?_iff]
  constructor
  · rintro ⟨⟨⟨⟨hi, hc⟩, ht⟩, hg⟩, hp⟩
    refine ⟨hi, fun b ↦ ?_⟩
    cases b <;> assumption
  · rintro ⟨hi, h⟩
    exact ⟨⟨⟨⟨hi, h .children⟩, h .title⟩, h .tag⟩, h .caption⟩

/-- Every occurrence of a proper tree is proper. -/
theorem isProper_of_mem_occurrences {n : Node} {p : Place} {o : Occurrence}
    (h : n.isProper = true) (ho : o ∈ n.occurrences p) : o.node.isProper = true := by
  refine forall_of_passes_down (P := fun o ↦ o.node.isProper = true) ?_ h ho
  exact fun o b i m hm hproper ↦ ((isProper_iff o.node).mp hproper).2 b m (List.mem_of_getElem? hm)

theorem loose_eq_nil {n : Node} (h : n.isProper = true) : n.info.loose = [] := by
  have hinfo := ((isProper_iff n).mp h).1
  simp only [NodeInfo.isProper, Bool.and_eq_true, List.isEmpty_iff] at hinfo
  exact hinfo.1

@[simp] theorem loose?_eq_none {n : Node} (h : n.isProper = true) (field : String) :
    n.loose? field = none := by
  simp [loose?, NodeInfo.loose?, loose_eq_nil h]

theorem isLooselyTrue_eq_false {n : Node} (h : n.isProper = true) (field : String) :
    n.isLooselyTrue field = false := by
  simp [isLooselyTrue, loose?_eq_none h]

theorem element_ne_foreign {n : Node} (h : n.isProper = true) (d : Datum) :
    n.element ≠ .foreign d := by
  intro he
  have := ((isProper_iff n).mp h).1
  simp only [NodeInfo.isProper, Bool.and_eq_true] at this
  rw [show n.info.element = .foreign d from he] at this
  exact absurd this.2 (by simp)

/-! ## Well-typed trees -/

theorem areWellTyped_iff (c : Content) (ns : List Node) :
    areWellTyped c ns = true ↔
      ∀ n ∈ ns, c.admits n.kind = true ∧ n.isWellTyped = true := by
  induction ns with
  | nil => simp [areWellTyped]
  | cons n ns ih => simp [areWellTyped, ih]

theorem areWellTyped?_iff (c : Content) (ns : Option (List Node)) :
    areWellTyped? c ns = true ↔ (ns.isSome = true → c ≠ .nothing) ∧
      ∀ n ∈ ns.getD [], c.admits n.kind = true ∧ n.isWellTyped = true := by
  cases ns <;> simp [areWellTyped?, areWellTyped_iff]

/-- What a well-typed tree holds one step below the root may stand there and is well-typed. -/
theorem isWellTyped_of_mem_branch {n m : Node} {b : Branch} (h : n.isWellTyped = true)
    (hm : m ∈ n.branch b) : (n.kind.content b).admits m.kind = true ∧ m.isWellTyped = true := by
  obtain ⟨info, children, title, tag, caption⟩ := n
  simp only [isWellTyped, Bool.and_eq_true, areWellTyped_iff, areWellTyped?_iff] at h
  obtain ⟨⟨⟨⟨_, hc⟩, ht⟩, _, hg⟩, _, hp⟩ := h
  cases b with
  | children => exact hc m hm
  | title => exact ht m hm
  | tag => exact hg m hm
  | caption => exact hp m hm

theorem info_isWellTyped {n : Node} (h : n.isWellTyped = true) : n.info.isWellTyped = true := by
  obtain ⟨info, children, title, tag, caption⟩ := n
  simp only [isWellTyped, Bool.and_eq_true] at h
  exact h.1.1.1.1

/-- A tree is well-typed if its root is, and what stands one step below may stand there. -/
theorem isWellTyped_iff (n : Node) :
    n.isWellTyped = true ↔ n.info.isWellTyped = true ∧
      (∀ b, ∀ m ∈ n.branch b, (n.kind.content b).admits m.kind = true ∧ m.isWellTyped = true) ∧
      (n.tag.isSome = true → n.kind.content .tag ≠ .nothing) ∧
      (n.caption.isSome = true → n.kind.content .caption ≠ .nothing) := by
  constructor
  · intro h
    refine ⟨info_isWellTyped h, fun b m ↦ isWellTyped_of_mem_branch h, ?_⟩
    obtain ⟨info, children, title, tag, caption⟩ := n
    simp only [isWellTyped, Bool.and_eq_true, areWellTyped?_iff] at h
    exact ⟨h.1.2.1, h.2.1⟩
  · rintro ⟨hinfo, hbelow, htag, hcaption⟩
    obtain ⟨info, children, title, tag, caption⟩ := n
    simp only [isWellTyped, Bool.and_eq_true, areWellTyped_iff, areWellTyped?_iff]
    exact ⟨⟨⟨⟨hinfo, hbelow .children⟩, hbelow .title⟩, htag, hbelow .tag⟩, hcaption,
      hbelow .caption⟩

/-- Inline objects hold no blocks, and only the children of a block can be blocks. -/
theorem isBlock_eq_false_of_mem_branch {n m : Node} {b : Branch} (h : n.isWellTyped = true)
    (hn : n.kind.isBlock = false ∨ b ≠ .children) (hm : m ∈ n.branch b) :
    m.kind.isBlock = false := by
  have hcontent : n.kind.content b = .inlines ∨ n.kind.content b = .nothing := by
    rcases hn with hn | hb
    · cases hk : n.kind <;> cases b <;>
        simp_all [Kind.isBlock, Kind.content, Kind.childContent]
    · cases b with
      | children => exact absurd rfl hb
      | title | tag | caption =>
        cases hk : n.kind <;> simp [Kind.content, Kind.isBlock]
  have hadmits := (isWellTyped_of_mem_branch h hm).1
  rcases hcontent with hc | hc
  · simp only [hc, Content.admits, Bool.and_eq_true, Bool.not_eq_true'] at hadmits
    exact hadmits.1
  · simp [hc, Content.admits] at hadmits

theorem isWellTyped_of_mem_occurrences {n : Node} {p : Place} {o : Occurrence}
    (h : n.isWellTyped = true) (ho : o ∈ n.occurrences p) : o.node.isWellTyped = true := by
  refine forall_of_passes_down (P := fun o ↦ o.node.isWellTyped = true) ?_ h ho
  exact fun o b i m hm htyped ↦ (isWellTyped_of_mem_branch htyped (List.mem_of_getElem? hm)).2

theorem isBlock_eq_false_of_mem_occurrences {n : Node} {p : Place} {o : Occurrence}
    (h : n.isWellTyped = true) (hn : n.kind.isBlock = false) (ho : o ∈ n.occurrences p) :
    o.node.kind.isBlock = false := by
  refine (forall_of_passes_down
    (P := fun o ↦ o.node.isWellTyped = true ∧ o.node.kind.isBlock = false) ?_ ⟨h, hn⟩ ho).2
  rintro o b i m hm ⟨htyped, hinline⟩
  have hmem := List.mem_of_getElem? hm
  exact ⟨(isWellTyped_of_mem_branch htyped hmem).2,
    isBlock_eq_false_of_mem_branch htyped (.inl hinline) hmem⟩

theorem zone_eq_body_of_isBlock_eq_false {n : Node} (h : n.kind.isBlock = false) :
    n.zone = .body := by
  unfold zone
  split
  · next g hg =>
    rw [kind, hg] at h
    cases h
  · rfl

theorem isProper_of_isWellTyped {n : Node} (h : n.isWellTyped = true) : n.isProper = true := by
  induction n using Node.induction with
  | step n ih =>
    refine (isProper_iff n).mpr ⟨?_, fun b m hm ↦ ih b m hm (isWellTyped_of_mem_branch h hm).2⟩
    have := info_isWellTyped h
    simp only [NodeInfo.isWellTyped, Bool.and_eq_true] at this
    exact this.1.1.1.1

end Node

end Typeset

import Typeset.Proofs.Render.Unkeyed

/-!
# Empty keys

A name, a custom id or a caption that is empty counts as none. A document from which some of them
are taken out is typeset as it is with them, unless a name goes that alone gives its node a label.
-/

namespace Typeset

open Node

/-! ## Losing keys -/

/-- The second element is the first one, or a heading without its empty custom id. -/
inductive Element.LosesKey : Element → Element → Prop
  | same (e : Element) : LosesKey e e
  | customId {h : Heading} (hid : h.customId = some "") :
    LosesKey (.heading h) (.heading { h with customId := none })

/-- The second tree is the first one without some of its empty names, custom ids and captions.
Names are only taken from the nodes that may lose them. -/
inductive Node.LosesKeys (mayLose : Node → Prop) : Node → Node → Prop
  | node {n n' : Node}
      (hname : n'.info.name = n.info.name ∨
        mayLose n ∧ n.info.name = some "" ∧ n'.info.name = none)
      (helement : n.element.LosesKey n'.element)
      (hinfo : n'.info = { n.info with name := n'.info.name, element := n'.element })
      (htag : n'.tag.isSome = n.tag.isSome)
      (hcaption : n'.caption.isSome = n.caption.isSome ∨ n.caption = some [] ∧ n'.caption = none)
      (hbelow : ∀ b, List.Forall₂ (LosesKeys mayLose) (n.branch b) (n'.branch b)) :
      LosesKeys mayLose n n'

namespace Element.LosesKey

variable {e e' : Element}

theorem kind (h : e.LosesKey e') : e'.kind = e.kind := by cases h <;> rfl

theorem isWellTyped_info {i : NodeInfo} {name : Option String} (h : i.element.LosesKey e')
    (hname : i.name = none → name = none) (hi : i.isWellTyped = true) :
    NodeInfo.isWellTyped { i with name, element := e' } = true := by
  obtain ⟨origin, postBlank, name', attributes, element, loose⟩ := i
  have hnone : name'.isNone = true → name.isNone = true := by
    simpa only [Option.isNone_iff_eq_none] using hname
  simp only [NodeInfo.isWellTyped, NodeInfo.isProper, Bool.and_eq_true, Bool.or_eq_true] at hi ⊢
  obtain ⟨⟨⟨hothers, hattributes⟩, hblock⟩, htyped⟩ := hi
  have hblock' := hblock.imp_right fun hb ↦ And.imp_left hnone hb
  cases h with
  | same => exact ⟨⟨⟨hothers, hattributes⟩, hblock'⟩, htyped⟩
  | customId => exact ⟨⟨⟨hothers, hattributes⟩, hblock'⟩, htyped⟩

theorem unkey (h : e.LosesKey e') : e'.unkey = e.unkey := by
  cases h with
  | same => rfl
  | customId hid => simp [Element.unkey, hid, Option.filter]

end Element.LosesKey

namespace Node.LosesKeys

variable {mayLose : Node → Prop} {n n' : Node}

/-- No key need be taken out. -/
theorem refl (n : Node) : n.LosesKeys mayLose n := by
  induction n using Node.induction with
  | step n ih =>
    refine .node (.inl rfl) (.same _) rfl rfl (.inl rfl) fun b ↦ ?_
    exact List.forall₂_same.mpr (ih b)

theorem kind (h : n.LosesKeys mayLose n') : n'.kind = n.kind := by
  obtain ⟨-, helement, -⟩ := h
  exact helement.kind

theorem isLooselyTrue (h : n.LosesKeys mayLose n') (field : String) :
    n'.isLooselyTrue field = n.isLooselyTrue field := by
  obtain ⟨-, -, hinfo, -⟩ := h
  rw [Node.isLooselyTrue, Node.isLooselyTrue, loose?, hinfo]
  rfl

theorem hasCaption (h : n.LosesKeys mayLose n') : n'.hasCaption = n.hasCaption := by
  rw [Node.hasCaption, Node.hasCaption, MathRun.isEmpty_getD, MathRun.isEmpty_getD,
    h.isLooselyTrue]
  obtain ⟨-, -, -, -, -, hbelow⟩ := h
  exact congrArg (!· || _) (isEmpty_of_forall₂ (hbelow .caption))

theorem hasName (h : n.LosesKeys mayLose n') : n'.hasName = n.hasName := by
  rw [Node.hasName, Node.hasName, h.isLooselyTrue]
  obtain ⟨heq | ⟨-, hempty, hnone⟩, -⟩ := h
  · rw [heq]
  · rw [hempty, hnone]
    rfl

/-- What is well-typed stays well-typed. -/
theorem isWellTyped (h : n.LosesKeys mayLose n') (hn : n.isWellTyped = true) :
    n'.isWellTyped = true := by
  induction n using Node.induction generalizing n' with
  | step n ih =>
    obtain ⟨hinfo, hbelow, htag, hcaption⟩ := (isWellTyped_iff n).mp hn
    have hkind := h.kind
    obtain ⟨hname, helement, hlost, htagged, hcaptioned, hbranches⟩ := h
    refine (isWellTyped_iff n').mpr ⟨?_, fun b ↦ ?_, ?_, ?_⟩
    · rw [hlost]
      refine helement.isWellTyped_info (fun hnone ↦ ?_) hinfo
      rcases hname with heq | ⟨-, -, hlost⟩
      · exact heq.trans hnone
      · exact hlost
    · refine forall_mem_of_forall₂ (hbranches b) fun m hm m' hlost ↦ ?_
      obtain ⟨hadmits, htyped⟩ := hbelow b m hm
      rw [hkind, hlost.kind]
      exact ⟨hadmits, ih b m hm hlost htyped⟩
    · rw [hkind, htagged]
      exact htag
    · rw [hkind]
      intro hsome
      rcases hcaptioned with heq | ⟨-, hnone⟩
      · exact hcaption (heq ▸ hsome)
      · rw [hnone] at hsome
        cases hsome

end Node.LosesKeys

/-! ## What is left without empty keys -/

/-- The name of a node is not all that gives it a label. -/
def Node.MayLoseName (n : Node) : Prop := n.hasCaption = true ∨ n.kind ∉ Node.labelledKinds

namespace Node

variable {n n' : Node}

/-- A figure with an empty name has a caption. -/
theorem MayLoseName.sparesName (h : n.MayLoseName) (hname : n.hasName = false) :
    n.sparesName = true := by
  rw [Node.sparesName, Bool.or_eq_true, Bool.not_eq_true', Bool.or_eq_false_iff]
  rcases hcaption : n.hasCaption with _ | _
  · rcases h with h | h
    · exact absurd h (by rw [hcaption]; exact Bool.false_ne_true)
    · refine .inr ⟨?_, Bool.eq_false_iff.mpr fun hmem ↦ h (List.contains_iff_mem.mp hmem)⟩
      rw [isFigure, hcaption, hname, Bool.or_false, Bool.and_false, Bool.false_and]
  · exact .inl rfl

namespace LosesKeys

/-- Whether a label depends on the name of a node stays the same. -/
theorem sparesName (h : n.LosesKeys MayLoseName n')
    (hchildren : n'.children.map Node.unkey = n.children.map Node.unkey) :
    n'.sparesName = n.sparesName := by
  have hfigure : n'.isFigure = n.isFigure := by
    rw [Node.isFigure, Node.isFigure, h.kind, h.hasCaption, h.hasName,
      MathRun.isSome_standaloneImage?, MathRun.isSome_standaloneImage?,
      ← any_isImage_sole?_unkey n'.children, hchildren, any_isImage_sole?_unkey]
  rw [Node.sparesName, Node.sparesName, h.hasCaption, hfigure, h.kind]

theorem name_unkey (h : n.LosesKeys MayLoseName n') (hn : n.isProper = true)
    (hspares : n'.sparesName = n.sparesName) : n'.unkey.info.name = n.unkey.info.name := by
  rw [Node.name_unkey, Node.name_unkey, hspares]
  obtain ⟨heq | ⟨hmay, hempty, hnone⟩, -⟩ := h
  · rw [heq]
  · have hunnamed : n.hasName = false := by
      rw [Node.hasName, hempty, isLooselyTrue_eq_false hn]
      rfl
    rw [if_pos (hmay.sparesName hunnamed), if_pos (hmay.sparesName hunnamed), hempty, hnone]
    rfl

/-- What loses empty keys is the same without any. -/
theorem unkey (h : n.LosesKeys MayLoseName n') (hn : n.isProper = true) :
    n'.unkey = n.unkey := by
  induction n using Node.induction generalizing n' with
  | step n ih =>
    have hlost := h
    obtain ⟨-, helement, hinfo, htag, -, hbelow⟩ := h
    have hbranch : ∀ b, (n'.branch b).map Node.unkey = (n.branch b).map Node.unkey := by
      intro b
      refine map_eq_of_forall₂ (R := fun m m' ↦ m'.unkey = m.unkey) ?_ fun _ _ heq ↦ heq
      refine forall₂_imp_of_mem (hbelow b) fun m hm m' hlost ↦ ih b m hm hlost ?_
      exact ((isProper_iff n).mp hn).2 b m hm
    -- a name goes in both or in neither, since the images that make figures are the same below
    have hname := hlost.name_unkey hn (hlost.sparesName (hbranch .children))
    refine eq_of_branch_eq ?_ (fun b ↦ ?_) ?_ ?_
    · rw [n'.info_unkey, n.info_unkey, hname, helement.unkey, hinfo]
    · rw [branch_unkey, branch_unkey, hbranch]
    · rw [tag_unkey, tag_unkey, Option.isSome_map, Option.isSome_map, htag]
    · rw [caption_unkey, caption_unkey, isSome_filter_isEmpty, isSome_filter_isEmpty,
        getD_map_unkey, getD_map_unkey]
      exact congrArg (!·.isEmpty) (hbranch .caption)

end LosesKeys

end Node

/-- Empty names, custom ids and captions count as none: a document that loses some of them is
typeset as before, unless a node loses a name that alone gives it a label. -/
theorem typeset_eq_of_losesKeys (config : Config) {doc doc' : Node} (hdoc : doc.isWellTyped = true)
    (h : doc.LosesKeys MayLoseName doc') : typeset config doc' = typeset config doc := by
  rw [← typeset_unkey hdoc, ← typeset_unkey (h.isWellTyped hdoc),
    h.unkey (isProper_of_isWellTyped hdoc)]

/-- A document of one block. -/
def Node.documentOf (block : Node) : Node :=
  ⟨⟨.unknown, 0, none, [], .document [], []⟩, [block], [], none, none⟩

theorem Node.LosesKeys.documentOf {mayLose : Node → Prop} {n n' : Node}
    (h : n.LosesKeys mayLose n') : (documentOf n).LosesKeys mayLose (documentOf n') :=
  .node (.inl rfl) (.same _) rfl rfl (.inl rfl) fun b ↦ by
    cases b with
    | children => exact .cons h .nil
    | title => exact .nil
    | tag => exact .nil
    | caption => exact .nil

/-- A heading with the keys. -/
def keyedHeading (name customId : Option String) (caption : Option (List Node)) : Node :=
  ⟨⟨.unknown, 0, name, [], .heading ⟨1, none, customId, none, false, []⟩, []⟩, [],
    [.inline .unknown 0 (.text "t") []], none, caption⟩

theorem losesKeys_keyedHeading (mayLose : Node → Prop)
    (h : mayLose (keyedHeading (some "") (some "") (some []))) :
    (keyedHeading (some "") (some "") (some [])).LosesKeys mayLose (keyedHeading none none none) :=
  .node (.inr ⟨h, rfl, rfl⟩) (.customId rfl) rfl rfl (.inr ⟨rfl, rfl⟩) fun b ↦ by
    cases b with
    | children => exact .nil
    | title => exact .cons (.refl _) .nil
    | tag => exact .nil
    | caption => exact .nil

/-- A heading loses all its keys. -/
theorem typeset_keyedHeading :
    (documentOf (keyedHeading (some "") (some "") (some []))).isWellTyped = true ∧
      (documentOf (keyedHeading (some "") (some "") (some []))).LosesKeys MayLoseName
        (documentOf (keyedHeading none none none)) ∧
      typeset .default (documentOf (keyedHeading none none none)) =
        typeset .default (documentOf (keyedHeading (some "") (some "") (some []))) :=
  have hlost := (losesKeys_keyedHeading MayLoseName (.inr (by decide))).documentOf
  ⟨by decide, hlost, typeset_eq_of_losesKeys .default (by decide) hlost⟩

/-- A block with a name, or none. -/
def namedBlock (name : Option String) : Node :=
  ⟨⟨.unknown, 0, name, [], .specialBlock "center", []⟩, [], [], none, none⟩

/-- An empty name gives a block a label that it does not have without the name. -/
theorem empty_name_gives_label :
    (documentOf (namedBlock (some ""))).isWellTyped = true ∧
      (documentOf (namedBlock (some ""))).LosesKeys (fun _ ↦ True) (documentOf (namedBlock none)) ∧
      typeset .default (documentOf (namedBlock (some ""))) =
        .ok ⟨"\\begin\x7bcenter\x7d\n\\label\x7bref1\x7d\n\\end\x7bcenter\x7d\n", []⟩ ∧
      typeset .default (documentOf (namedBlock none)) =
        .ok ⟨"\\begin\x7bcenter\x7d\n\\end\x7bcenter\x7d\n", []⟩ := by
  have hlost : (namedBlock (some "")).LosesKeys (fun _ ↦ True) (namedBlock none) :=
    .node (.inr ⟨trivial, rfl, rfl⟩) (.same _) rfl rfl (.inl rfl) fun b ↦ by
      cases b <;> exact .nil
  exact ⟨by decide, hlost.documentOf, eq_ok_of_toOption (by decide +kernel),
    eq_ok_of_toOption (by decide +kernel)⟩

end Typeset

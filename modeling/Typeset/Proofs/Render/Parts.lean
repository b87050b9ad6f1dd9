import Typeset.Proofs.Tree.Faultless
import Typeset.Render.Walk

/-!
# Printing proper trees

Where no value is loose, nothing that is checked on a walk is wrong. What is left of the walk are
the parts of each node, one after the other, and what the node prints of them.
-/

namespace Typeset

namespace Action

variable {α β : Type} {x : Action α} {k : α → Action β} {c d : Context}

theorem fst_bind_of_error {e : Failure}
    (h : (x c).1 = .error e) : ((x >>= k) c).1 = .error e := by
  cases hx : x c with
  | mk r d =>
    rw [hx] at h
    obtain rfl : r = .error e := h
    rw [bind_of_error hx]

theorem ok_of_bind {b : β} (h : (x >>= k) c = (.ok b, d)) :
    ∃ a c', x c = (.ok a, c') ∧ k a c' = (.ok b, d) := by
  cases hx : x c with
  | mk r c' =>
    cases r with
    | error e =>
      rw [bind_of_error hx] at h
      cases h
    | ok a => exact ⟨a, c', rfl, by rwa [bind_of_ok hx] at h⟩

end Action

open Action

namespace Context

variable {α : Type}

/-- What is done below a node, which is the innermost one meanwhile. -/
def within (o : Occurrence) (x : Action α) : Action α := do
  push o
  let a ← x
  let _ ← pop
  return a

theorem ok_of_within {o : Occurrence} {x : Action α} {c d : Context} {a : α}
    (h : within o x c = (.ok a, d)) :
    ∃ d', x { c with ancestors := o :: c.ancestors } = (.ok a, d') ∧
      d = { d' with ancestors := d'.ancestors.tail } := by
  rw [within, bind_of_ok (x := push o) rfl] at h
  obtain ⟨b, d', hx, h⟩ := ok_of_bind h
  obtain ⟨o', d'', hpop, h⟩ := ok_of_bind h
  cases h
  refine ⟨d', hx, ?_⟩
  unfold pop at hpop
  split at hpop
  · next habove =>
    cases hpop
    rw [habove, List.tail_cons]
  · cases hpop

/-- A language has a name, and that it was asked for is all that is kept. -/
theorem exists_nameOfLanguage_eq (config : Config) (language : String) (c : Context) :
    ∃ name languages, nameOfLanguage config language c = (.ok name, { c with languages }) := by
  unfold nameOfLanguage
  split
  · next name _ => exact ⟨name, c.languages, rfl⟩
  · exact ⟨_, _, rfl⟩

section Labels

variable {o : Occurrence} {force : Bool} {c d : Context}

theorem labelWith_of_fault {e : Failure} (h : o.node.labelFault? = some e) :
    labelWith force o c = (.error e, c) := by
  simp only [labelWith, References.label?, h]

theorem labelWith_of_sound (h : o.node.labelFault? = none) :
    labelWith force o c = (.ok (c.references.label o force).1,
      { c with references := (c.references.label o force).2 }) := by
  simp only [labelWith, References.label?, h]

theorem ok_of_labelWith {label : Option String} (h : labelWith force o c = (.ok label, d)) :
    label = (c.references.label o force).1 ∧
      d = { c with references := (c.references.label o force).2 } := by
  cases hfault : o.node.labelFault? with
  | some e =>
    rw [labelWith_of_fault hfault] at h
    cases h
  | none =>
    rw [labelWith_of_sound hfault] at h
    cases h
    exact ⟨rfl, rfl⟩

/-- A label made of the key of a node, or of a reference if it has none that is a text. -/
def labelFromKey (force : Bool) (o : Occurrence) : Action (Option String) :=
  match o.node.explicitKey with
  | some key =>
    if key.isEmpty then do return some (References.labelOf o.node (← reference o.place))
    else pure (some (References.labelOf o.node key))
  | none =>
    if o.node.hasCaption || force then do
      return some (References.labelOf o.node (← reference o.place))
    else pure none

theorem labelWith_eq_steps (force : Bool) (o : Occurrence) : labelWith force o = (do
    check o.node.labelFault?
    labelFromKey force o) := by
  funext c
  rw [bind_apply]
  cases hfault : o.node.labelFault? with
  | some e =>
    rw [labelWith_of_fault hfault]
    rfl
  | none =>
    rw [labelWith_of_sound hfault, check_none]
    dsimp only
    rw [References.label, labelFromKey]
    cases o.node.explicitKey with
    | none =>
      dsimp only
      split <;> rfl
    | some key =>
      dsimp only
      split <;> rfl

end Labels

end Context

namespace Node

theorem rawOutput?_eq_none {n : Node} (h : n.isProper = true) (inMath : Bool) :
    n.rawOutput? inMath = none := by
  unfold rawOutput?
  split <;> simp [loose?_eq_none h]

theorem rawFault?_eq_none {n : Node} (h : n.isProper = true) (inMath : Bool) :
    n.rawFault? inMath = none := by
  unfold rawFault?
  split <;> simp [loose?_eq_none h]

theorem spaceFault?_eq_none {n : Node} (h : n.isProper = true) : n.spaceFault? = none := by
  simp [spaceFault?, isLooselyTrue_eq_false h]

theorem outputsFault?_eq_none {ns : List Node} (h : ∀ n ∈ ns, n.isProper = true) (inMath : Bool)
    (pieces : Nat) (outputs : List (Option String)) :
    outputsFault? inMath pieces ns outputs = none := by
  induction ns generalizing pieces outputs with
  | nil => cases outputs <;> rfl
  | cons n ns ih =>
    have ih := ih fun m hm ↦ h m (.tail _ hm)
    rcases outputs with _ | ⟨_ | t, outputs⟩
    · rfl
    · exact ih pieces outputs
    · rw [outputsFault?, rawOutput?_eq_none (h n List.mem_cons_self)]
      exact ih _ outputs

theorem imageLinkFault?_eq_none {n : Node} (h : n.isProper = true) : n.imageLinkFault? = none := by
  unfold imageLinkFault?
  split
  · next hloose => simp [loose?_eq_none h] at hloose
  · rfl

theorem figureFault?_eq_none {n : Node} (h : n.isProper = true) : n.figureFault? = none := by
  have hstandalone : n.standaloneFault? = none := by
    unfold standaloneFault?
    rw [loose?_eq_none h]
    split
    · next child hchild =>
      have hmem : child ∈ n.children :=
        (List.mem_filter.mp (hchild ▸ List.mem_singleton.mpr rfl)).1
      exact imageLinkFault?_eq_none (((isProper_iff n).mp h).2 .children child hmem)
    · rfl
  simp [figureFault?, hstandalone]

end Node

namespace Render

open Action Context

variable (config : Config) (expand : Occurrence → Action String) (o : Occurrence)

/-- A heading of a zone holds its slot, which nothing else does. -/
def reserveSlot : Action Unit :=
  if o.node.zone = .body then pure () else reserve o.node.zone o.place

/-- The parts of a node but for its contents, in the order in which they are printed. -/
def secondaryParts : Action (String → Parts) := do
  let titles ← all config expand o.place .title 0 o.node.title
  let tags ← all config expand o.place .tag 0 (o.node.tag.getD [])
  let captions ←
    (if printsCaption o.node then all config expand o.place .caption 0 (o.node.caption.getD [])
    else pure [])
  return Parts.mk (Text.strip (spaced o.node.title titles))
    (Text.strip (spaced (o.node.tag.getD []) tags))
    (Text.strip (spaced (o.node.caption.getD []) captions))

/-- The section text of a heading, given its parts. -/
def sectionOf (h : Heading) (parts : Parts) : Action String := do
  let label ← Context.label o
  check (Latex.sectionFault? config h ((o.node.loose? "level").getD (.int h.level)))
  ofExcept (Latex.sectionText config h parts.title label parts.contents)

/-- A heading prints its section text in its place, or puts it into the slot held for it. -/
theorem heading_eq (h : Heading) (parts : Parts) :
    heading config o h parts = do
      let text ← sectionOf config o h parts
      if o.node.zone = .body then return some text
      else
        route o.node.zone text (some o.place)
        return none := by
  simp only [heading, sectionOf, bind_assoc]

variable {config expand o}

theorem checkOutputs_eq_pure {ns : List Node} (h : ∀ n ∈ ns, n.isProper = true)
    (outputs : List (Option String)) : checkOutputs ns outputs = pure () := by
  funext c
  simp [checkOutputs, bind_apply, Node.outputsFault?_eq_none h]

theorem captionFault?_eq_none {n : Node} (h : n.isProper = true) : captionFault? n = none := by
  simp [captionFault?, Node.figureFault?_eq_none h, Node.secondaryFault?_eq_none h]

theorem check_none_eq_pure : check none = pure () := rfl

theorem transcribe_eq (h : o.node.isProper = true) (parts : Parts) :
    transcribe config expand o parts = transcribeElement config expand o parts := by
  funext c
  simp [transcribe, bind_apply, Node.rawFault?_eq_none h, Node.rawOutput?_eq_none h]

/-- What is checked and printed of a node, one thing after the other. -/
theorem node_eq_steps (p : Place) (n : Node) : node config expand p n = (do
    enter ⟨p, n⟩
    check (n.secondaryFault? .title)
    let titles ← all config expand p .title 0 n.title
    checkOutputs n.title titles
    check (n.secondaryFault? .tag)
    let tags ← all config expand p .tag 0 (n.tag.getD [])
    checkOutputs (n.tag.getD []) tags
    check (captionFault? n)
    let captions ←
      (if printsCaption n then all config expand p .caption 0 (n.caption.getD []) else pure [])
    checkOutputs (n.caption.getD []) captions
    push ⟨p, n⟩
    check n.childrenFault?
    let outputs ← all config expand p .children 0 n.children
    checkOutputs n.children outputs
    let _ ← pop
    transcribe config expand ⟨p, n⟩
      { title := Text.strip (spaced n.title titles)
        tag := Text.strip (spaced (n.tag.getD []) tags)
        caption := Text.strip (spaced (n.caption.getD []) captions)
        contents := spaced n.children outputs }) := by
  obtain ⟨info, children, title, tag, caption⟩ := n
  cases tag <;> cases caption <;> rfl

/-- What is printed of a proper node: its slot is held, then come its parts and the node itself. -/
theorem node_eq {p : Place} {n : Node} (h : n.isProper = true) : node config expand p n = (do
    reserveSlot ⟨p, n⟩
    let parts ← secondaryParts config expand ⟨p, n⟩
    let outputs ← within ⟨p, n⟩ (all config expand p .children 0 n.children)
    transcribeElement config expand ⟨p, n⟩ (parts (spaced n.children outputs))) := by
  have hbelow : ∀ b outputs, checkOutputs (n.branch b) outputs = pure () :=
    fun b ↦ checkOutputs_eq_pure (((Node.isProper_iff n).mp h).2 b)
  have htitle : ∀ outputs, checkOutputs n.title outputs = pure () := hbelow .title
  have htag : ∀ outputs, checkOutputs (n.tag.getD []) outputs = pure () := hbelow .tag
  have hcaption : ∀ outputs, checkOutputs (n.caption.getD []) outputs = pure () := hbelow .caption
  have hchildren : ∀ outputs, checkOutputs n.children outputs = pure () := hbelow .children
  have htranscribe : ∀ parts, transcribe config expand ⟨p, n⟩ parts =
      transcribeElement config expand ⟨p, n⟩ parts := transcribe_eq h
  simp only [node_eq_steps, enter, Node.textFault?_eq_none h, Node.secondaryFault?_eq_none h,
    captionFault?_eq_none h, Node.childrenFault?_eq_none h, check_none_eq_pure, htitle, htag,
    hcaption, hchildren, htranscribe, reserveSlot, secondaryParts, within, pure_bind, bind_assoc]

theorem all_cons {p : Place} {b : Branch} {i : Nat} {n : Node} {ns : List Node}
    (h : n.isProper = true) : all config expand p b i (n :: ns) = do
      let output ← node config expand (p.down b i) n
      let outputs ← all config expand p b (i + 1) ns
      return output :: outputs := by
  have hspace : ∀ output : Option String,
      check (if output.isSome then n.spaceFault? else none) = pure () := by
    intro output
    rw [Node.spaceFault?_eq_none h, ite_self]
    rfl
  simp only [all, hspace, pure_bind]

theorem branch_eq_nil {n : Node} (hn : n.isWellTyped = true) {b : Branch}
    (h : n.kind.content b = .nothing) : n.branch b = [] := by
  refine List.eq_nil_iff_forall_not_mem.mpr fun m hm ↦ ?_
  have hadmits := (Node.isWellTyped_of_mem_branch hn hm).1
  rw [h] at hadmits
  cases hadmits

/-- A node of the body without a title, a tag and a caption is printed after its children. -/
theorem node_eq_of_children {m : Node} (hm : m.isWellTyped = true)
    (htitle : m.kind.content .title = .nothing) (htag : m.kind.content .tag = .nothing)
    (hcaption : printsCaption m = false) (hzone : m.zone = .body) (q : Place) :
    node config expand q m = (do
      let outputs ← within ⟨q, m⟩ (all config expand q .children 0 m.children)
      transcribeElement config expand ⟨q, m⟩ ⟨"", "", "", spaced m.children outputs⟩) := by
  have htitle : m.title = [] := branch_eq_nil (b := .title) hm htitle
  have htag : m.tag.getD [] = [] := branch_eq_nil (b := .tag) hm htag
  have hempty : ∀ ns, Text.strip (spaced ns []) = "" := by
    have hstrip : Text.strip "" = "" := by decide
    rintro (_ | ⟨n, ns⟩) <;> exact hstrip
  rw [node_eq (Node.isProper_of_isWellTyped hm)]
  simp only [reserveSlot, hzone, if_true, pure_bind, secondaryParts, htitle, htag, hcaption, all,
    Bool.false_eq_true, if_false, hempty]

/-- The text of a footnote's definition where it is proper. -/
theorem definitionText_succ {depth : Nat} {d : Occurrence} (h : d.node.isProper = true) :
    definitionText config (depth + 1) d = do
      let outputs ← all config (definitionText config depth) d.place .children 0 d.node.children
      return spaced d.node.children outputs := by
  have hchildren : ∀ outputs, checkOutputs d.node.children outputs = pure () :=
    checkOutputs_eq_pure (((Node.isProper_iff d.node).mp h).2 .children)
  simp only [definitionText, Node.childrenFault?_eq_none h, check_none_eq_pure, pure_bind,
    hchildren]

end Render

end Typeset

import Typeset.Proofs.Render.Parts

/-!
# Walks in stages

A walk over a tree ends by itself, but for the texts of footnotes' definitions that it needs on the
way. Here it stops wherever it needs one, and goes on once it is given the text and the context
after it. So the printing of definitions, which may come to references again, is left to whoever
resumes the walk.
-/

namespace Typeset

open Action Context Render

/-- How far a walk has come: it has ended, or it waits for the text of the definition of a
footnote. -/
inductive Stage (α : Type) where
  | ended (r : Except Failure α) (c : Context)
  | waiting (label : Datum) (definition : Occurrence) (c : Context)
    (resume : String → Context → Stage α)

namespace Stage

variable {α β : Type}

/-- What follows when a walk has ended with a result. -/
def bind : Stage α → (α → Context → Stage β) → Stage β
  | .ended (.ok a) c, k => k a c
  | .ended (.error e) c, _ => .ended (.error e) c
  | .waiting label d c resume, k => .waiting label d c fun t c ↦ (resume t c).bind k

/-- The end of a walk that is given the texts of definitions as they are printed. -/
def run (expand : Occurrence → Action String) : Stage α → Except Failure α × Context
  | .ended r c => (r, c)
  | .waiting _ d c resume =>
    match expand d c with
    | (.ok t, c) => (resume t c).run expand
    | (.error e, c) => (.error e, c)

theorem run_bind (expand : Occurrence → Action String) (s : Stage α) (k : α → Context → Stage β) :
    (s.bind k).run expand = match s.run expand with
      | (.ok a, c) => (k a c).run expand
      | (.error e, c) => (.error e, c) := by
  induction s with
  | ended r c => cases r <;> rfl
  | waiting label d c resume ih =>
    rw [bind, run, run]
    cases expand d c with
    | mk r c' =>
      cases r with
      | error e => rfl
      | ok t => exact ih t c'

end Stage

/-- A walk that stops where it needs the text of a footnote's definition. -/
def Staged (α : Type) : Type := Context → Stage α

namespace Staged

variable {α β : Type}

instance : Monad Staged where
  pure a := fun c ↦ .ended (.ok a) c
  bind x k := fun c ↦ (x c).bind k

instance : MonadLift Action Staged where
  monadLift x := fun c ↦ .ended (x c).1 (x c).2

theorem bind_apply (x : Staged α) (k : α → Staged β) (c : Context) :
    (x >>= k) c = (x c).bind k := rfl

theorem liftM_apply (x : Action α) (c : Context) :
    (liftM x : Staged α) c = .ended (x c).1 (x c).2 := rfl

/-- Wait for the text of the definition of a footnote. -/
def wait (label : Datum) (definition : Occurrence) : Staged String := fun c ↦
  .waiting label definition c fun t c ↦ .ended (.ok t) c

/-- The action that a walk is if the texts of definitions are printed as they are needed. -/
def run (expand : Occurrence → Action String) (x : Staged α) : Action α := fun c ↦
  (x c).run expand

/-! ## The walk -/

/-- The definition that an occurrence refers to by a label. -/
def definitionOf (o : Occurrence) (label : Datum) : Action Occurrence := fun c ↦
  (c.references.index.footnote label (some o.node.origin), c)

/-- A reference to a footnote. -/
def footnoteReference (o : Occurrence) (label : Option String) (contents : String) :
    Staged String := do
  match (o.node.loose? "label").or (label.map .str) with
  | none =>
    let token ← reference o.place
    let _ ← nextFootnote (.str ("anonymous:" ++ token))
    return footnoteText contents
  | some label =>
    check label.keyFault?
    let (number, first) ← nextFootnote label
    if !first then return "\\footnotemark[" ++ toString number ++ "]"
    else if o.node.children.isEmpty then
      let definition ← definitionOf o label
      return footnoteText (← wait label definition)
    else return footnoteText contents

/-- What a node prints, given its parts. -/
def transcribeElement (config : Config) (o : Occurrence) (parts : Parts) :
    Staged (Option String) :=
  match o.node.element with
  | .footnoteReference label => do return some (← footnoteReference o label parts.contents)
  | _ => Render.transcribeElement config (fun _ ↦ pure "") o parts

/-- What a node prints, given its parts; a value that it gives as it is counts as an empty text. -/
def transcribe (config : Config) (o : Occurrence) (parts : Parts) : Staged (Option String) := do
  let inMath ← ask Context.inMath
  check (o.node.rawFault? inMath)
  match o.node.rawOutput? inMath with
  | some .null => return none
  | some _ => return some ""
  | none => transcribeElement config o parts

mutual

/-- Print a tree at a place. -/
def node (config : Config) (p : Place) : Node → Staged (Option String)
  | ⟨info, children, title, tag, caption⟩ => do
    let o : Occurrence := ⟨p, ⟨info, children, title, tag, caption⟩⟩
    enter o
    check (o.node.secondaryFault? .title)
    let titles ← all config p .title 0 title
    checkOutputs title titles
    check (o.node.secondaryFault? .tag)
    let tags ← all? config p .tag tag
    checkOutputs (tag.getD []) tags
    check (captionFault? o.node)
    let captions ← (if printsCaption o.node then all? config p .caption caption else pure [])
    checkOutputs (caption.getD []) captions
    push o
    check o.node.childrenFault?
    let outputs ← all config p .children 0 children
    checkOutputs children outputs
    let _ ← pop
    transcribe config o
      { title := Text.strip (spaced title titles)
        tag := Text.strip (spaced (tag.getD []) tags)
        caption := Text.strip (spaced (caption.getD []) captions)
        contents := spaced children outputs }
termination_by structural n => n

/-- Print the trees of a branch from an index on. -/
def all (config : Config) (p : Place) (branch : Branch) (index : Nat) :
    List Node → Staged (List (Option String))
  | [] => pure []
  | n :: ns => do
    let output ← node config (p.down branch index) n
    check (if output.isSome then n.spaceFault? else none)
    let outputs ← all config p branch (index + 1) ns
    return output :: outputs
termination_by structural ns => ns

/-- Print the trees of a branch that may be missing. -/
def all? (config : Config) (p : Place) (branch : Branch) :
    Option (List Node) → Staged (List (Option String))
  | none => pure []
  | some ns => all config p branch 0 ns
termination_by structural ns => ns

end

/-- Print the text of a footnote's definition. -/
def definitionText (config : Config) (d : Occurrence) : Staged String := do
  check d.node.childrenFault?
  let outputs ← all config d.place .children 0 d.node.children
  checkOutputs d.node.children outputs
  return spaced d.node.children outputs

/-! ## The walk as it is -/

section

variable (expand : Occurrence → Action String)

@[simp] theorem run_pure (a : α) : run expand (pure a : Staged α) = pure a := rfl

@[simp] theorem run_liftM (x : Action α) : run expand (liftM x : Staged α) = x := rfl

@[simp] theorem run_bind (x : Staged α) (k : α → Staged β) :
    run expand (x >>= k) = run expand x >>= fun a ↦ run expand (k a) := by
  funext c
  exact Stage.run_bind expand (x c) k

@[simp] theorem run_ite (p : Prop) [Decidable p] (x y : Staged α) :
    run expand (if p then x else y) = if p then run expand x else run expand y :=
  apply_ite ..

@[simp] theorem run_wait (label : Datum) (d : Occurrence) :
    run expand (wait label d) = expand d := by
  funext c
  rw [run, wait, Stage.run]
  split
  · next h => exact h.symm
  · next h => exact h.symm

theorem run_footnoteReference (o : Occurrence) (label : Option String) (contents : String) :
    run expand (footnoteReference o label contents) =
      Render.footnoteReference expand o label contents := by
  unfold footnoteReference Render.footnoteReference
  cases (o.node.loose? "label").or (label.map .str) with
  | none => simp only [run_bind, run_liftM, run_pure]
  | some label =>
    simp only [run_bind, run_liftM, run_ite, run_wait, run_pure]
    rfl

/-- Only references to footnotes need texts of definitions. -/
theorem transcribeElement_eq (config : Config) {o : Occurrence}
    (h : ∀ label, o.node.element ≠ .footnoteReference label) (parts : Parts) :
    Render.transcribeElement config expand o parts =
      Render.transcribeElement config (fun _ ↦ pure "") o parts := by
  unfold Render.transcribeElement
  split
  all_goals first
    | rfl
    | next label he => exact absurd he (h label)

theorem run_transcribeElement (config : Config) (o : Occurrence) (parts : Parts) :
    run expand (transcribeElement config o parts) =
      Render.transcribeElement config expand o parts := by
  unfold transcribeElement
  split
  · next label he =>
    rw [Render.transcribeElement, he]
    simp only [run_bind, run_footnoteReference, run_pure, map_eq_pure_bind]
  · next hne => rw [run_liftM, transcribeElement_eq expand config (fun label he ↦ hne label he)]

theorem run_transcribe (config : Config) (o : Occurrence) (parts : Parts) :
    run expand (transcribe config o parts) = Render.transcribe config expand o parts := by
  simp only [transcribe, Render.transcribe, run_bind, run_liftM]
  refine bind_congr fun inMath ↦ bind_congr fun _ ↦ ?_
  cases o.node.rawOutput? inMath with
  | none => exact run_transcribeElement expand config o parts
  | some raw => cases raw <;> rfl

end

/-- What is checked and printed of a node, one thing after the other. -/
theorem node_eq (config : Config) (p : Place) (n : Node) : node config p n = (do
    enter ⟨p, n⟩
    check (n.secondaryFault? .title)
    let titles ← all config p .title 0 n.title
    checkOutputs n.title titles
    check (n.secondaryFault? .tag)
    let tags ← all config p .tag 0 (n.tag.getD [])
    checkOutputs (n.tag.getD []) tags
    check (captionFault? n)
    let captions ←
      (if printsCaption n then all config p .caption 0 (n.caption.getD []) else pure [])
    checkOutputs (n.caption.getD []) captions
    push ⟨p, n⟩
    check n.childrenFault?
    let outputs ← all config p .children 0 n.children
    checkOutputs n.children outputs
    let _ ← pop
    transcribe config ⟨p, n⟩
      { title := Text.strip (spaced n.title titles)
        tag := Text.strip (spaced (n.tag.getD []) tags)
        caption := Text.strip (spaced (n.caption.getD []) captions)
        contents := spaced n.children outputs }) := by
  obtain ⟨info, children, title, tag, caption⟩ := n
  cases tag <;> cases caption <;> rfl

section

variable (expand : Occurrence → Action String) (config : Config)

theorem run_all {ns : List Node}
    (h : ∀ n ∈ ns, ∀ p, run expand (node config p n) = Render.node config expand p n) (p : Place)
    (b : Branch) (i : Nat) :
    run expand (all config p b i ns) = Render.all config expand p b i ns := by
  induction ns generalizing i with
  | nil => rfl
  | cons n ns ih =>
    simp only [all, Render.all, run_bind, run_liftM, run_pure, h n List.mem_cons_self,
      ih fun m hm ↦ h m (.tail _ hm)]

/-- A walk that is given the texts of definitions as they are needed is the one that prints them on
the way. -/
theorem run_node (p : Place) (n : Node) :
    run expand (node config p n) = Render.node config expand p n := by
  induction n using Node.induction generalizing p with
  | step n ih =>
    have hall : ∀ (b : Branch) (q : Place), run expand (all config q b 0 (n.branch b)) =
        Render.all config expand q b 0 (n.branch b) :=
      fun b q ↦ run_all expand config (fun m hm p ↦ ih b m hm p) q b 0
    have htitle := hall .title p
    have htag := hall .tag p
    have hcaption := hall .caption p
    have hchildren := hall .children p
    simp only [Node.branch_title, Node.branch_tag, Node.branch_caption, Node.branch_children]
      at htitle htag hcaption hchildren
    simp only [node_eq, node_eq_steps, run_bind, run_liftM, run_ite, run_pure, htitle, htag,
      hcaption, hchildren, run_transcribe]

theorem run_definitionText (depth : Nat) (d : Occurrence) :
    run (Render.definitionText config depth) (definitionText config d) =
      Render.definitionText config (depth + 1) d := by
  simp only [definitionText, Render.definitionText, run_bind, run_liftM, run_pure,
    run_all _ config fun n _ p ↦ run_node (Render.definitionText config depth) config p n]

end

end Staged

end Typeset

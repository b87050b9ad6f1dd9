import Mathlib.Data.List.Infix
import Typeset.Document
import Typeset.Proofs.Notes.Ledger
import Typeset.Proofs.Render.Arrival

/-!
# Printing with a ledger

The walk that prints a tree can tell the notes in what it prints. It does the same to the context as
the walk without notes and prints the same; the ledger stands beside it.
-/

namespace Typeset

open Action Context Latex Render Text

/-! ## The walk -/

/-- An action that keeps a ledger. -/
abbrev Noting := StateT Ledger Action

namespace Occurrence

/-- Of what stands on the branches of an occurrence, what the occurrence does not pass on. -/
def dropped {α : Type} (config : Config) (c : Context) (o : Occurrence) (xs : Branch → List α) :
    List α :=
  Branch.printOrder.flatMap fun b ↦ if o.passes config c b then [] else xs b

/-- The table for which an occurrence is held back, if it is a row of its foot. -/
def heldRowFor? (config : Config) (c : Context) (o : Occurrence) : Option Place :=
  if o.node.kind = .tableRow then o.heldFor? config c else none

end Occurrence

namespace Ledger

variable (config : Config) (c : Context) (o : Occurrence)

/-- The head of a long table ends inside of the note, and the foot would be put there. -/
def isTorn (n : Note) : Bool :=
  longFoot config (Table.geometry config o.node) (c.rowsOf o.place) != "" &&
    decide (headEnd <:+: n.command.toList)

/-- The notes that a long table passes on: those of its caption, those of its rows that stand before
its foot, those of the rows of its foot, and the others. -/
def passedByLong (contents : String) (notes : Branch → List Note) (l : Ledger) : List Note :=
  let whole := (notes .children).filter fun n ↦ !isTorn config c o n
  let before := countBeforeFoot contents (whole.map Note.command)
  notes .caption ++ (whole.take before ++ (l.rowsOf o.place).flatten ++ whole.drop before)

/-- The notes that an occurrence passes on, and the ledger after it has been printed in a context. A
heading of a zone takes its notes with it, and so does a row that is held back. A long table lets
its rows go. -/
def settle (contents : String) (notes : Branch → List Note) (l : Ledger) : List Note × Ledger :=
  let passed := o.passed config c notes
  let rest := l.lose (o.dropped config c notes)
  if o.node.zone ≠ .body then
    ([], rest.route o.node.zone (c.reservations.lookup o.place) passed)
  else if o.node.kind = .table ∧ isLong config o.node = true then
    (passedByLong config c o contents notes l,
      (l.lose (notes .title ++ notes .tag ++ (notes .children).filter (isTorn config c o))).release
        o.place)
  else
    match o.heldRowFor? config c with
    | some table =>
      ([], (l.lose (notes .title ++ notes .tag ++ notes .caption)).hold table (notes .children))
    | none => (passed, rest)

end Ledger

namespace Noting

variable {α β γ : Type}

/-- What is done below a node, which is the innermost one meanwhile. -/
def within (o : Occurrence) (y : Noting α) : Noting α := fun l ↦ Context.within o (y l)

/-- A heading of a zone holds its slot. -/
def reserveSlot (o : Occurrence) : Noting Unit := do
  Render.reserveSlot o
  modify fun l ↦ if o.node.zone = .body then l else l.reserve o.node.zone

/-- The definition of a footnote. -/
def definition (o : Occurrence) (label : String) : Action Occurrence :=
  fun c ↦ (c.references.index.footnote (.str label) (some o.node.origin), c)

/-- What a reference to a footnote prints and the notes in it, given those in its contents. -/
def reference (expand : Occurrence → Noting (String × List Note)) (o : Occurrence)
    (label : Option String) (contents : String) (below : List Note) :
    Noting (String × List Note) := do
  match label with
  | none =>
    let token ← Context.reference o.place
    let (number, isNew) ← nextFootnote (.str ("anonymous:" ++ token))
    let note : Note := ⟨⟨.anonymous token, number, isNew⟩, contents⟩
    return (note.command, note :: below)
  | some name =>
    let (number, isNew) ← nextFootnote (.str name)
    if !isNew then
      modify (Ledger.lose below)
      let note : Note := ⟨⟨.label name, number, isNew⟩, ""⟩
      return (note.command, [note])
    else if o.node.children.isEmpty then
      modify (Ledger.lose below)
      let (text, inner) ← expand (← definition o name)
      let note : Note := ⟨⟨.label name, number, isNew⟩, text⟩
      return (note.command, note :: inner)
    else
      let note : Note := ⟨⟨.label name, number, isNew⟩, contents⟩
      return (note.command, note :: below)

/-- What a node other than a reference prints and the notes in it, given its parts and those in
them. -/
def settled (config : Config) (o : Occurrence) (parts : Parts) (notes : Branch → List Note) :
    Noting (Option String × List Note) := do
  let c ← ask id
  let output ← transcribeElement config (fun _ ↦ pure "") o parts
  let passed ← modifyGet (Ledger.settle config c o parts.contents notes)
  return (output, passed)

/-- What a node prints and the notes in it, given its parts and those in them. -/
def element (config : Config) (expand : Occurrence → Noting (String × List Note)) (o : Occurrence)
    (parts : Parts) (notes : Branch → List Note) : Noting (Option String × List Note) :=
  match o.node.element with
  | .footnoteReference label => do
    modify (Ledger.lose (notes .title ++ notes .tag ++ notes .caption))
    let (text, passed) ← reference expand o label parts.contents (notes .children)
    return (some text, passed)
  | _ => settled config o parts notes

mutual

/-- What a tree prints at a place, and the notes in it. -/
def node (config : Config) (expand : Occurrence → Noting (String × List Note)) (p : Place) :
    Node → Noting (Option String × List Note)
  | ⟨info, children, title, tag, caption⟩ => do
    let o : Occurrence := ⟨p, ⟨info, children, title, tag, caption⟩⟩
    reserveSlot o
    let titles ← all config expand p .title 0 title
    let tags ← all? config expand p .tag tag
    let captions ←
      (if printsCaption o.node then all? config expand p .caption caption else pure ([], []))
    let contents ← within o (all config expand p .children 0 children)
    let on : Branch → List (Option String) × List Note
      | .title => titles
      | .tag => tags
      | .caption => captions
      | .children => contents
    element config expand o (.ofOutputs o.node fun b ↦ (on b).1) fun b ↦ (on b).2
termination_by structural n => n

/-- What the trees of a branch print from an index on, and the notes in it. -/
def all (config : Config) (expand : Occurrence → Noting (String × List Note)) (p : Place)
    (branch : Branch) (index : Nat) : List Node → Noting (List (Option String) × List Note)
  | [] => pure ([], [])
  | n :: ns => do
    let (output, notes) ← node config expand (p.down branch index) n
    let (outputs, more) ← all config expand p branch (index + 1) ns
    return (output :: outputs, notes ++ more)
termination_by structural ns => ns

/-- What the trees of a branch that may be missing print, and the notes in it. -/
def all? (config : Config) (expand : Occurrence → Noting (String × List Note)) (p : Place)
    (branch : Branch) : Option (List Node) → Noting (List (Option String) × List Note)
  | none => pure ([], [])
  | some ns => all config expand p branch 0 ns
termination_by structural ns => ns

end

/-- The text of a footnote's definition, with at most so many others inside, and the notes in it. -/
def definitionText (config : Config) : Nat → Occurrence → Noting (String × List Note)
  | 0, _ => pure ("", [])
  | depth + 1, d => do
    let (outputs, notes) ←
      all config (definitionText config depth) d.place .children 0 d.node.children
    return (spaced d.node.children outputs, notes)

/-! ## The branches of a node -/

/-- What is printed on one branch of a node, and the notes in it. -/
def onBranch (config : Config) (expand : Occurrence → Noting (String × List Note))
    (o : Occurrence) : Branch → Noting (List (Option String) × List Note)
  | .title => all config expand o.place .title 0 o.node.title
  | .tag => all config expand o.place .tag 0 (o.node.tag.getD [])
  | .caption =>
    if printsCaption o.node then all config expand o.place .caption 0 (o.node.caption.getD [])
    else pure ([], [])
  | .children => within o (all config expand o.place .children 0 o.node.children)

/-- What is printed on some branches of a node, one after the other, and the notes in it. -/
def onBranches (config : Config) (expand : Occurrence → Noting (String × List Note))
    (o : Occurrence) : List Branch → Noting (Branch → List (Option String) × List Note)
  | [] => pure fun _ ↦ ([], [])
  | b :: bs => do
    let first ← onBranch config expand o b
    let rest ← onBranches config expand o bs
    return fun b' ↦ if b' = b then first else rest b'

/-- What is printed of a node, branch by branch. -/
theorem node_eq (config : Config) (expand : Occurrence → Noting (String × List Note)) (p : Place)
    (n : Node) : node config expand p n = (do
      reserveSlot ⟨p, n⟩
      let on ← onBranches config expand ⟨p, n⟩ Branch.printOrder
      element config expand ⟨p, n⟩ (.ofOutputs n fun b ↦ (on b).1) fun b ↦ (on b).2) := by
  obtain ⟨info, children, title, tag, caption⟩ := n
  have hall? : ∀ b ns, all? config expand p b ns = all config expand p b 0 (ns.getD []) := by
    intro b ns
    cases ns <;> rfl
  simp only [node, onBranches, onBranch, Branch.printOrder, hall?, bind_assoc, pure_bind]
  refine bind_congr fun _ ↦ bind_congr fun _ ↦ bind_congr fun _ ↦ bind_congr fun _ ↦
    bind_congr fun _ ↦ ?_
  congr 1
  funext b
  cases b <;> rfl

end Noting

end Typeset

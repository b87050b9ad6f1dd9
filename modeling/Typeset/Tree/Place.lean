import Typeset.Tree.Node

/-!
# Places in a tree

Two equal nodes at different places are different occurrences. `Node.occurrences` lists the
occurrences of a tree in the order of a visit: a node, then its children, its title, its tag and
its caption.
-/

namespace Typeset

/-- One step down: a branch and an index in it. -/
structure Step where
  branch : Branch
  index : Nat
deriving DecidableEq, Repr

/-- A place in one of several trees: the number of its root, and the steps from the place back up
to the root. -/
structure Place where
  root : Nat
  steps : List Step
deriving DecidableEq, Repr

namespace Place

/-- The place of a root. -/
def ofRoot (root : Nat) : Place := ⟨root, []⟩

/-- The place one step below. -/
def down (p : Place) (branch : Branch) (index : Nat) : Place := ⟨p.root, ⟨branch, index⟩ :: p.steps⟩

/-- The index of a place among the children of another one. -/
def childIndex? (p parent : Place) : Option Nat :=
  match p.steps with
  | ⟨.children, i⟩ :: above => if p.root = parent.root ∧ above = parent.steps then some i else none
  | _ => none

@[simp] theorem childIndex?_down (p : Place) (i : Nat) :
    (p.down .children i).childIndex? p = some i := by simp [down, childIndex?]

end Place

/-- A node at its place. -/
structure Occurrence where
  place : Place
  node : Node
deriving Repr

namespace Node

mutual

/-- The occurrences of a tree at a place, in the order of a visit. -/
def occurrences (p : Place) : Node → List Occurrence
  | ⟨info, children, title, tag, caption⟩ =>
    ⟨p, ⟨info, children, title, tag, caption⟩⟩ ::
      (occurrencesIn p .children 0 children ++ occurrencesIn p .title 0 title ++
        occurrencesIn? p .tag tag ++ occurrencesIn? p .caption caption)
termination_by structural n => n

/-- The occurrences of the trees of a branch from an index on. -/
def occurrencesIn (p : Place) (branch : Branch) (index : Nat) : List Node → List Occurrence
  | [] => []
  | n :: ns => n.occurrences (p.down branch index) ++ occurrencesIn p branch (index + 1) ns
termination_by structural ns => ns

/-- The occurrences of the trees of a branch that may be missing. -/
def occurrencesIn? (p : Place) (branch : Branch) : Option (List Node) → List Occurrence
  | none => []
  | some ns => occurrencesIn p branch 0 ns
termination_by structural ns => ns

end

/-- The node that a step leads to. -/
def step? (n : Node) (s : Step) : Option Node := (n.branch s.branch)[s.index]?

/-- The node at the end of some steps, the first one taken last. -/
def at? (n : Node) : List Step → Option Node
  | [] => some n
  | s :: above => (n.at? above).bind (·.step? s)

/-- All nodes of a tree in the order of a visit. -/
def visit (n : Node) : List Node := (n.occurrences (.ofRoot 0)).map Occurrence.node

end Node

end Typeset

import Typeset.Latex.Escape
import Typeset.Reference.Figure
import Typeset.Reference.Resolve

/-!
# References and labels

A reference is a token given to one occurrence, in the order in which tokens are asked for. The
label of a node is the prefix of its kind with its explicit key, or with its reference if it has no
key.
-/

namespace Typeset

/-- The references given so far and the index of link targets. -/
structure References where
  /-- The places that have a reference, in the order in which they got it. -/
  places : List Place
  index : LinkIndex

namespace References

/-- No references and no trees. -/
def empty : References := ⟨[], .empty⟩

/-- The reference of a number. -/
def token (i : Nat) : String := "ref" ++ toString (i + 1)

/-- The reference of a place, given to it if it has none yet. -/
def reference (r : References) (p : Place) : String × References :=
  match r.places.idxOf? p with
  | some i => (token i, r)
  | none => (token r.places.length, { r with places := r.places ++ [p] })

/-- The label made of a node's prefix and a key. -/
def labelOf (n : Node) (key : String) : String := n.labelPrefix ++ Latex.labelKey key

/-- The label of an occurrence. Only an explicit key or a caption gives it one, unless it is
forced to have one. An empty key gives way to a reference. -/
def label (r : References) (o : Occurrence) (force : Bool) : Option String × References :=
  match o.node.explicitKey with
  | some key =>
    if key.isEmpty then
      let (token, r) := r.reference o.place
      (some (labelOf o.node token), r)
    else (some (labelOf o.node key), r)
  | none =>
    if o.node.hasCaption || force then
      let (token, r) := r.reference o.place
      (some (labelOf o.node token), r)
    else (none, r)

/-- The label of an occurrence, unless its key is no text. -/
def label? (r : References) (o : Occurrence) (force : Bool) :
    Except Failure (Option String × References) :=
  match o.node.labelFault? with
  | some e => .error e
  | none => .ok (r.label o force)

/-- The references with a tree indexed. -/
def add (r : References) (p : Place) (n : Node) : References :=
  { r with index := r.index.add p n }

/-- The references with a tree indexed as far as nothing is wrong, and what is wrong. -/
def addSound (r : References) (p : Place) (n : Node) : References × Option Failure :=
  let (index, fault) := r.index.addSound p n
  ({ r with index := index }, fault)

/-- The references with a tree indexed, unless something is wrong. -/
def add? (r : References) (p : Place) (n : Node) : Except Failure References :=
  match r.addSound p n with
  | (_, some e) => .error e
  | (r, none) => .ok r

end References

end Typeset

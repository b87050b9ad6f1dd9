import Typeset.Latex.Math
import Typeset.Tree.Edit

/-!
# Math runs

A run of adjacent mathematical objects is wrapped in one node so that it is printed as one formula.
A formula or a mathematical entity opens a run, and what follows joins it as long as no space
stands in between; each run takes at most one subscript and one superscript.
-/

namespace Typeset.MathRun

/-- The node opens a run. -/
def opens (n : Node) : Bool :=
  match n.element with
  | .entity _ _ needsMath _ => needsMath
  | .latexFragment value => Latex.opensInlineMath value.toList
  | _ => false

/-- The node is a subscript or a superscript. -/
def isScript (n : Node) : Bool := n.kind == .subscript || n.kind == .superscript

/-- The node may come after the members of a run, whatever space stands in between. -/
def joins (n : Node) (run : List Node) : Bool :=
  opens n || (isScript n && !run.any fun member ↦ member.kind == n.kind)

/-- No space stands after the node, and nothing that says otherwise. -/
def hasNoBlank (n : Node) : Bool :=
  match n.loose? "post_blank" with
  | none => n.postBlank == 0
  | some d => d.number? == some 0

/-- The loose value of the space after a node. -/
def looseBlank (n : Node) : List (String × Datum) :=
  n.info.loose.filter fun (field, _) ↦ field == "post_blank"

/-- The node of a run given by its members, the last one first. The run takes over the space after
its last member and the origin of its first. -/
def close (last : Node) (earlier : List Node) : Node :=
  let origin := ((last :: earlier).getLast (by simp)).origin
  ⟨⟨origin, last.postBlank, none, [], .mathRun, looseBlank last⟩,
    earlier.reverse ++ [last.withoutBlank], [], none, none⟩

mutual

/-- The nodes with each longest run wrapped. -/
def merge : List Node → List Node
  | [] => []
  | n :: ns => if opens n then extend n [] ns else n :: merge ns
termination_by structural ns => ns

/-- The same after the members of a run, the last one first. -/
def extend (last : Node) (earlier : List Node) : List Node → List Node
  | [] => [close last earlier]
  | n :: ns =>
    if hasNoBlank last && joins n (last :: earlier) then extend n (last :: earlier) ns
    else close last earlier :: (if opens n then extend n [] ns else n :: merge ns)
termination_by structural ns => ns

end

/-- The node with the runs of all its branches wrapped. -/
def wrap (n : Node) : Node :=
  ⟨n.info, merge n.children, merge n.title, n.tag.map merge, n.caption.map merge⟩

/-- The node is a run already. -/
def isRun (n : Node) : Bool := n.kind == .mathRun

/-- What wrapping all runs leaves of a tree; runs that are there already stay as they are. -/
def wrapAll (n : Node) : Option Node :=
  Node.editM (m := Id) (fun _ _ ↦ ()) isRun (fun n ↦ some (wrap n)) n

/-- The tree with all runs wrapped. Nothing but nulls is ever removed. -/
def mergeTree (n : Node) : Node := (wrapAll n).getD n

/-- The tree with all runs wrapped, unless a value that is no sequence of nodes stops the edit. -/
def mergeTree? (n : Node) : Except Failure Node :=
  (fun n' ↦ n'.getD n) <$> Node.editM Node.editGate isRun (fun n ↦ .ok (some (wrap n))) n

end Typeset.MathRun

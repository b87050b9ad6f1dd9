import Typeset.Operation
import Typeset.Tree.Walkable

/-!
# Editing a tree

An edit applies a function to every node from the bottom up and leaves out the nodes that it
gives nothing for, and nulls. Subtrees that are skipped stay as they are, and the function never
sees them. Before it goes over a branch the edit passes a gate, which may stop it.
-/

namespace Typeset.Node

variable {m : Type → Type} [Monad m]

mutual

/-- The node with the function applied to it after all nodes below it. -/
def editM (gate : Branch → Node → m Unit) (skip : Node → Bool) (f : Node → m (Option Node)) :
    Node → m (Option Node)
  | ⟨info, children, title, tag, caption⟩ =>
    if skip ⟨info, children, title, tag, caption⟩ then
      pure (some ⟨info, children, title, tag, caption⟩)
    else do
      let n : Node := ⟨info, children, title, tag, caption⟩
      gate .children n
      let children ← editAllM gate skip f children
      gate .title n
      let title ← editAllM gate skip f title
      gate .tag n
      let tag ← editAllM? gate skip f tag
      gate .caption n
      let caption ← editAllM? gate skip f caption
      f ⟨info, children, title, tag, caption⟩
termination_by structural n => n

/-- What is left of some nodes. -/
def editAllM (gate : Branch → Node → m Unit) (skip : Node → Bool) (f : Node → m (Option Node)) :
    List Node → m (List Node)
  | [] => pure []
  | n :: ns => do
    let first ← editM gate skip f n
    let rest ← editAllM gate skip f ns
    pure ((first.filter fun n ↦ !n.isNull).toList ++ rest)
termination_by structural ns => ns

/-- What is left of a branch that may be missing. -/
def editAllM? (gate : Branch → Node → m Unit) (skip : Node → Bool)
    (f : Node → m (Option Node)) : Option (List Node) → m (Option (List Node))
  | none => pure none
  | some ns => some <$> editAllM gate skip f ns
termination_by structural ns => ns

end

/-- A heading one level deeper. -/
def demote? (h : Heading) (n : Node) : Except Failure Node :=
  match (n.loose? "level").bind (Datum.sumFault? "+") with
  | some e => .error e
  | none => .ok ((n.withElement (.heading { h with level := h.level + 1 })).withoutLoose "level")

/-- The outcome of an edit of a document, which has to leave a document. -/
def asDocument : Option Node → Except Failure Node
  | some n => if n.kind = .document then .ok n else .error .rootRemoved
  | none => .error .rootRemoved

end Typeset.Node

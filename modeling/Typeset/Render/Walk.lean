import Typeset.Render.Transcribe

/-!
# Printing a tree

A tree is printed from the bottom up. What precedes the children of a node in the output is
settled before them: a heading of a zone holds its slot, and the title, the tag and the caption are
printed, in this order. The text of a footnote's definition is printed where the footnote is first
used; since each label is used first only once, there are never more such texts inside each other
than there are definitions.
-/

namespace Typeset.Render

open Action Context

/-- The blank space after a node: line feeds after a block and spaces after an inline object. -/
def blankAfter (n : Node) : String :=
  if n.isBlock then Text.newlines n.postBlank else Text.spaces n.postBlank

/-- The outputs of nodes in a row, each with the blank space after its node. A node that printed
nothing has no space either. -/
def spaced : List Node → List (Option String) → String
  | n :: ns, some output :: outputs => output ++ blankAfter n ++ spaced ns outputs
  | _ :: ns, none :: outputs => spaced ns outputs
  | _, _ => ""

/-- The node prints its caption. -/
def printsCaption (n : Node) : Bool :=
  n.isFigure || n.kind == .table || n.kind == .codeBlock

/-- What is wrong with the caption of a node, which is passed over where the node does not print
it. -/
def captionFault? (n : Node) : Option Failure :=
  if n.hasCaption then
    n.figureFault?.or (if printsCaption n then n.secondaryFault? .caption else none)
  else none

/-- What happens when the walk comes to a node: a heading of a zone holds its slot there. -/
def enter (o : Occurrence) : Action Unit := do
  check o.node.textFault?
  if o.node.zone = .body then pure () else reserve o.node.zone o.place

/-- The outputs of nodes in a row can be put together. -/
def checkOutputs (ns : List Node) (outputs : List (Option String)) : Action Unit := do
  check (Node.outputsFault? (← ask Context.inMath) 0 ns outputs)

mutual

/-- Print a tree at a place. -/
def node (config : Config) (expand : Occurrence → Action String) (p : Place) :
    Node → Action (Option String)
  | ⟨info, children, title, tag, caption⟩ => do
    let o : Occurrence := ⟨p, ⟨info, children, title, tag, caption⟩⟩
    enter o
    check (o.node.secondaryFault? .title)
    let titles ← all config expand p .title 0 title
    checkOutputs title titles
    check (o.node.secondaryFault? .tag)
    let tags ← all? config expand p .tag tag
    checkOutputs (tag.getD []) tags
    check (captionFault? o.node)
    let captions ←
      (if printsCaption o.node then all? config expand p .caption caption else pure [])
    checkOutputs (caption.getD []) captions
    push o
    check o.node.childrenFault?
    let outputs ← all config expand p .children 0 children
    checkOutputs children outputs
    let _ ← pop
    transcribe config expand o
      { title := Text.strip (spaced title titles)
        tag := Text.strip (spaced (tag.getD []) tags)
        caption := Text.strip (spaced (caption.getD []) captions)
        contents := spaced children outputs }
termination_by structural n => n

/-- Print the trees of a branch from an index on. -/
def all (config : Config) (expand : Occurrence → Action String) (p : Place) (branch : Branch)
    (index : Nat) : List Node → Action (List (Option String))
  | [] => pure []
  | n :: ns => do
    let output ← node config expand (p.down branch index) n
    check (if output.isSome then n.spaceFault? else none)
    let outputs ← all config expand p branch (index + 1) ns
    return output :: outputs
termination_by structural ns => ns

/-- Print the trees of a branch that may be missing. -/
def all? (config : Config) (expand : Occurrence → Action String) (p : Place) (branch : Branch) :
    Option (List Node) → Action (List (Option String))
  | none => pure []
  | some ns => all config expand p branch 0 ns
termination_by structural ns => ns

end

/-- Print the text of a footnote's definition, with at most so many others inside. -/
def definitionText (config : Config) : Nat → Occurrence → Action String
  | 0, _ => pure ""
  | depth + 1, d => do
    check d.node.childrenFault?
    let outputs ← all config (definitionText config depth) d.place .children 0 d.node.children
    checkOutputs d.node.children outputs
    return spaced d.node.children outputs

/-- Print an occurrence in the context. -/
def occurrence (config : Config) (o : Occurrence) : Action (Option String) := do
  let depth ← ask fun c ↦ c.references.index.footnotes.length
  node config (definitionText config depth) o.place o.node

/-- What an occurrence prints as a value: null for nothing, a text, or the value that it gives as it
is. -/
def value (config : Config) (o : Occurrence) : Action Json := do
  let output ← occurrence config o
  let raw ← ask fun c ↦ o.node.rawOutput? c.inMath
  match output, raw with
  | none, _ => return .null
  | some _, some d => return d.toJson
  | some t, none => return .str t

end Typeset.Render

import Typeset.Assembly
import Typeset.Render.Walk
import Typeset.Tree.Prepare

/-!
# Typesetting a document

A document is indexed, printed, and assembled with the zones that were collected on the way.
`typeset` prepares the document first; a `Renderer` prints it as it is and keeps the context of the
last document that could be printed, with the warnings about it.
-/

namespace Typeset

/-- A typeset document and the problems that did not stop it. -/
structure Typescript where
  text : String
  warnings : List String
deriving DecidableEq, Repr

/-- The properties of a document. -/
def Node.properties (n : Node) : Attributes :=
  match n.element with
  | .document properties => properties
  | _ => []

/-- The context in which nothing has been printed, with references that may be indexed. -/
def Context.ofReferences (r : References) : Context := { Context.empty with references := r }

/-- The document indexed, printed and put together in a fresh context, and this context. What is
wrong with the template is recorded behind all that came up on the way. -/
def Render.document (config : Config) (doc : Node) : Except Failure (String × Context) := do
  let references ← References.empty.add? (.ofRoot 0) doc
  match occurrence config ⟨.ofRoot 0, doc⟩ (.ofReferences references) with
  | (.error e, _) => throw e
  | (.ok body, c) =>
    let (text, warnings) ←
      Assembly.assemble config (body.getD "") c.buffers.chunks config.template doc.properties
    return (text, { c with warnings := c.warnings ++ warnings })

/-- The document printed as it is. -/
def print (config : Config) (doc : Node) : Except Failure Typescript := do
  let (text, c) ← Render.document config doc
  return ⟨text, c.warnings⟩

/-- The document prepared and printed. -/
def typeset (config : Config) (doc : Node) : Except Failure Typescript := do
  print config (← prepare? doc)

/-- A configuration with the context of the last document that was printed with it. -/
structure Renderer where
  config : Config
  last : Option Context

namespace Renderer

/-- A renderer that has printed nothing yet. -/
def ofConfig (config : Config) : Renderer := ⟨config, none⟩

/-- The warnings about the last document that was printed. -/
def warnings (r : Renderer) : List String :=
  match r.last with
  | some c => c.warnings
  | none => []

/-- A document printed as it is in a context of its own, and the renderer after it. The context is
kept if the document could be printed, and dropped if not. -/
def render (r : Renderer) (doc : Node) : Except Failure String × Renderer :=
  match Render.document r.config doc with
  | .ok (text, c) => (.ok text, { r with last := some c })
  | .error e => (.error e, r)

end Renderer

end Typeset

import Typeset.Reference.Index
import Typeset.Text.Cut

/-!
# What links point at

A link finds its target by its kind and its path, a footnote its definition by the label, and a
code label the number of its line.
-/

namespace Typeset.LinkIndex

/-- The failure of a link or a footnote label that resolves to nothing. -/
def orUnresolved (kind : String) (path : Datum) (origin : Option Origin) :
    Option Occurrence → Except Failure Occurrence
  | some o => .ok o
  | none => .error (.unresolvedLink kind path origin)

/-- What a link points at, by the kind of the link and its path. -/
def target? (ix : LinkIndex) (kind path : String) : Option Occurrence :=
  match kind with
  | "custom-id" => ix.customIds.lookup (Text.dropBeginning path "#")
  | "id" => ix.identifiers.lookup (.str path)
  | "radio" => ix.radioTargets.lookup (normalize path)
  | "fuzzy" =>
    match path.toList with
    | '*' :: title => ix.titles.lookup (normalize (.ofList title))
    | _ =>
      ((ix.targets.lookup path).or (ix.names.lookup path)).or (ix.titles.lookup (normalize path))
  | _ => none

/-- What a link points at. -/
def resolve (ix : LinkIndex) (kind path : String) (origin : Option Origin) :
    Except Failure Occurrence :=
  orUnresolved kind (.str path) origin (ix.target? kind path)

/-- What a link with a path of any type points at. Only identifiers can be something else than
texts. -/
def resolveDatum (ix : LinkIndex) (kind : String) (path : Datum) (origin : Option Origin) :
    Except Failure Occurrence :=
  match path, kind with
  | .str path, _ => ix.resolve kind path origin
  | _, "id" =>
    match path.keyFault? with
    | some e => .error e
    | none => orUnresolved kind path origin (ix.identifiers.lookup path.key)
  | _, "radio" => .error (.mismatch (.notText path.typeName))
  | _, _ => orUnresolved kind path origin none

/-- The definition of a footnote. -/
def footnote (ix : LinkIndex) (label : Datum) (origin : Option Origin) :
    Except Failure Occurrence :=
  match label.keyFault? with
  | some e => .error e
  | none => orUnresolved "footnote" label origin (ix.footnotes.lookup label.key)

/-- The number of the first line of a block of code, if its lines are numbered. A block that was
entered more than once has the number of its last entry. -/
def firstLine? (ix : LinkIndex) (p : Place) : Option Int :=
  (CodeEntry.firstLinesFrom 0 (ix.codeBlocks.take ix.numberedCount)).reverse.lookup p

/-- The line number that a code label stands for in the first of some blocks that holds it. -/
def codeLineIn (ix : LinkIndex) (label : Datum) (origin : Option Origin) :
    List CodeEntry → Except Failure Int
  | [] => .error (.unresolvedCode label origin)
  | e :: es => do
    match ← e.lineOf? label with
    | none => codeLineIn ix label origin es
    | some line =>
      match ix.firstLine? e.place with
      | none => return (line : Int)
      | some first => return first + line - 1

/-- The line number that a code label stands for: in a numbered block the printed number, else the
line's position in its block. -/
def codeLine (ix : LinkIndex) (label : Datum) (origin : Option Origin) : Except Failure Int :=
  ix.codeLineIn label origin ix.codeBlocks

end Typeset.LinkIndex

import Typeset.Tree.Field

/-! # Where a node comes from -/

namespace Typeset

/-- A place in a source text. Line zero stands for no place at all. -/
structure Position where
  line : Int
  column : Int
  file : Option String
deriving DecidableEq, Repr

namespace Position

/-- The position of a node that no source text holds. -/
def unknown : Position := ⟨0, 0, none⟩

/-- The position points into a source text. -/
def isKnown (p : Position) : Bool := 0 < p.line

/-- The position as messages show it, with the file if there is one. -/
def shown (p : Position) : String :=
  let place := toString p.line ++ ":" ++ toString p.column
  match p.file with
  | none | some "" => place
  | some file => file ++ ":" ++ place

end Position

/-- The origin recorded with a node: a position, or another value. -/
inductive Origin where
  | position (p : Position)
  | other (data : Datum)
deriving DecidableEq, Repr

namespace Origin

/-- The origin of a node that no source text holds. -/
def unknown : Origin := .position .unknown

/-- The origin that a value tells. -/
def ofDatum : Datum → Origin
  | .position (.int line) (.int column) (.str file) => .position ⟨line, column, some file⟩
  | .position (.int line) (.int column) .null => .position ⟨line, column, none⟩
  | d => .other d

/-- The value that tells an origin. -/
def toDatum : Origin → Datum
  | .position p => .position (.int p.line) (.int p.column) ((p.file.map Json.str).getD .null)
  | .other d => d

@[simp] theorem toDatum_ofDatum (d : Datum) : (ofDatum d).toDatum = d := by
  unfold ofDatum; split <;> rfl

/-- The origin as messages show it. -/
def shown : Origin → String
  | .position p => p.shown
  | .other d => d.plain

/-- A value where the number of a line is expected tells a known line. -/
def isKnownLine : Json → Bool
  | .int n => 0 < n
  | .bool b => b
  | _ => false

/-- The origin points into a source text. -/
def isKnown : Origin → Bool
  | .position p => p.isKnown
  | .other (.position line _ _) => isKnownLine line
  | .other _ => false

/-- What stands in front of a message about a node: its origin, if that is known. -/
def lead (o : Origin) : String := if o.isKnown then o.shown ++ " " else ""

/-- The type of what stands in the place of a line's number, if it can tell no line. -/
def lineFault? : Origin → Option String
  | .other (.position line _ _) =>
    match line with
    | .int _ | .bool _ => none
    | _ => some line.typeName
  | _ => none

end Origin

end Typeset

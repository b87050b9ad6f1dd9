import Typeset.Assoc
import Typeset.Failure
import Typeset.Json.Printer
import Typeset.Json.Reader

/-!
# Records: serialized trees

A record is a node as data: its kind and the values of its fields, whatever their types.
`Record.ofJson` reads one, filling in defaults, and `Record.toJson` writes it with every field.
Fields are read in the order in which their kind declares them and the first failure counts;
members that are no fields of the kind do not matter.
-/

namespace Typeset

/-- A member of a serialized node: its name, its value and what the value reads as. -/
structure Member where
  name : String
  raw : Json
  reading : Except Failure Datum

namespace Member

/-- The member of a name. -/
def find? (members : List Member) (name : String) : Option Member :=
  members.find? fun m ↦ m.name == name

/-- The value of the member of a name, null if there is none. -/
def raw? (members : List Member) (name : String) : Json :=
  ((find? members name).map Member.raw).getD .null

/-- The key that an entry of a mapping has. -/
def keyOf : Json → Except Failure String
  | .str s => .ok s
  | .arr items => .error (.mismatch (.notKey (Json.arr items).typeName))
  | .obj ms => .error (.mismatch (.notKey (Json.obj ms).typeName))
  | j => .ok (Json.text none j)

/-- The items of a value, if it has some: those of a list, the characters of a text or the keys of
a mapping. -/
def itemsOf? : Json → Option (List Json)
  | .arr items => some items
  | .str s => some (s.toList.map fun c ↦ .str (.singleton c))
  | .obj ms => some (ms.map fun (key, _) ↦ .str key)
  | _ => none

/-- The entry of a mapping that an item stands for: a pair of a key and a value. -/
def entryOf (index : Nat) (item : Json) : Except Failure (String × Json) :=
  match itemsOf? item with
  | some [key, value] => do return (← keyOf key, value)
  | some items => .error (.entryLength index items.length)
  | none => .error (.mismatch (.notEntry index))

/-- The entries that items stand for, from an index on. -/
def entriesFrom (index : Nat) : List Json → Except Failure (List (String × Json))
  | [] => .ok []
  | item :: items => do
    let entry ← entryOf index item
    return entry :: (← entriesFrom (index + 1) items)

/-- A value as a mapping. A list or a text gives its entries one by one; where a key repeats, its
last value counts. -/
def mappingOf : Json → Except Failure Datum
  | .obj ms => .ok (.mapping ms)
  | j =>
    match itemsOf? j with
    | some items => do return .mapping (Assoc.lastWins (← entriesFrom 0 items))
    | none => .error (.mismatch (.notIterable j.typeName))

/-- The zone that a value names, if it is not null. -/
def zoneOf : Json → Except Failure Datum
  | .null => .ok .null
  | .str s =>
    match Zone.ofName? s with
    | some z => .ok (.zone z)
    | none => .error (.unknownZone (.str s))
  | j => .error (.unknownZone j)

/-- The value of a field that is present. Only mappings and zones are read as what they are
declared to be. -/
def read (m : Member) : FieldType → Except Failure Datum
  | .mapping => mappingOf m.raw
  | .zone => zoneOf m.raw
  | _ => m.reading

/-- The value of a field that is present, or its default; nothing for a field without either. -/
def readField? (members : List Member) (f : Field) : Except Failure (Option Datum) :=
  match find? members f.name with
  | some m => some <$> m.read f.type
  | none => .ok f.default?

/-- The names of the fields that have no value. -/
def missing (fields : List Field) (values : List (Option Datum)) : List String :=
  ((fields.zip values).filter fun (_, v) ↦ v.isNone).map fun (f, _) ↦ f.name

/-- The node that the members of a serialized one describe. -/
def toNode (members : List Member) : Except Failure Datum :=
  match raw? members "_type" with
  | .null => .error .untypedNode
  | .str s =>
    match Kind.ofName? s with
    | none => .error (.unknownKind (.str s))
    | some k => do
      let values ← k.fields.mapM (readField? members)
      match missing k.fields values with
      | [] => return .node k (values.map fun v ↦ v.getD .null)
      | names => throw (.missingFields k.name names)
  | .arr items => .error (.mismatch (.notKey (Json.arr items).typeName))
  | .obj ms => .error (.mismatch (.notKey (Json.obj ms).typeName))
  | name => .error (.unknownKind name)

/-- The value of a member that has to be there. -/
def need (members : List Member) (name : String) : Except Failure Json :=
  match find? members name with
  | some m => .ok m.raw
  | none => .error (.missingKey name)

/-- What the members of a mapping stand for: a position, a node or plain data. -/
def toDatum (members : List Member) : Except Failure Datum :=
  match raw? members "_type" with
  | .null => .ok (.mapping (members.map fun m ↦ (m.name, m.raw)))
  | .str "SourceLocation" => do
    let line ← need members "lineno"
    let column ← need members "col_offset"
    return .position line column (raw? members "source_file")
  | _ => toNode members

end Member

namespace Datum

mutual

/-- What a value reads as. -/
def ofJson : Json → Except Failure Datum
  | .null => .ok .null
  | .bool b => .ok (.bool b)
  | .int n => .ok (.int n)
  | .str s => .ok (.str s)
  | .arr items => .seq <$> ofItems items
  | .obj ms => Member.toDatum (membersOf ms)
termination_by structural j => j

/-- What the items of an array read as. -/
def ofItems : List Json → Except Failure (List Datum)
  | [] => .ok []
  | item :: items => do
    let first ← ofJson item
    return first :: (← ofItems items)
termination_by structural js => js

/-- The members of a mapping with what their values read as. -/
def membersOf : List (String × Json) → List Member
  | [] => []
  | (name, value) :: ms => ⟨name, value, ofJson value⟩ :: membersOf ms
termination_by structural ms => ms

end

end Datum

namespace Record

/-- The node that a serialized tree describes. -/
def ofJson : Json → Except Failure Datum
  | .obj ms => Member.toNode (Datum.membersOf ms)
  | _ => .error .untypedNode

/-- The name of the kind of a value. -/
def kindName : Datum → String
  | .node kind _ => kind.name
  | _ => ""

/-- The document that a text of JSON holds. -/
def parseDocument (text : String) : Except Failure Datum :=
  match Json.parse text with
  | none => .error .malformedJson
  | some j => do
    match ← ofJson j with
    | .node .document values => return .node .document values
    | d => throw (.notDocument (kindName d))

/-- A record as a text of JSON. -/
def print (indent : Option Nat) (d : Datum) : String := Json.text indent d.toJson

end Record

end Typeset

import Typeset.Failure

/-!
# Operations on values of any type

Going over the items of a value, taking a pair apart, looking a value up as a key. Each operation
fails in its own words where it has no use for a value.
-/

namespace Typeset

/-- What is wrong with a JSON value as a key: lists and mappings are none. -/
def Json.keyFault? (j : Json) : Option Failure :=
  (Datum.changeable? j).map fun type ↦ .mismatch (.notKey type)

/-- What is wrong with a JSON value in which a text is searched for. -/
def Json.containerFault? : Json → Option Failure
  | .str _ | .arr _ | .obj _ => none
  | j => some (.mismatch (.notContainer j.typeName))

namespace Datum

/-- What is wrong with a value as a key. -/
def keyFault? (d : Datum) : Option Failure := d.unkeyed?.map fun type ↦ .mismatch (.notKey type)

/-- What is wrong with a value whose items are gone over. -/
def iterateFault? (d : Datum) : Option Failure :=
  if d.items?.isSome then none else some (.mismatch (.notIterable d.typeName))

/-- What is wrong with a value whose items are counted. -/
def lengthFault? (d : Datum) : Option Failure :=
  if d.items?.isSome then none else some (.mismatch (.noLength d.typeName))

/-- What is wrong with a value as a pair. -/
def pairFault? (d : Datum) : Option Failure :=
  match d.items? with
  | some [_, _] => none
  | some items => some (.notTwo items.length)
  | none => some (.mismatch (.notPair d.typeName))

/-- What is wrong with a value whose items are listed among others and are to be pairs. -/
def pairsFault? (d : Datum) : Option Failure :=
  match d.items? with
  | some items => items.findSome? pairFault?
  | none => some (.mismatch (.notListable d.typeName))

/-- What is wrong with a value among whose entries one is looked up by name. -/
def entriesFault? : Datum → Option Failure
  | .mapping _ => none
  | .str _ => some (.mismatch .textEntries)
  | .seq items => some (.mismatch (.numberedEntries (Datum.seq items).typeName))
  | d => some (.mismatch (.noEntries d.typeName))

/-- What is wrong with a value to which a number is added. -/
def sumFault? (operator : String) (d : Datum) : Option Failure :=
  match d with
  | .int _ | .bool _ => none
  | .str _ | .seq _ => some (.mismatch (.notConcatenable d.typeName "int"))
  | _ => some (.mismatch (.notOperand operator d.typeName "int"))

/-- What is wrong with a value in which a text is searched for. -/
def containerFault? (d : Datum) : Option Failure :=
  if d.items?.isSome then none else some (.mismatch (.notContainer d.typeName))

/-- What is wrong with a value that is to be a text to search in. -/
def textFault? (d : Datum) : Option Failure :=
  if d.text?.isSome then none else some (.mismatch (.notText d.typeName))

end Datum

end Typeset

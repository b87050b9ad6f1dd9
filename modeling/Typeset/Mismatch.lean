/-!
# Mismatches: values of types that an operation has no use for

Every operation that needs a value of a certain type says so in words of its own. Types are named
as messages name them.
-/

namespace Typeset

/-- What a value of some type is no good for. -/
inductive Mismatch where
  /-- It has no items to go over. -/
  | notIterable (type : String)
  /-- It is no text to search in. -/
  | notText (type : String)
  /-- It stands among texts that are to be put together. -/
  | notJoinable (index : Nat) (type : String)
  /-- It does not say how often to repeat a text. -/
  | notFactor (type : String)
  /-- It is not ordered with another value. -/
  | notComparable (left right : String)
  /-- It has no length. -/
  | noLength (type : String)
  /-- It can be no key. -/
  | notKey (type : String)
  /-- It contains nothing. -/
  | notContainer (type : String)
  /-- It is no path. -/
  | notPath (type : String)
  /-- It has no entries. -/
  | noEntries (type : String)
  /-- Its entries have numbers and no names. -/
  | numberedEntries (type : String)
  /-- It is a text, whose characters have numbers and no names. -/
  | textEntries
  /-- It is no operand for a number. -/
  | notOperand (operator left right : String)
  /-- It is a sequence, which takes only its like behind it. -/
  | notConcatenable (left right : String)
  /-- It is no pair to take apart. -/
  | notPair (type : String)
  /-- It has no items to list among others. -/
  | notListable (type : String)
  /-- It cannot stand in place of a piece of text. -/
  | notReplacement (type : String)
  /-- An item, counted from zero, is no entry of a mapping. -/
  | notEntry (index : Nat)
deriving DecidableEq, Repr

namespace Mismatch

/-- The wording of a mismatch. -/
def message : Mismatch → String
  | .notIterable type => "'" ++ type ++ "' object is not iterable"
  | .notText type => "expected string or bytes-like object, got '" ++ type ++ "'"
  | .notJoinable index type =>
    "sequence item " ++ toString index ++ ": expected str instance, " ++ type ++ " found"
  | .notFactor type => "can't multiply sequence by non-int of type '" ++ type ++ "'"
  | .notComparable left right =>
    "'>' not supported between instances of '" ++ left ++ "' and '" ++ right ++ "'"
  | .noLength type => "object of type '" ++ type ++ "' has no len()"
  | .notKey type => "unhashable type: '" ++ type ++ "'"
  | .notContainer type => "argument of type '" ++ type ++ "' is not iterable"
  | .notPath type => "expected str, bytes or os.PathLike object, not " ++ type
  | .noEntries type => "'" ++ type ++ "' object is not subscriptable"
  | .numberedEntries type => type ++ " indices must be integers or slices, not str"
  | .textEntries => "string indices must be integers, not 'str'"
  | .notOperand operator left right =>
    "unsupported operand type(s) for " ++ operator ++ ": '" ++ left ++ "' and '" ++ right ++ "'"
  | .notConcatenable left right =>
    "can only concatenate " ++ left ++ " (not \"" ++ right ++ "\") to " ++ left
  | .notPair type => "cannot unpack non-iterable " ++ type ++ " object"
  | .notListable type => "Value after * must be an iterable, not " ++ type
  | .notReplacement type => "replace() argument 2 must be str, not " ++ type
  | .notEntry index =>
    "cannot convert dictionary update sequence element #" ++ toString index ++ " to a sequence"

end Mismatch

end Typeset

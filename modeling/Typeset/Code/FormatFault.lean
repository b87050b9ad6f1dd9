/-!
# Faults of label formats

Why a format gives no text for a label. `FormatFault.isTypeFault` tells whether the label, rather
than the format, is at fault.
-/

namespace Typeset

/-- Why a format gives no text for a label. -/
inductive FormatFault where
  /-- The format has no place for the label. -/
  | unused
  /-- The format has more places than there are labels. -/
  | exhausted
  /-- The format ends inside a placeholder. -/
  | incomplete
  /-- A placeholder is of no known kind; the position counts characters from zero. -/
  | unsupported (conversion : Char) (position : Nat)
  /-- The width of a placeholder is beyond all bounds. -/
  | widthTooBig
  /-- The precision of a placeholder is beyond all bounds. -/
  | precisionTooBig
  /-- A placeholder asks for a label by name. -/
  | namedPlaceholder
  /-- A width or a precision is to be taken from a label that is no number. -/
  | starNeedsNumber
  /-- The label is not a single character. -/
  | needsCharacter
  /-- The label is no number. -/
  | needsNumber (conversion : Char) (type : String)
  /-- The label is no whole number. -/
  | needsInteger (conversion : Char) (type : String)
  /-- The label is no number with a fraction. -/
  | needsReal (type : String)
deriving DecidableEq, Repr

namespace FormatFault

/-- The character as messages show it. -/
def shownChar (c : Char) : Char := if 31 ≤ c.toNat ∧ c.toNat ≤ 126 then c else '?'

/-- The wording of a fault. -/
def message : FormatFault → String
  | .unused => "not all arguments converted during string formatting"
  | .exhausted => "not enough arguments for format string"
  | .incomplete => "incomplete format"
  | .unsupported conversion position =>
    "unsupported format character '" ++ String.singleton (shownChar conversion) ++ "' (0x" ++
      String.ofList (Nat.toDigits 16 conversion.toNat) ++ ") at index " ++ toString position
  | .widthTooBig => "width too big"
  | .precisionTooBig => "precision too big"
  | .namedPlaceholder => "format requires a mapping"
  | .starNeedsNumber => "* wants int"
  | .needsCharacter => "%c requires int or char"
  | .needsNumber conversion type =>
    "%" ++ String.singleton conversion ++ " format: a real number is required, not " ++ type
  | .needsInteger conversion type =>
    "%" ++ String.singleton conversion ++ " format: an integer is required, not " ++ type
  | .needsReal type => "must be real number, not " ++ type

/-- The label is at fault rather than the format. -/
def isTypeFault : FormatFault → Bool
  | .incomplete | .unsupported .. | .widthTooBig | .precisionTooBig => false
  | _ => true

end FormatFault

end Typeset

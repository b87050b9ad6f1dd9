import Typeset.Unicode.Span

/-!
# Texts that are numbers

A number may have a comparison sign, a sign and a currency in front, separators and blanks among
its digits, an exponent, and a percent sign at its end.
-/

namespace Typeset.Text

open Unicode

/-- The text without its first character, if that is of the class. -/
def dropOne (p : Char → Bool) : List Char → List Char
  | [] => []
  | c :: cs => if p c then cs else c :: cs

/-- A comparison sign. -/
def isComparison (c : Char) : Bool := c == '<' || c == '>'

/-- A plus or a minus sign. -/
def isSign (c : Char) : Bool := c == '+' || c == '-'

/-- The sign of a currency. -/
def isCurrency (c : Char) : Bool := c == '$' || c == '€' || c == '£'

/-- What may stand among the digits of a number. -/
def isNumberChar (c : Char) : Bool := isDecimal c || c == '.' || c == ',' || isBlank c

/-- The mark of an exponent. -/
def isExponentMark (c : Char) : Bool := c == 'e' || c == 'E'

/-- The text behind an exponent; one without an exponent is left as it is, and a mark without
digits makes no exponent. -/
def afterExponent (cs : List Char) : List Char :=
  match cs with
  | [] => []
  | c :: rest =>
    if isExponentMark c then
      let digits := dropOne isSign rest
      if (digits.takeWhile isDecimal).isEmpty then cs else digits.dropWhile isDecimal
    else cs

/-- The text is a number. -/
def isNumberChars (cs : List Char) : Bool :=
  match dropOne isCurrency (dropOne isSign (dropOne isComparison cs)) with
  | [] => false
  | c :: rest =>
    isDecimal c &&
      (dropOne (· == '%') ((afterExponent (rest.dropWhile isNumberChar)).dropWhile isBlank)).isEmpty

/-- The text is a number. -/
def isNumber (t : String) : Bool := isNumberChars t.toList

end Typeset.Text

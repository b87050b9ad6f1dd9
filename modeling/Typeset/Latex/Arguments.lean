import Typeset.Latex.Command

/-!
# Key and value arguments

Pairs without a value are left out and the others keep their order.
-/

namespace Typeset.Latex

/-- A pair as it is printed, if it has a value. -/
def argument? : String × Option String → Option String
  | (_, none) | (_, some "") => none
  | (key, some value) => some (key ++ "=" ++ braced value)

/-- Pairs with a separator between them. -/
def argumentsWith (separator : String) (pairs : List (String × Option String)) : String :=
  String.intercalate separator (pairs.filterMap argument?)

/-- Pairs on one line. -/
def inlineArguments (pairs : List (String × Option String)) : String := argumentsWith "," pairs

/-- Pairs on a line each. -/
def stackedArguments (pairs : List (String × Option String)) : String :=
  argumentsWith ",\n   " pairs

/-- A text between square brackets, nothing for an empty one. -/
def bracketed (t : String) : String := if t.isEmpty then "" else "[" ++ t ++ "]"

/-- Pairs as the optional argument of a command. -/
def options (pairs : List (String × Option String)) : String := bracketed (inlineArguments pairs)

end Typeset.Latex

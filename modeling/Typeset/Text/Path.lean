import Typeset.Text.Lines

/-!
# File paths

The suffix of a path with `/` between its components.
-/

namespace Typeset.Text

/-- The last component of a path, empty ones and `.` passed over. -/
def fileName (path : List Char) : List Char :=
  (((pieces (· == '/') path).filter fun piece ↦ piece ≠ [] ∧ piece ≠ ['.']).getLast?).getD []

/-- The suffix of a file name: its last dot and what follows, unless the dot is its first or its
last character. -/
def suffixOf (name : List Char) : List Char :=
  match name.reverse.takeWhile (· != '.'), name.reverse.dropWhile (· != '.') with
  | c :: ending, '.' :: _ :: _ => '.' :: (c :: ending).reverse
  | _, _ => []

/-- The suffix of a path's last component, with its dot. -/
def pathSuffix (path : String) : String := .ofList (suffixOf (fileName path.toList))

end Typeset.Text

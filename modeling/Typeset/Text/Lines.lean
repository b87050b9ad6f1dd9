import Typeset.Unicode.Span

/-!
# Lines and words

`lines` keeps empty pieces, so joining the lines again gives the text; `words` drops them.
-/

namespace Typeset.Text

open Unicode

/-- A character put in front of the first of some pieces. -/
def consFirst (c : Char) : List (List Char) → List (List Char)
  | [] => [[c]]
  | piece :: pieces => (c :: piece) :: pieces

/-- The pieces of a text between separators, empty ones included. -/
def pieces (separates : Char → Bool) : List Char → List (List Char)
  | [] => [[]]
  | c :: cs =>
    if separates c then [] :: pieces separates cs else consFirst c (pieces separates cs)

@[simp] theorem pieces_nil (p : Char → Bool) : pieces p [] = [[]] := rfl

theorem pieces_ne_nil (p : Char → Bool) (cs : List Char) : pieces p cs ≠ [] := by
  cases cs with
  | nil => simp
  | cons c cs =>
    simp only [pieces]
    split
    · simp
    · cases pieces p cs <;> simp [consFirst]

/-- The lines of a text; a final line feed opens an empty last line. -/
def lines (t : String) : List String := (pieces (· == '\n') t.toList).map .ofList

/-- Lines put together again. -/
def unlines (ls : List String) : String := String.intercalate "\n" ls

/-- The words of a text: its pieces between runs of white space. -/
def words (t : String) : List String :=
  ((pieces isBlank t.toList).filter fun piece ↦ !piece.isEmpty).map .ofList

/-- The text with every run of white space made one space and none at its ends. -/
def collapseBlanks (t : String) : String := String.intercalate " " (words t)

/-- As many spaces as the number says, none below zero. -/
def spaces (n : Int) : String := .ofList (List.replicate n.toNat ' ')

/-- As many line feeds as the number says, none below zero. -/
def newlines (n : Int) : String := .ofList (List.replicate n.toNat '\n')

end Typeset.Text

import Typeset.Text.Trim

/-!
# Escapes

Texts made safe for running text, for URL arguments and for label keys. Each is one pass over the
characters, so what an escape writes is never escaped again.
-/

namespace Typeset.Latex

/-- What stands for a character in running text. -/
def escapeChar : Char → List Char
  | '\\' => "\\textbackslash{}".toList
  | '{' => ['\\', '{']
  | '}' => ['\\', '}']
  | '$' => ['\\', '$']
  | '&' => ['\\', '&']
  | '#' => ['\\', '#']
  | '%' => ['\\', '%']
  | '_' => ['\\', '_']
  | '~' => "\\textasciitilde{}".toList
  | '^' => "\\textasciicircum{}".toList
  | c => [c]

/-- The escaped characters of running text; three dots in a row become an ellipsis. -/
def escapeChars : List Char → List Char
  | [] => []
  | '.' :: '.' :: '.' :: cs => "\\ldots{}".toList ++ escapeChars cs
  | c :: cs => escapeChar c ++ escapeChars cs

/-- Running text, escaped. -/
def escapeText (t : String) : String := .ofList (escapeChars t.toList)

/-- Code for a typewriter font, escaped; dots keep their shape. -/
def escapeCode (t : String) : String := .ofList (t.toList.flatMap escapeChar)

/-- What stands for a character in the argument of a URL command. -/
def escapeUrlChar : Char → List Char
  | '%' => ['\\', '%']
  | '#' => ['\\', '#']
  | '\\' => ['\\', '\\']
  | c => [c]

/-- A URL, escaped. -/
def escapeUrl (t : String) : String := .ofList (t.toList.flatMap escapeUrlChar)

/-- A character that a label key may hold: an ASCII letter or digit, or one of `_ : . -`. -/
def isKeyChar (c : Char) : Bool :=
  c.isAlphanum || c == '_' || c == ':' || c == '.' || c == '-'

/-- The characters with each run that a label key may not hold made one hyphen. The flag tells
that the character before was such a one. -/
def joinUnsafe : Bool → List Char → List Char
  | _, [] => []
  | inRun, c :: cs =>
    if isKeyChar c then c :: joinUnsafe false cs
    else if inRun then joinUnsafe true cs
    else '-' :: joinUnsafe true cs

/-- The characters of a label key. -/
def keyChars (cs : List Char) : List Char := Text.trim (· == '-') (joinUnsafe false cs)

/-- A text made a label key. -/
def labelKey (t : String) : String := .ofList (keyChars t.toList)

end Typeset.Latex

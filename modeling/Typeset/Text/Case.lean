import Typeset.Unicode.CaseMap

/-!
# Upper and lower case

Texts are mapped character by character, except that a capital sigma at the end of a word becomes
a final small sigma.
-/

namespace Typeset.Text

open Unicode

/-- The lower-case form of the characters after `before`, which holds the nearest one first. -/
def lowerAfter (before : List Char) : List Char → List Char
  | [] => []
  | c :: after =>
    (if c = 'Σ' then [if endsWord before after then 'ς' else 'σ'] else lowerOf c) ++
      lowerAfter (c :: before) after

/-- The text in lower case. -/
def lower (t : String) : String := .ofList (lowerAfter [] t.toList)

/-- The text in upper case. -/
def upper (t : String) : String := .ofList (t.toList.flatMap upperOf)

end Typeset.Text

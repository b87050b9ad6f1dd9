import Typeset.Json.Basic

/-!
# Printing JSON

Texts are ASCII. The members of an object stand in the order of their keys, so the text depends
on the value alone. With an indentation each item stands on a line of its own.
-/

namespace Typeset.Json

/-- A member put into members that are in order, behind those whose keys are not greater. -/
def insertSorted (member : String × Json) : List (String × Json) → List (String × Json)
  | [] => [member]
  | m :: rest =>
    if m.1 ≤ member.1 then m :: insertSorted member rest else member :: m :: rest

mutual

/-- The value with the members of every object in order. -/
def sorted : Json → Json
  | .arr items => .arr (sortedItems items)
  | .obj members => .obj (sortedMembers members)
  | j => j
termination_by structural j => j

/-- Items, each in order. -/
def sortedItems : List Json → List Json
  | [] => []
  | item :: items => item.sorted :: sortedItems items
termination_by structural js => js

/-- Members in order, each with its value in order. -/
def sortedMembers : List (String × Json) → List (String × Json)
  | [] => []
  | (key, value) :: members => insertSorted (key, value.sorted) (sortedMembers members)
termination_by structural ms => ms

end

/-- The escape of a code unit. -/
def unitEscape (n : Nat) : List Char := '\\' :: 'u' :: Text.hex 4 n

/-- A character in a string. -/
def charText (c : Char) : List Char :=
  match c with
  | '"' => ['\\', '"']
  | '\\' => ['\\', '\\']
  | '\n' => ['\\', 'n']
  | '\r' => ['\\', 'r']
  | '\t' => ['\\', 't']
  | '\x08' => ['\\', 'b']
  | '\x0c' => ['\\', 'f']
  | c =>
    let n := c.toNat
    if 0x20 ≤ n ∧ n ≤ 0x7E then [c]
    else if n < 0x10000 then unitEscape n
    else
      unitEscape (0xD800 + (n - 0x10000) / 0x400) ++ unitEscape (0xDC00 + (n - 0x10000) % 0x400)

/-- A string between quotes. -/
def stringText (s : String) : List Char := '"' :: s.toList.flatMap charText ++ ['"']

/-- What stands between brackets and items at a level of nesting. -/
def lineBreak (indent : Option Nat) (level : Nat) : List Char :=
  match indent with
  | none => []
  | some n => '\n' :: List.replicate (n * level) ' '

/-- What stands between two items. -/
def separator (indent : Option Nat) (level : Nat) : List Char :=
  match indent with
  | none => [',', ' ']
  | some _ => ',' :: lineBreak indent level

mutual

/-- The text of a value at a level of nesting. -/
def chars (indent : Option Nat) (level : Nat) : Json → List Char
  | .null => ['n', 'u', 'l', 'l']
  | .bool true => ['t', 'r', 'u', 'e']
  | .bool false => ['f', 'a', 'l', 's', 'e']
  | .int n => (toString n).toList
  | .str s => stringText s
  | .arr [] => ['[', ']']
  | .arr (item :: items) =>
    '[' :: lineBreak indent (level + 1) ++ chars indent (level + 1) item ++
      itemChars indent (level + 1) items ++ lineBreak indent level ++ [']']
  | .obj [] => ['{', '}']
  | .obj ((key, value) :: members) =>
    '{' :: lineBreak indent (level + 1) ++ stringText key ++ [':', ' '] ++
      chars indent (level + 1) value ++ memberChars indent (level + 1) members ++
      lineBreak indent level ++ ['}']
termination_by structural j => j

/-- The text of further items, a separator before each. -/
def itemChars (indent : Option Nat) (level : Nat) : List Json → List Char
  | [] => []
  | item :: items =>
    separator indent level ++ chars indent level item ++ itemChars indent level items
termination_by structural js => js

/-- The text of further members, a separator before each. -/
def memberChars (indent : Option Nat) (level : Nat) : List (String × Json) → List Char
  | [] => []
  | (key, value) :: members =>
    separator indent level ++ stringText key ++ [':', ' '] ++ chars indent level value ++
      memberChars indent level members
termination_by structural ms => ms

end

/-- The text of a value, its members in order. -/
def text (indent : Option Nat) (j : Json) : String := .ofList (chars indent 0 j.sorted)

end Typeset.Json

import Typeset.Assoc
import Typeset.Json.Basic

/-!
# Reading JSON

A reader takes a value off the front of a text and gives it with the rest. Nested values are read
with fuel, and the length of the text is always enough. Where a key repeats in an object the last
value counts.
-/

namespace Typeset.Json

/-- White space between the parts of a text. -/
def isSpace (c : Char) : Bool := c == ' ' || c == '\t' || c == '\n' || c == '\r'

/-- The text after leading white space. -/
def skipSpaces (cs : List Char) : List Char := cs.dropWhile isSpace

/-- The value of a digit to base sixteen. -/
def hexValue? (c : Char) : Option Nat :=
  if '0' ≤ c ∧ c ≤ '9' then some (c.toNat - 0x30)
  else if 'a' ≤ c ∧ c ≤ 'f' then some (c.toNat - 0x61 + 10)
  else if 'A' ≤ c ∧ c ≤ 'F' then some (c.toNat - 0x41 + 10)
  else none

/-- The code unit that four digits write. -/
def unit? (a b c d : Char) : Option Nat := do
  return (((← hexValue? a) * 16 + (← hexValue? b)) * 16 + (← hexValue? c)) * 16 + (← hexValue? d)

/-- The unit opens a surrogate pair. -/
def isHighSurrogate (n : Nat) : Bool := 0xD800 ≤ n && n ≤ 0xDBFF

/-- The unit closes a surrogate pair. -/
def isLowSurrogate (n : Nat) : Bool := 0xDC00 ≤ n && n ≤ 0xDFFF

/-- The character that a surrogate pair stands for. -/
def ofSurrogates (high low : Nat) : Char :=
  Char.ofNat (0x10000 + (high - 0xD800) * 0x400 + (low - 0xDC00))

/-- The character of a short escape. -/
def ofEscape? : Char → Option Char
  | '"' => some '"'
  | '\\' => some '\\'
  | '/' => some '/'
  | 'b' => some '\x08'
  | 'f' => some '\x0c'
  | 'n' => some '\n'
  | 'r' => some '\r'
  | 't' => some '\t'
  | _ => none

/-- A character put in front of a reading. -/
def consChar (c : Char) (r : List Char × List Char) : List Char × List Char := (c :: r.1, r.2)

/-- The characters of a string after its opening quote, and the rest behind the closing one.
A surrogate without its partner is no character and fails. -/
def readChars : List Char → Option (List Char × List Char)
  | [] => none
  | '"' :: rest => some ([], rest)
  | '\\' :: 'u' :: a :: b :: c :: d :: rest =>
    match unit? a b c d with
    | none => none
    | some n =>
      if isHighSurrogate n then
        match rest with
        | '\\' :: 'u' :: e :: f :: g :: h :: rest =>
          match unit? e f g h with
          | none => none
          | some low =>
            if isLowSurrogate low then (readChars rest).map (consChar (ofSurrogates n low))
            else none
        | _ => none
      else if isLowSurrogate n then none
      else (readChars rest).map (consChar (.ofNat n))
  | '\\' :: e :: rest =>
    match ofEscape? e with
    | some c => (readChars rest).map (consChar c)
    | none => none
  | c :: rest => if c.toNat < 0x20 ∨ c = '\\' then none else (readChars rest).map (consChar c)
termination_by structural cs => cs

/-- The number that some digits write. -/
def natOf (digits : List Char) : Nat :=
  digits.foldl (fun n c ↦ n * 10 + (c.toNat - 0x30)) 0

/-- A natural number without leading zeros. -/
def readNat : List Char → Option (Nat × List Char)
  | '0' :: rest => some (0, rest)
  | cs =>
    match cs.takeWhile Char.isDigit with
    | [] => none
    | digits => some (natOf digits, cs.dropWhile Char.isDigit)

/-- A whole number. -/
def readInt : List Char → Option (Int × List Char)
  | '-' :: cs => (readNat cs).map fun (n, rest) ↦ (-(n : Int), rest)
  | cs => (readNat cs).map fun (n, rest) ↦ ((n : Int), rest)

/-- An object of members in the order of the text. -/
def ofMembers (members : List (String × Json)) : Json := .obj (Assoc.lastWins members)

mutual

/-- A value at the front of the text. -/
def readValue : Nat → List Char → Option (Json × List Char)
  | 0, _ => none
  | fuel + 1, cs =>
    match cs with
    | 'n' :: 'u' :: 'l' :: 'l' :: rest => some (.null, rest)
    | 't' :: 'r' :: 'u' :: 'e' :: rest => some (.bool true, rest)
    | 'f' :: 'a' :: 'l' :: 's' :: 'e' :: rest => some (.bool false, rest)
    | '"' :: rest => (readChars rest).map fun (s, rest) ↦ (.str (.ofList s), rest)
    | '[' :: rest =>
      match skipSpaces rest with
      | ']' :: rest => some (.arr [], rest)
      | rest => (readItems fuel rest).map fun (items, rest) ↦ (.arr items, rest)
    | '{' :: rest =>
      match skipSpaces rest with
      | '}' :: rest => some (.obj [], rest)
      | rest => (readMembers fuel rest).map fun (members, rest) ↦ (ofMembers members, rest)
    | _ => (readInt cs).map fun (n, rest) ↦ (.int n, rest)
termination_by structural fuel => fuel

/-- The items of an array up to its closing bracket; there is at least one. -/
def readItems : Nat → List Char → Option (List Json × List Char)
  | 0, _ => none
  | fuel + 1, cs =>
    match readValue fuel cs with
    | none => none
    | some (item, rest) =>
      match skipSpaces rest with
      | ']' :: rest => some ([item], rest)
      | ',' :: rest =>
        (readItems fuel (skipSpaces rest)).map fun (items, rest) ↦ (item :: items, rest)
      | _ => none
termination_by structural fuel => fuel

/-- The members of an object up to its closing brace; there is at least one. -/
def readMembers : Nat → List Char → Option (List (String × Json) × List Char)
  | 0, _ => none
  | fuel + 1, cs =>
    match cs with
    | '"' :: rest =>
      match readChars rest with
      | none => none
      | some (key, rest) =>
        match skipSpaces rest with
        | ':' :: rest =>
          match readValue fuel (skipSpaces rest) with
          | none => none
          | some (value, rest) =>
            match skipSpaces rest with
            | '}' :: rest => some ([(.ofList key, value)], rest)
            | ',' :: rest =>
              (readMembers fuel (skipSpaces rest)).map fun (members, rest) ↦
                ((.ofList key, value) :: members, rest)
            | _ => none
        | _ => none
    | _ => none
termination_by structural fuel => fuel

end

/-- The value a text writes, if it writes one and nothing else. -/
def parse (text : String) : Option Json :=
  let cs := skipSpaces text.toList
  match readValue (cs.length + 1) cs with
  | some (value, rest) => if (skipSpaces rest).isEmpty then some value else none
  | none => none

end Typeset.Json

import Typeset.Unicode.Printable

/-!
# Quoted texts

How a text is shown in messages: between single quotes, or between double quotes if it holds a
single quote and no double one. The backslash, the quote in use and what cannot be printed are
written as escapes.
-/

namespace Typeset.Text

open Unicode

/-- A digit to a base up to sixteen. -/
def hexDigit (n : Nat) : Char :=
  if n < 10 then Char.ofNat (0x30 + n) else Char.ofNat (0x61 + (n - 10))

/-- The last digits of a number to base sixteen, as many as the width says. -/
def hex : Nat → Nat → List Char
  | 0, _ => []
  | width + 1, n => hex width (n / 16) ++ [hexDigit (n % 16)]

@[simp] theorem length_hex (width n : Nat) : (hex width n).length = width := by
  induction width generalizing n with
  | zero => rfl
  | succ w ih => simp [hex, ih]

/-- The escape of a character by its number, with two, four or eight digits. -/
def numericEscape (c : Char) : List Char :=
  if c.toNat < 0x100 then '\\' :: 'x' :: hex 2 c.toNat
  else if c.toNat < 0x10000 then '\\' :: 'u' :: hex 4 c.toNat
  else '\\' :: 'U' :: hex 8 c.toNat

/-- A character between two quotes. -/
def quotedChar (quote c : Char) : List Char :=
  if c = '\\' ∨ c = quote then ['\\', c]
  else if c = '\n' then ['\\', 'n']
  else if c = '\t' then ['\\', 't']
  else if c = '\r' then ['\\', 'r']
  else if isPrintable c then [c]
  else numericEscape c

/-- The quote a text is shown with. -/
def quoteFor (cs : List Char) : Char :=
  if cs.contains '\'' && !cs.contains '"' then '"' else '\''

/-- A text as messages show it. -/
def quoted (t : String) : String :=
  let quote := quoteFor t.toList
  .ofList (quote :: t.toList.flatMap (quotedChar quote) ++ [quote])

end Typeset.Text

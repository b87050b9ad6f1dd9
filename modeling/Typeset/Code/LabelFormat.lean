import Typeset.Failure
import Typeset.Tree.Field

/-!
# Label formats

The shape of the marker that names a line of code. A placeholder such as `%s` stands for the label
and `%%` for a percent sign; a format has exactly one place for the label.

A placeholder stands behind a percent sign: flags, the least width, a precision and the kind of
conversion. It puts one value into a text. Texts are cut to the precision, numbers get as many
digits, and both are padded to the width; a width or a precision written as a star is taken from
a value of its own.
-/

namespace Typeset

/-- What stands behind a percent sign. -/
structure Placeholder where
  flags : List Char
  width : Nat
  precision : Option Nat
  conversion : Char
  /-- The number of characters that the placeholder has behind its percent sign. -/
  length : Nat
deriving DecidableEq, Repr

namespace Placeholder

/-- A flag of a placeholder. -/
def isFlag (c : Char) : Bool := c == '-' || c == '+' || c == ' ' || c == '#' || c == '0'

/-- A decimal digit of a width or a precision. -/
def isDigit (c : Char) : Bool := '0' ≤ c && c ≤ '9'

/-- The number that digits write. -/
def valueOf (digits : List Char) : Nat :=
  digits.foldl (fun n c ↦ 10 * n + (c.toNat - '0'.toNat)) 0

/-- The bound of a width. -/
def widthBound : Nat := Nat.pow 2 63 - 1

/-- The bound of a precision. -/
def precisionBound : Nat := Nat.pow 2 31 - 1

/-- The number at the front of a text, if there is one: digits up to a bound, or a star for the
next value. The values that are left and the rest of the text come with it. -/
def amount (bound : Nat) (tooBig : FormatFault) (values : List Datum) (cs : List Char) :
    Except FormatFault (Option Int × List Datum × List Char) :=
  match cs with
  | '*' :: rest =>
    match values with
    | [] => .error .exhausted
    | d :: values =>
      match d.number? with
      | some n => .ok (some n, values, rest)
      | none => .error .starNeedsNumber
  | _ =>
    let digits := cs.takeWhile isDigit
    if digits.isEmpty then .ok (none, values, cs)
    else if bound < valueOf digits then .error tooBig
    else .ok (some (valueOf digits), values, cs.dropWhile isDigit)

/-- The precision at the front of a text, which a point begins; a point alone stands for zero. -/
def precisionOf (values : List Datum) (cs : List Char) :
    Except FormatFault (Option Nat × List Datum × List Char) :=
  match cs with
  | '.' :: rest => do
    let (n, values, rest) ← amount precisionBound .precisionTooBig values rest
    return (some (n.getD 0).toNat, values, rest)
  | _ => .ok (none, values, cs)

/-- The text without the mark of a size at its front, which means nothing. -/
def dropSize : List Char → List Char
  | c :: cs => if c == 'h' || c == 'l' || c == 'L' then cs else c :: cs
  | [] => []

/-- The placeholder at the front of a text behind a percent sign, and the values that are left for
it. A negative width stands for alignment to the left. -/
def read (values : List Datum) (cs : List Char) : Except FormatFault (Placeholder × List Datum) :=
  if cs.head? = some '(' then .error .namedPlaceholder
  else do
    let flags := cs.takeWhile isFlag
    let (width, values, rest) ←
      amount widthBound .widthTooBig values (cs.dropWhile isFlag)
    let (precision, values, rest) ← precisionOf values rest
    match dropSize rest with
    | [] => throw .incomplete
    | conversion :: rest =>
      let width := width.getD 0
      return (⟨if width < 0 then '-' :: flags else flags, width.natAbs, precision, conversion,
        cs.length - rest.length⟩, values)

/-- The placeholder has a flag. -/
def has (p : Placeholder) (flag : Char) : Bool := p.flags.contains flag

/-- Characters padded to the width with spaces. Nothing is padded beyond the limit. -/
def pad (p : Placeholder) (limit : Nat) (cs : List Char) : List Char :=
  let gap := List.replicate (min p.width limit - cs.length) ' '
  if p.has '-' then cs ++ gap else gap ++ cs

/-- A text cut to the precision and padded. -/
def textOf (p : Placeholder) (limit : Nat) (t : String) : List Char :=
  p.pad limit ((p.precision.map fun n ↦ t.toList.take n).getD t.toList)

/-- A shown value with escapes for all characters that are not ASCII. -/
def asciiOf (t : String) : String :=
  .ofList (t.toList.flatMap fun c ↦ if c.toNat < 0x80 then [c] else Text.numericEscape c)

/-- The base that a conversion writes numbers to. -/
def base (p : Placeholder) : Nat :=
  match p.conversion with
  | 'o' => 8
  | 'x' | 'X' => 16
  | _ => 10

/-- What tells the base of a number, if the placeholder asks for it. -/
def baseMark (p : Placeholder) : List Char :=
  if p.has '#' && p.base != 10 then ['0', p.conversion] else []

/-- The sign of a number. -/
def signOf (p : Placeholder) (n : Int) : List Char :=
  if n < 0 then ['-'] else if p.has '+' then ['+'] else if p.has ' ' then [' '] else []

/-- The digits of a number, as many as the precision says. -/
def digitsOf (p : Placeholder) (limit : Nat) (n : Int) : List Char :=
  let digits := Nat.toDigits p.base n.natAbs
  let digits := if p.conversion = 'X' then digits.map Char.toUpper else digits
  List.replicate (min (p.precision.getD 0) limit - digits.length) '0' ++ digits

/-- A number, padded with zeros behind its sign or with spaces. -/
def numberOf (p : Placeholder) (limit : Nat) (n : Int) : List Char :=
  let start := p.signOf n ++ p.baseMark
  let digits := p.digitsOf limit n
  if p.has '0' && !p.has '-' then
    start ++ List.replicate (min p.width limit - (start ++ digits).length) '0' ++ digits
  else p.pad limit (start ++ digits)

/-- The character that a value is, or that it numbers. -/
def charOf? : Datum → Option Char
  | .str s =>
    match s.toList with
    | [c] => some c
    | _ => none
  | d => d.number?.map fun n ↦ .ofNat n.toNat

/-- A value as the placeholder writes it. The position is that of the conversion. -/
def convert (p : Placeholder) (limit position : Nat) (d : Datum) :
    Except FormatFault (List Char) :=
  match p.conversion with
  | 's' => .ok (p.textOf limit d.plain)
  | 'r' => .ok (p.textOf limit d.shown)
  | 'a' => .ok (p.textOf limit (asciiOf d.shown))
  | 'c' =>
    match charOf? d with
    | some c => .ok (p.pad limit [c])
    | none => .error .needsCharacter
  | 'd' | 'i' | 'u' =>
    match d.number? with
    | some n => .ok (p.numberOf limit n)
    | none => .error (.needsNumber p.conversion d.typeName)
  | 'o' | 'x' | 'X' =>
    match d.number? with
    | some n => .ok (p.numberOf limit n)
    | none => .error (.needsInteger p.conversion d.typeName)
  | 'e' | 'E' | 'f' | 'F' | 'g' | 'G' => .error (.needsReal d.typeName)
  | c => .error (.unsupported c position)

end Placeholder

/-! ## Filling a format -/

namespace LabelFormat

/-- What a format gives from a position on, with the values still to be put in. The first number
counts the characters of a placeholder that are still to be passed over, and `limit` says how far
values are padded. -/
def fillFrom (limit : Nat) : Nat → Nat → List Datum → List Char → Except FormatFault (List Char)
  | _, _, values, [] => if values.isEmpty then .ok [] else .error .unused
  | skip + 1, position, values, _ :: cs => fillFrom limit skip (position + 1) values cs
  | 0, position, values, c :: cs =>
    if c ≠ '%' then do return c :: (← fillFrom limit 0 (position + 1) values cs)
    else if cs.head? = some '%' then do
      return '%' :: (← fillFrom limit 1 (position + 1) values cs)
    else do
      let (p, values) ← Placeholder.read values cs
      match values with
      | [] => throw .exhausted
      | d :: values =>
        let text ← p.convert limit (position + p.length) d
        return text ++ (← fillFrom limit p.length (position + 1) values cs)

/-- The values that a label is: those of a sequence, or the label alone. -/
def valuesOf : Datum → List Datum
  | .seq items => items
  | d => [d]

/-- The marker of a label, padded no further than the limit. -/
def fill (limit : Nat) (format : String) (label : Datum) : Except Failure String :=
  match fillFrom limit 0 0 (valuesOf label) format.toList with
  | .ok cs => .ok (.ofList cs)
  | .error f => .error (.labelFormat f)

end LabelFormat

end Typeset

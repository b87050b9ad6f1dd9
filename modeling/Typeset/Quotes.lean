import Typeset.Failure
import Typeset.Json.Entries
import Typeset.Text.Case
import Typeset.Text.Lines
import Typeset.Unicode.Alphanumeric

/-!
# Typographic quotes

Straight quotes are read as marks, which say what role each one plays, and the marks are written
with the delimiters of a language. Reading depends on the text alone: it stops at the first quote
that closes nothing, and otherwise reports the last quote left open.
-/

namespace Typeset.Quotes

open Unicode

/-- The part a straight quote plays. -/
inductive Role where
  | primaryOpening
  | primaryClosing
  | secondaryOpening
  | secondaryClosing
  | apostrophe
deriving DecidableEq, Repr

/-- The name of a role in a table of delimiters. -/
def Role.key : Role → String
  | .primaryOpening => "primary-opening"
  | .primaryClosing => "primary-closing"
  | .secondaryOpening => "secondary-opening"
  | .secondaryClosing => "secondary-closing"
  | .apostrophe => "apostrophe"

/-- A character of the text, or a quote in its role. -/
inductive Mark where
  | plain (c : Char)
  | quote (role : Role)
deriving DecidableEq, Repr

/-- The two levels of quotation. -/
inductive Level where
  | primary
  | secondary
deriving DecidableEq, Repr

/-- A quote after one of these opens. -/
def isOpener (c : Char) : Bool := [' ', '\t', '\n', '(', '[', '{', '-', '/'].contains c

/-- What reading remembers: where it is, the character before, whether that was an opening quote,
and the quotes left open with their positions, the innermost first. -/
structure Reader where
  position : Nat
  before : Option Char
  afterOpening : Bool
  pending : List (Level × Nat)
deriving DecidableEq, Repr

namespace Reader

/-- The reader at the front of a text. -/
def start : Reader := ⟨0, none, false, []⟩

/-- A quote here would open. -/
def opens (r : Reader) : Bool := r.before.all isOpener || r.afterOpening

/-- A single quote here, with `next` after it, stands inside a word. -/
def insideWord (r : Reader) (next : Option Char) : Bool :=
  r.before.any isAlphanumeric && next.any isAlphanumeric

/-- The reader after a character that is no opening quote, with these quotes left open. -/
def past (r : Reader) (c : Char) (pending : List (Level × Nat)) : Reader :=
  ⟨r.position + 1, some c, false, pending⟩

/-- The reader after an opening quote. -/
def opened (r : Reader) (c : Char) (level : Level) : Reader :=
  ⟨r.position + 1, some c, true, (level, r.position) :: r.pending⟩

/-- One character read, with `next` after it: its mark and the reader past it, or nothing for a
quote that closes no quotation. -/
def step (r : Reader) (c : Char) (next : Option Char) : Option (Mark × Reader) :=
  if c = '"' then
    if r.opens then some (.quote .primaryOpening, r.opened c .primary)
    else match r.pending with
      | (.primary, _) :: rest => some (.quote .primaryClosing, r.past c rest)
      | _ => none
  else if c = '\'' then
    if r.insideWord next then some (.quote .apostrophe, r.past c r.pending)
    else if r.opens then some (.quote .secondaryOpening, r.opened c .secondary)
    else match r.pending with
      | (.secondary, _) :: rest => some (.quote .secondaryClosing, r.past c rest)
      | [] => some (.quote .apostrophe, r.past c [])
      | _ => none
  else some (.plain c, r.past c r.pending)

end Reader

/-- The marks of a text up to the first fault, and the position of the fault if there is one. -/
def read (r : Reader) : List Char → List Mark × Option Nat
  | [] => ([], r.pending.head?.map (·.2))
  | c :: cs =>
    match r.step c cs.head? with
    | none => ([], some r.position)
    | some (mark, r') =>
      let (marks, fault) := read r' cs
      (mark :: marks, fault)

/-- The delimiters of a language by the names of their roles. -/
abbrev Delimiters := Texts

/-- What is written for a mark. -/
def write (delimiters : Delimiters) : Mark → Except Failure String
  | .plain c => .ok (.singleton c)
  | .quote role =>
    match delimiters.lookup role.key with
    | some t => .ok t
    | none => .error (.missingKey role.key)

/-- The text written for some marks. -/
def writeAll (delimiters : Delimiters) : List Mark → Except Failure String
  | [] => .ok ""
  | mark :: marks => do
    let first ← write delimiters mark
    let rest ← writeAll delimiters marks
    return first ++ rest

/-- The text with typographic quotes. -/
def typographic (delimiters : Delimiters) (text : String) : Except Failure String := do
  let (marks, fault) := read .start text.toList
  let written ← writeAll delimiters marks
  match fault with
  | some position => throw (.unbalancedQuotes text position)
  | none => return written

/-- The delimiters every table falls back to. -/
def english : Delimiters :=
  [("primary-opening", "``"), ("primary-closing", "''"), ("secondary-opening", "`"),
    ("secondary-closing", "'"), ("apostrophe", "'")]

/-- Delimiters by language. -/
def tables : List (String × Delimiters) :=
  [("en", english),
    ("de", [("primary-opening", "\\glqq{}"), ("primary-closing", "\\grqq{}"),
      ("secondary-opening", "\\glq{}"), ("secondary-closing", "\\grq{}"), ("apostrophe", "'")]),
    ("fr", [("primary-opening", "\\og{}"), ("primary-closing", "\\fg{}"),
      ("secondary-opening", "\\og{}"), ("secondary-closing", "\\fg{}"), ("apostrophe", "'")]),
    ("es", [("primary-opening", "\\guillemotleft{}"), ("primary-closing", "\\guillemotright{}"),
      ("secondary-opening", "``"), ("secondary-closing", "''"), ("apostrophe", "'")])]

/-- Delimiters as a value. -/
def dataOf (delimiters : Delimiters) : Json := .obj (Entries.ofTexts delimiters)

/-- The built-in tables as entries. -/
def builtin : Entries := tables.map fun (language, delimiters) ↦ (language, dataOf delimiters)

/-- The language without its region: what stands before the first hyphen or low line. -/
def primaryTag (language : String) : String :=
  Text.lower (.ofList (language.toList.takeWhile fun c ↦ c != '-' && c != '_'))

/-- The value among tables that holds the delimiters of a language: its own, or those of English,
or the built-in ones. What counts as false is passed over. -/
def tableFor (language : String) (tables : Entries) : Json :=
  ((tables.true? (primaryTag language)).or (tables.true? "en")).getD (dataOf english)

/-- The delimiters that a value holds; one that is no text is left empty. -/
def delimitersOf (table : Json) : Delimiters :=
  table.members.map fun (role, delimiter) ↦ (role, delimiter.text?.getD "")

/-- A quote in its role. -/
def Mark.isQuote : Mark → Bool
  | .plain _ => false
  | .quote _ => true

/-- What is wrong with a value that is to hold delimiters. -/
def entriesFault? : Json → Option Failure
  | .obj _ => none
  | .str _ => some (.mismatch .textEntries)
  | .arr items => some (.mismatch (.numberedEntries (Json.arr items).typeName))
  | j => some (.mismatch (.noEntries j.typeName))

/-- The first delimiter that is no text among those of some marks, of which so many others stand
before them. -/
def delimiterFault? (table : Json) (before : Nat) : List Mark → Option Failure
  | [] => none
  | .plain _ :: marks => delimiterFault? table (before + 1) marks
  | .quote role :: marks =>
    match (table.members.lookup role.key).filter fun delimiter ↦ delimiter.text?.isNone with
    | some delimiter => some (.mismatch (.notJoinable before delimiter.typeName))
    | none => delimiterFault? table (before + 1) marks

/-- The text with typographic quotes, whose delimiters a value of any type is to hold. -/
def typographic? (table : Json) (text : String) : Except Failure String := do
  let marks := (read .start text.toList).1
  if marks.any Mark.isQuote then
    match entriesFault? table with
    | some e => throw e
    | none => pure ()
  let written ← typographic (delimitersOf table) text
  match delimiterFault? table 0 marks with
  | some e => throw e
  | none => return written

end Typeset.Quotes

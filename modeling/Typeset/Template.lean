import Typeset.Failure

/-!
# Templates

A template is read into literal characters and tokens such as `%%BODY%%`; filling it puts a value
in place of every token that has one. The reading depends on the template alone.
-/

namespace Typeset.Template

/-- A literal character or a token by its name. -/
inductive Piece where
  | literal (c : Char)
  | token (name : List Char)
deriving DecidableEq, Repr

/-- A letter of a token's name. -/
def isTokenLetter (c : Char) : Bool := 'A' ≤ c && c ≤ 'Z'

/-- The name of the token at the front of the text. -/
def tokenAt? : List Char → Option (List Char)
  | '%' :: '%' :: cs =>
    match cs.takeWhile isTokenLetter, cs.dropWhile isTokenLetter with
    | name@(_ :: _), '%' :: '%' :: _ => some name
    | _, _ => none
  | _ => none

/-- The pieces of a text. The number counts the characters of a token that are still to be passed
over. -/
def pieces : Nat → List Char → List Piece
  | _, [] => []
  | skip + 1, _ :: cs => pieces skip cs
  | 0, c :: cs =>
    match tokenAt? (c :: cs) with
    | some name => .token name :: pieces (name.length + 3) cs
    | none => .literal c :: pieces 0 cs

/-- A piece as the template has it. -/
def Piece.source : Piece → List Char
  | .literal c => [c]
  | .token name => ['%', '%'] ++ name ++ ['%', '%']

/-- A piece as it is filled in. -/
def Piece.filled (values : List (String × String)) : Piece → List Char
  | .literal c => [c]
  | .token name =>
    match values.lookup (.ofList name) with
    | some value => value.toList
    | none => (Piece.token name).source

/-- The template with the values in place of its tokens. -/
def fill (template : String) (values : List (String × String)) : String :=
  .ofList ((pieces 0 template.toList).flatMap (Piece.filled values))

/-- What is put in place of a token. -/
inductive Value where
  | text (t : String)
  | nothing
  /-- Something that cannot stand in a text, by its type. -/
  | loose (type : String)
deriving DecidableEq, Repr

namespace Value

/-- A JSON value in place of a token; null leaves nothing. -/
def ofJson : Json → Value
  | .str t => .text t
  | .null => .nothing
  | j => .loose j.typeName

/-- A value of any type in place of a token; null leaves nothing. -/
def ofDatum : Datum → Value
  | .str t => .text t
  | .null => .nothing
  | d => .loose d.typeName

/-- The text in place of a token. -/
def toText : Value → String
  | .text t => t
  | .nothing | .loose _ => ""

end Value

/-- Values by the names of their tokens. -/
abbrev Values := List (String × Value)

/-- The first value of some pieces that is no text, given how many texts stand before it. Literal
characters in a row make one text, as the flag says. -/
def valueFault? (values : Values) (before : Nat) (inRun : Bool) : List Piece → Option Failure
  | [] => none
  | .literal _ :: ps => valueFault? values (if inRun then before else before + 1) true ps
  | .token name :: ps =>
    match values.lookup (.ofList name) with
    | some .nothing => valueFault? values before false ps
    | some (.text _) | none => valueFault? values (before + 1) false ps
    | some (.loose type) => some (.mismatch (.notJoinable before type))

/-- The template with the values in place of its tokens, where values can be of any type. -/
def fill? (template : Json) (values : Values) : Except Failure String :=
  match template with
  | .str t =>
    match valueFault? values 0 false (pieces 0 t.toList) with
    | some e => .error e
    | none => .ok (fill t (values.map fun (name, v) ↦ (name, v.toText)))
  | j => .error (.mismatch (.notText j.typeName))

end Typeset.Template

/-!
# Wrappers

Annotations such as `@code{...}` in the metadata of a document. `strip` takes them off, the inner
ones first, until none is left.
-/

namespace Typeset.Wrapper

/-- The commands that wrap text. -/
def commands : List String :=
  ["acronym", "code", "command", "dfn", "emph", "env", "file", "kbd", "key", "option", "samp",
    "strong", "url", "var"]

/-- A brace of either kind. -/
def isBrace (c : Char) : Bool := c == '{' || c == '}'

/-- The wrapper at the front of the text: the name of its command and its body. -/
def wrapper? : List Char → Option (List Char × List Char)
  | '@' :: cs =>
    match (commands.map String.toList).find? fun name ↦ (name ++ ['{']).isPrefixOf cs with
    | none => none
    | some name =>
      let inner := cs.drop (name.length + 1)
      let body := inner.takeWhile (!isBrace ·)
      match inner.drop body.length with
      | '}' :: _ => some (name, body)
      | _ => none
  | _ => none

/-- The text with each wrapper that holds no brace replaced by its body. The number counts the
characters of a wrapper that are still to be passed over. -/
def unwrap : Nat → List Char → List Char
  | _, [] => []
  | skip + 1, _ :: cs => unwrap skip cs
  | 0, c :: cs =>
    match wrapper? (c :: cs) with
    | some (name, body) => body ++ unwrap (name.length + body.length + 2) cs
    | none => c :: unwrap 0 cs

/-- The text without wrappers: they are taken off as long as the text gets shorter by it. -/
def stripChars (cs : List Char) : List Char :=
  if (unwrap 0 cs).length < cs.length then stripChars (unwrap 0 cs) else cs
termination_by cs.length

/-- The text without wrappers. -/
def strip (t : String) : String := .ofList (stripChars t.toList)

end Typeset.Wrapper

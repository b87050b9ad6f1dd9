import Typeset.Text.Lines

/-!
# Commands and environments

The pieces LaTeX is put together from.
-/

namespace Typeset.Latex

/-- A text between braces. -/
def braced (t : String) : String := "\x7b" ++ t ++ "\x7d"

/-- A command with one argument. -/
def command (name argument : String) : String := "\\" ++ name ++ braced argument

/-- The opening of an environment. -/
def opening (environment : String) : String := command "begin" environment

/-- The end of an environment. -/
def closing (environment : String) : String := command "end" environment

/-- A label command. -/
def labelCommand (label : String) : String := command "label" label

/-! ## Captions and labels of blocks -/

/-- A text as a line, none if it is empty. -/
def lineOf (t : String) : List String := if t.isEmpty then [] else [t]

/-- A label as a line, none if it is missing or empty. -/
def labelLine (label : Option String) : List String :=
  match label with
  | none | some "" => []
  | some label => [labelCommand label]

/-- The lines of a caption and a label. Outside of a float the caption names the kind of float. -/
def captionText (float : Option String) (caption : String) (label : Option String) : String :=
  let start := match float with
    | none => "\\caption"
    | some kind => command "captionof" kind
  Text.unlines ((if caption.isEmpty then [] else [start ++ braced caption]) ++ labelLine label)

end Typeset.Latex

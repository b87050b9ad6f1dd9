import Typeset.Latex.Command
import Typeset.Latex.Escape
import Typeset.Latex.Math
import Typeset.Tree.Node

/-! # Links -/

namespace Typeset.Latex

/-- A link within the document. One without a description shows the number of its target. -/
def internalLink (target : Node) (label description : String) : String :=
  if !description.isEmpty then "\\hyperref[" ++ label ++ "]" ++ braced description
  else
    match target.element with
    | .latexEnvironment value =>
      if isNumberedMath (environmentName? value) then command "eqref" label else command "ref" label
    | _ => command "ref" label

/-- The address of an external link: its path, with its kind in front unless the path has it
already or is that of a file. -/
def address (kind path : String) : String :=
  if kind = "file" || Text.beginsWith path (kind ++ ":") then path else kind ++ ":" ++ path

/-- An external link. -/
def externalLink (kind path description : String) : String :=
  let url := escapeUrl (address kind path)
  if description.isEmpty then command "url" url else command "href" url ++ braced description

end Typeset.Latex

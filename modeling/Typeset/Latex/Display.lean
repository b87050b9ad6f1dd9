import Typeset.Config.Basic
import Typeset.Latex.Command
import Typeset.Latex.Math
import Typeset.Text.Trim
import Typeset.Tree.Element

/-! # Environments: displays and special blocks -/

namespace Typeset.Latex

/-- An environment copied from the source, with its label. The label of a display with numbers
stands behind the first line, inside of the environment; that of other displays, and of a text
that opens no environment, in front. -/
def displayText (source : String) (label : Option String) : String :=
  let value := Text.dropFinalNewlines source
  let name := environmentName? value
  match label with
  | none | some "" => value ++ "\n"
  | some label =>
    let label := labelCommand label
    if !isNumberedMath name && (name.isNone || isMathEnvironment name) then
      label ++ "\n" ++ value ++ "\n"
    else
      match Text.cut? ['\n'] value.toList with
      | some (first, rest) =>
        .ofList first ++ "\n" ++ label ++ "\n" ++ .ofList rest ++ "\n"
      | none => value ++ "\n" ++ label ++ "\n"

/-- A special block in the environment that the configuration has for its type. -/
def specialText (config : Config) (type : String) (attributes : Attributes)
    (label : Option String) (contents : String) : String :=
  let environment := (config.environments.lookup (Text.lower type)).getD type
  let options := (attributes.shown? "options").getD ""
  opening environment ++ options ++ "\n" ++
    String.join ((labelLine label).map (· ++ "\n")) ++ contents ++ closing environment ++ "\n"

/-- A quotation. -/
def quoteText (contents : String) : String :=
  opening "quote" ++ "\n" ++ contents ++ closing "quote" ++ "\n"

/-- A text printed as it is. -/
def verbatimText (code : String) : String :=
  opening "verbatim" ++ "\n" ++ code ++ "\n" ++ closing "verbatim" ++ "\n"

/-- A horizontal rule. -/
def ruleText (attributes : Attributes) : String :=
  "\\noindent\\rule" ++ braced ((attributes.shown? "width").getD "\\linewidth") ++
    braced ((attributes.shown? "thickness").getD "0.5pt") ++ "\n"

end Typeset.Latex

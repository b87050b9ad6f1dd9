import Typeset.Config.Basic
import Typeset.Latex.Command
import Typeset.Text.Case
import Typeset.Text.Lines
import Typeset.Text.Trim
import Typeset.Unicode.Span

/-! # Keyword lines: raw LaTeX and tables of contents -/

namespace Typeset.Latex

/-- The text is not empty and all its characters are digits. -/
def isDigits (t : String) : Bool := !t.isEmpty && t.toList.all Unicode.isDigit

/-- The table of contents of headlines, down to the depth that the first number gives. -/
def contentsTable (words : List String) : String :=
  match words.find? isDigits with
  | none => "\\tableofcontents\n"
  | some depth => command "setcounter" "tocdepth" ++ braced depth ++ "\n\\tableofcontents\n"

/-- The list that a directive asks for; any other directive prints nothing. -/
def contentsList (config : Config) (value : String) : Option String :=
  match Text.words value with
  | [] => none
  | word :: words =>
    match Text.lower word with
    | "headlines" => some (contentsTable words)
    | "tables" => some "\\listoftables\n"
    | "figures" => some "\\listoffigures\n"
    | "listings" =>
      some (if config.codeBackend = .listings then "\\lstlistoflistings\n"
        else "\\listoflistings\n")
    | _ => none

/-- A text with one line feed at its end. -/
def rawText (value : String) : String := Text.dropFinalNewlines value ++ "\n"

/-- What a keyword line prints. -/
def keywordText (config : Config) (key value : String) : Option String :=
  match Text.upper key with
  | "LATEX" | "TEX" => some (rawText value)
  | "TOC" => contentsList config value
  | _ => none

/-- The backend's raw texts are copied to the output. -/
def isLatexBackend (backend : String) : Bool := ["latex", "tex"].contains (Text.lower backend)

end Typeset.Latex

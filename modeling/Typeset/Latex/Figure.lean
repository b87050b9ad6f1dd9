import Typeset.Config.Basic
import Typeset.Latex.Arguments
import Typeset.Latex.Command
import Typeset.Operation
import Typeset.Text.Cut
import Typeset.Text.Path
import Typeset.Text.Trim
import Typeset.Tree.Element

/-! # Images and figures -/

namespace Typeset.Latex

/-- The arguments that give the size of an image: its width and height, or the configured width for
an image without either. -/
def imageSize (config : Config) (attributes : Attributes) : String :=
  let width :=
    if attributes.has "width" || attributes.has "height" then attributes.printed? "width"
    else some config.imageDefaultWidth
  inlineArguments [("width", width), ("height", attributes.printed? "height")]

/-- The options of an image: its size, and further options as they are. -/
def imageOptions (config : Config) (attributes : Attributes) : String :=
  let further := (attributes.text? "options").getD ""
  bracketed (String.intercalate "," (lineOf (imageSize config attributes) ++ lineOf further))

/-- What is wrong with the further options of an image, which are put behind its size. -/
def imageFault? (config : Config) (attributes : Attributes) : Option Failure :=
  (attributes.trueLoose? "options").map fun j ↦
    .mismatch (.notJoinable (lineOf (imageSize config attributes)).length j.typeName)

/-- The command that shows an image. -/
def imageText (config : Config) (path : String) (attributes : Attributes) : String :=
  let path := Text.dropBeginning path "file:"
  let name := if Text.lower (Text.pathSuffix path) = ".svg" then "includesvg" else "includegraphics"
  "\\" ++ name ++ imageOptions config attributes ++ braced path

/-- The environment of a kind of float. -/
def figureEnvironment : String → String
  | "multicolumn" => "figure*"
  | "sideways" => "sidewaysfigure"
  | _ => "figure"

/-- A figure that does not float. -/
def fixedFigure (graphic caption : String) (label : Option String) : String :=
  Text.unlines
      (["\x7b\\centering", graphic] ++ lineOf (captionText (some "figure") caption label)) ++
    "\n\\par\x7d\n"

/-- The environment of a floating figure and its opening. -/
def figureFrame (config : Config) (attributes : Attributes) (float : String) : String × String :=
  if float = "wrap" then
    ("wrapfigure", opening "wrapfigure" ++ braced "r" ++
      braced ((attributes.shown? "width").getD "0.48\\textwidth"))
  else
    (figureEnvironment float, opening (figureEnvironment float) ++
      (attributes.shown? "placement").getD config.figurePlacement)

/-- What is wrong with the float of a figure, which is looked up by its name. -/
def figureFloatFault? (attributes : Attributes) : Option Failure :=
  (attributes.lookup "float").bind Json.keyFault?

/-- The name of a figure's float; one that is no text counts as the usual one. -/
def figureFloat (attributes : Attributes) : String := (attributes.text? "float").getD "figure"

/-- A figure with its caption and label. -/
def figureText (config : Config) (attributes : Attributes) (contents caption : String)
    (label : Option String) : String :=
  let graphic := Text.strip contents
  let float := figureFloat attributes
  if float = "nil" then fixedFigure graphic caption label
  else
    let (environment, start) := figureFrame config attributes float
    let caption := lineOf (captionText none caption label)
    Text.unlines ([start, "\\centering"] ++
      (if config.figureCaptionAbove then caption ++ [graphic] else graphic :: caption) ++
      [closing environment]) ++ "\n"

end Typeset.Latex

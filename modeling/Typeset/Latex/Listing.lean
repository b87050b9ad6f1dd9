import Typeset.Code.Lines
import Typeset.Config.Basic
import Typeset.Latex.Arguments
import Typeset.Latex.Command
import Typeset.Latex.Display
import Typeset.Operation

/-! # Listings: blocks of code -/

namespace Typeset.Latex

/-- What a listing is printed from. -/
structure Listing where
  /-- The code without markers. -/
  code : String
  /-- The number of the first line, if lines are numbered. -/
  firstLine : Option Int
  /-- The configured name of the language. -/
  language : Option String
  label : Option String
  caption : String
deriving Repr

namespace Listing

/-- The number of the first line as an option, which zero switches off. -/
def firstNumber (l : Listing) : Option String :=
  match l.firstLine with
  | none | some 0 => none
  | some n => some (toString n)

/-- The listing has a caption or a label. -/
def isLabelled (l : Listing) : Bool := !l.caption.isEmpty || !(labelLine l.label).isEmpty

/-- A listing of the package listings. -/
def listings (config : Config) (l : Listing) : String :=
  let options := stackedArguments
    ([("language", l.language), ("label", l.label), ("caption", some l.caption),
      ("numbers", l.firstNumber.map fun _ ↦ "left"), ("firstnumber", l.firstNumber)] ++
      config.listingsOptions)
  command "lstset" options ++ "\n" ++ opening "lstlisting" ++ "\n" ++ l.code ++ "\n" ++
    closing "lstlisting" ++ "\n"

/-- A listing of the package minted. -/
def minted (config : Config) (l : Listing) : String :=
  let options := Latex.options
    ([("linenos", l.firstNumber.map fun _ ↦ "true"), ("firstnumber", l.firstNumber)] ++
      config.mintedOptions)
  let language := match l.language with
    | none | some "" => "text"
    | some name => name
  let body := opening "minted" ++ options ++ braced (Text.lower language) ++ "\n" ++ l.code ++
    "\n" ++ closing "minted" ++ "\n"
  if l.isLabelled then
    opening "listing" ++ "[htbp]\n" ++ body ++ captionText none l.caption l.label ++ "\n" ++
      closing "listing" ++ "\n"
  else body

/-- A listing printed as it is, with line numbers in front. -/
def verbatim (l : Listing) : String :=
  let code := match l.firstLine with
    | none => l.code
    | some first => CodeBlock.numbered l.code first
  let body := verbatimText code
  if l.isLabelled then
    opening "figure" ++ "[H]\n" ++ captionText none l.caption l.label ++ "\n" ++ body ++
      closing "figure" ++ "\n"
  else body

/-- A listing as the configured backend prints it. -/
def print (config : Config) (l : Listing) : String :=
  match config.codeBackend with
  | .listings => l.listings config
  | .minted => l.minted config
  | .verbatim => l.verbatim

/-- What is wrong with the further options that the configuration has for listings. -/
def fault? (config : Config) : Option Failure :=
  match config.codeBackend with
  | .listings => (config.loose? "listings_options").bind Datum.pairsFault?
  | .minted => (config.loose? "minted_options").bind Datum.pairsFault?
  | .verbatim => none

end Listing

end Typeset.Latex

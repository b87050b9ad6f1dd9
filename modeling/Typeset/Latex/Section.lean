import Typeset.Config.Basic
import Typeset.Latex.Command
import Typeset.Operation
import Typeset.Text.Cut
import Typeset.Tree.Element

/-!
# Sections

A heading is printed with the sectioning command of its level, or, where it is too deep, as a list
with one item.
-/

namespace Typeset.Latex

/-- The heading is too deep for a sectioning command. -/
def isDeep (config : Config) (h : Heading) : Bool :=
  config.headlineLevels < h.level || (config.sectioning.length : Int) < h.level

/-- The sectioning commands of a level; levels below one count from the deepest one. -/
def commandsOf (config : Config) (level : Int) : Except Failure (String × String) :=
  let i := if level < 1 then level - 1 + config.sectioning.length else level - 1
  match (if i < 0 then none else config.sectioning[i.toNat]?) with
  | some commands => .ok commands
  | none => .error (.levelOutOfRange "tuple")

/-- A list with one item that stands for a section. -/
def sectionItem (config : Config) (h : Heading) (title label contents : String) : String :=
  let environment :=
    if config.sectionNumbers && !h.unnumbered then "enumerate" else "itemize"
  opening environment ++ "\n\\item " ++ title ++ labelCommand label ++ "\n" ++ contents ++
    closing environment ++ "\n"

/-- A heading with its title, its label and its contents. -/
def sectionText (config : Config) (h : Heading) (title label contents : String) :
    Except Failure String :=
  if isDeep config h then .ok (sectionItem config h title label contents)
  else do
    let (numbered, unnumbered) ← commandsOf config h.level
    let command := if h.unnumbered || !config.sectionNumbers then unnumbered else numbered
    return Text.fill command title ++ "\n" ++ labelCommand label ++ "\n" ++ contents

/-- What is wrong when two values are compared, where only numbers are ordered. -/
def orderFault? (left right : Datum) : Option Failure :=
  if left.number?.isSome && right.number?.isSome then none
  else some (.mismatch (.notComparable left.typeName right.typeName))

/-- What is wrong with the sectioning commands of a level: no sequence, or no pair at its place. -/
def commandsFault? (sectioning : Datum) (level : Int) : Option Failure :=
  let items := sectioning.items?.getD []
  let i := if level < 1 then level - 1 + items.length else level - 1
  match sectioning, (if i < 0 then none else items[i.toNat]?) with
  | .mapping _, _ => some (.missingEntry (.int (level - 1)))
  | _, some item => item.pairFault?
  | .str _, none => some (.levelOutOfRange "string")
  | _, none => none

/-- What is wrong with a heading's level, given as it was read, or with what the configuration says
about levels. -/
def sectionFault? (config : Config) (h : Heading) (level : Datum) : Option Failure :=
  (orderFault? level ((config.loose? "headline_levels").getD (.int config.headlineLevels))).or
    (if config.headlineLevels < h.level then none
    else (config.loose? "sectioning").bind fun d ↦
      d.lengthFault?.or (if isDeep config h then none else commandsFault? d h.level))

end Typeset.Latex

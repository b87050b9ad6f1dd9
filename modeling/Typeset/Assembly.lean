import Typeset.Config.Basic
import Typeset.Latex.Escape
import Typeset.Operation
import Typeset.Template
import Typeset.Text.Trim
import Typeset.Tree.Element

/-!
# Assembly

The chunks collected for each zone are joined and put together: in a fixed order, or in the places
that a template has for them.
-/

namespace Typeset.Assembly

open Text

/-- The chunks that are not blank, without line feeds at their ends, a blank line between them. -/
def joinChunks (chunks : List String) : String :=
  String.intercalate "\n\n" ((chunks.filter fun c ↦ !isBlankText c).map stripNewlines)

/-- The order of the zones in a document without a template. -/
def zoneOrder : List Zone := [.frontmatter, .body, .appendix, .index, .backmatter, .copying]

/-- The text of a zone: the body without line feeds at its ends, or the zone's joined chunks. -/
def zoneText (body : String) (chunks : Zone → List String) : Zone → String
  | .body => stripNewlines body
  | z => joinChunks (chunks z)

/-- The texts that are not empty, a blank line between them and a line feed at the end. -/
def stack (texts : List String) : String :=
  match texts.filter fun t ↦ !t.isEmpty with
  | [] => ""
  | texts => String.intercalate "\n\n" texts ++ "\n"

/-- The document without a template. -/
def minimal (zones : Zone → String) : String := stack (zoneOrder.map zones)

/-- The template of a name. -/
def findTemplate (config : Config) (name : Datum) : Except Failure Json :=
  match name.keyFault? with
  | some e => .error e
  | none =>
    match name.text?.bind fun n ↦ config.templates.lookup n with
    | none | some .null => .error (.missingTemplate name)
    | some template => .ok template

/-- The warning about a snippet that the configuration does not have. -/
def unknownSnippet (name : Datum) : String := "Unknown snippet " ++ name.shown ++ " skipped"

/-- The snippet of a name. -/
def snippet? (config : Config) (name : Datum) : Option String :=
  name.text?.bind fun n ↦ config.snippets.lookup n

/-- The snippets of the preamble and a warning for each that is missing. -/
def preamble (config : Config) : String × List String :=
  (unlines ((config.useSnippets.filterMap (snippet? config)).map dropFinalNewlines),
    (config.useSnippets.filter fun name ↦ (snippet? config name).isNone).map unknownSnippet)

/-- What is wrong with the names of the snippets of the preamble. -/
def preambleFault? (config : Config) : Option Failure :=
  ((config.loose? "use_snippets").bind Datum.iterateFault?).or
    (config.useSnippets.findSome? Datum.keyFault?)

/-- Metadata that a template can show, with the names of their tokens. -/
def metadataTokens : List (String × String) :=
  [("title", "TITLE"), ("subtitle", "SUBTITLE"), ("author", "AUTHOR"), ("date", "DATE"),
    ("email", "EMAIL"), ("description", "DESCRIPTION"), ("keywords", "KEYWORDS")]

/-- A property of a document, escaped; one that is missing or counts as false is empty. -/
def metadata (properties : Attributes) (key : String) : String :=
  Latex.escapeText (((properties.true? key).bind Json.text?).getD "")

/-- What is wrong with the properties of a document that templates can show: one that counts as true
and is no text. -/
def metadataFault? (properties : Attributes) : Option Failure :=
  (metadataTokens.map (·.1) ++ ["language"]).findSome? fun key ↦
    (properties.trueLoose? key).map fun j ↦ .mismatch (.notText j.typeName)

/-- The language of a document: its own one, or the configured one as it is. -/
def languageOf (config : Config) (properties : Attributes) : Template.Value :=
  if (properties.true? "language").isSome then .text (metadata properties "language")
  else ((config.loose? "language").map .ofDatum).getD (.text config.language)

/-- The texts of the tokens for zones and metadata. -/
def tokenTexts (zones : Zone → String) (properties : Attributes) : Texts :=
  Zone.all.map (fun z ↦ (z.token, zones z)) ++
    metadataTokens.map fun (key, token) ↦ (token, metadata properties key)

/-- The values of all tokens. -/
def values (config : Config) (zones : Zone → String) (properties : Attributes) :
    Template.Values :=
  (tokenTexts zones properties).map (fun (token, t) ↦ (token, .text t)) ++
    [("LANGUAGE", languageOf config properties), ("PREAMBLE", .text (preamble config).1)]

/-- The document in a template, and the warnings about its preamble. -/
def fillTemplate (config : Config) (zones : Zone → String) (template : Json)
    (properties : Attributes) : Except Failure (String × List String) :=
  match (metadataFault? properties).or (preambleFault? config) with
  | some e => .error e
  | none => do
    return (← Template.fill? template (values config zones properties), (preamble config).2)

/-- The document and the warnings that arose on the way. Without a template, or without one of the
name that is given, the zones follow each other. -/
def assemble (config : Config) (body : String) (chunks : Zone → List String) (template : Datum)
    (properties : Attributes) : Except Failure (String × List String) :=
  let zones := zoneText body chunks
  match template with
  | .null => .ok (minimal zones, [])
  | name =>
    match findTemplate config name with
    | .ok t => fillTemplate config zones t properties
    | .error (.missingTemplate n) =>
      .ok (minimal zones,
        [(Failure.missingTemplate n).message ++ "; using the minimal template"])
    | .error e => .error e

end Typeset.Assembly

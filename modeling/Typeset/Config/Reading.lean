import Typeset.Config.Settings

/-!
# Reading a configuration

A configuration is read from settings option by option. A value of another type than its option
has counts as what comes nearest: a truth value as a number, any value as true or false or as it is
printed. The value itself is kept among the loose ones.
-/

namespace Typeset

/-- The type of an option. -/
inductive OptionType where
  | text
  | optionalText
  | flag
  | number
  /-- Texts by name. -/
  | texts
  /-- Mappings of texts by name. -/
  | tables
  /-- A sequence of texts. -/
  | names
  /-- A sequence of pairs of texts. -/
  | commands
  /-- A sequence of pairs of a text and a text that may be missing. -/
  | pairs
deriving DecidableEq, Repr

namespace OptionType

/-- The JSON value is a text. -/
def isText (j : Json) : Bool := j.text?.isSome

/-- The value is a pair of texts. -/
def isCommand : Datum → Bool
  | .seq [.str _, .str _] => true
  | _ => false

/-- The value is a pair of a text and a text that may be missing. -/
def isPair : Datum → Bool
  | .seq [.str _, .str _] | .seq [.str _, .null] => true
  | _ => false

/-- The JSON value is a mapping of texts. -/
def isTable : Json → Bool
  | .obj members => members.all fun (_, j) ↦ isText j
  | _ => false

/-- The value is of the type. -/
def fits : OptionType → Datum → Bool
  | .text, .str _ => true
  | .optionalText, .str _ => true
  | .optionalText, .null => true
  | .flag, .bool _ => true
  | .number, .int _ => true
  | .texts, .mapping members => members.all fun (_, j) ↦ isText j
  | .tables, .mapping members => members.all fun (_, j) ↦ isTable j
  | .names, .seq items => items.all fun d ↦ d.text?.isSome
  | .commands, .seq items => items.all isCommand
  | .pairs, .seq items => items.all isPair
  | _, _ => false

end OptionType

namespace Datum

/-- A value as it is printed, if it counts as true. -/
def printed? (d : Datum) : Option String := if d.isTrue then some d.plain else none

/-- The entries of a mapping, none for any other value. -/
def entries : Datum → Entries
  | .mapping members => members
  | _ => []

/-- A text, empty for any other value. -/
def textOrEmpty (d : Datum) : String := d.text?.getD ""

/-- The two commands that a pair is. -/
def commands (d : Datum) : String × String :=
  match d.items? with
  | some [a, b] => (a.textOrEmpty, b.textOrEmpty)
  | _ => ("", "")

/-- The name and the value that a pair is; a value that counts as false is none. -/
def argument (d : Datum) : String × Option String :=
  match d.items? with
  | some [name, value] => (name.plain, value.printed?)
  | _ => ("", none)

end Datum

namespace Config

/-- The types of the options. -/
def types : List (String × OptionType) :=
  [("templates", .texts), ("template", .optionalText), ("snippets", .texts),
    ("use_snippets", .names), ("environments", .texts), ("sectioning", .commands),
    ("headline_levels", .number), ("section_numbers", .flag), ("text_markup", .texts),
    ("timestamp_formats", .texts), ("code_backend", .text), ("listings_options", .pairs),
    ("minted_options", .pairs), ("language_names", .texts), ("smart_quotes", .flag),
    ("language", .text), ("quotes", .tables), ("table_environment", .text), ("table_float", .text),
    ("table_placement", .text), ("table_centered", .flag), ("table_booktabs", .flag),
    ("table_header", .flag), ("table_caption_above", .flag), ("table_footer_content", .text),
    ("table_footer_style", .text), ("table_cell_styles", .texts), ("table_row_styles", .texts),
    ("image_default_width", .text), ("figure_placement", .text), ("figure_caption_above", .flag)]

/-- The settings that are not of the type of their option. -/
def looseSettings (s : Settings) : List (String × Datum) :=
  s.filter fun (name, value) ↦ (types.lookup name).any fun type ↦ !type.fits value

/-- The configuration that settings describe. -/
def ofSettings (s : Settings) : Config where
  templates := (s.value "templates").entries
  template := s.value "template"
  snippets := (s.value "snippets").entries.texts
  useSnippets := (s.value "use_snippets").items?.getD []
  environments := (s.value "environments").entries.shownTexts
  sectioning := ((s.value "sectioning").items?.getD []).map Datum.commands
  headlineLevels := (s.value "headline_levels").number?.getD 0
  sectionNumbers := (s.value "section_numbers").isTrue
  textMarkup := (s.value "text_markup").entries.texts
  timestampFormats := (s.value "timestamp_formats").entries.texts
  codeBackend := .ofName (s.value "code_backend").textOrEmpty
  listingsOptions := ((s.value "listings_options").items?.getD []).map Datum.argument
  mintedOptions := ((s.value "minted_options").items?.getD []).map Datum.argument
  languageNames := (s.value "language_names").entries
  smartQuotes := (s.value "smart_quotes").isTrue
  language := (s.value "language").textOrEmpty
  quotes := (s.value "quotes").entries
  tableEnvironment := (s.value "table_environment").plain
  tableFloat := (s.value "table_float").printed?.getD ""
  tablePlacement := (s.value "table_placement").plain
  tableCentered := (s.value "table_centered").isTrue
  tableBooktabs := (s.value "table_booktabs").isTrue
  tableHeader := (s.value "table_header").isTrue
  tableCaptionAbove := (s.value "table_caption_above").isTrue
  tableFooterContent := (s.value "table_footer_content").printed?.getD ""
  tableFooterStyle := (s.value "table_footer_style").textOrEmpty
  tableCellStyles := (s.value "table_cell_styles").entries
  tableRowStyles := (s.value "table_row_styles").entries.shownTexts
  imageDefaultWidth := (s.value "image_default_width").printed?.getD ""
  figurePlacement := (s.value "figure_placement").plain
  figureCaptionAbove := (s.value "figure_caption_above").isTrue
  loose := looseSettings s

/-- The configuration that entries describe. -/
def ofEntries (entries : Entries) : Config := ofSettings (.ofEntries entries)

end Config

end Typeset

import Typeset.Assoc
import Typeset.Config.Basic

/-!
# Settings

The options of a configuration by name, as outside sources give them. Reading passes over names
that are no options; overriding refuses them. Lists become sequences on the way in, at any depth of
lists.
-/

namespace Typeset

namespace Datum

mutual

/-- A value with its lists, and the lists in them, made sequences. -/
def freeze : Json → Datum
  | .null => .null
  | .bool b => .bool b
  | .int n => .int n
  | .str s => .str s
  | .arr items => .seq (freezeItems items)
  | .obj members => .mapping members
termination_by structural j => j

/-- Items, each frozen. -/
def freezeItems : List Json → List Datum
  | [] => []
  | item :: items => freeze item :: freezeItems items
termination_by structural js => js

end

end Datum

namespace Json

mutual

/-- Two values are alike: truth values count as numbers and the order of members does not matter. -/
def alike : Json → Json → Bool
  | .null, .null => true
  | .bool a, .bool b => a == b
  | .bool a, .int n => n == (if a then 1 else 0)
  | .int n, .bool a => n == (if a then 1 else 0)
  | .int m, .int n => m == n
  | .str s, .str t => s == t
  | .arr xs, .arr ys => alikeItems xs ys
  | .obj ms, .obj ns => ms.length == ns.length && alikeMembers ms ns
  | _, _ => false
termination_by structural j => j

/-- Items alike one by one. -/
def alikeItems : List Json → List Json → Bool
  | [], [] => true
  | x :: xs, y :: ys => alike x y && alikeItems xs ys
  | _, _ => false
termination_by structural js => js

/-- Every member has one alike under its key. -/
def alikeMembers : List (String × Json) → List (String × Json) → Bool
  | [], _ => true
  | (key, value) :: ms, ns =>
    (match ns.lookup key with
      | some other => alike value other
      | none => false) && alikeMembers ms ns
termination_by structural ms => ms

end

end Json

namespace Datum

mutual

/-- Two values are alike: truth values count as numbers and the order of members does not matter. -/
def alike : Datum → Datum → Bool
  | .mapping ms, .mapping ns => (Json.obj ms).alike (.obj ns)
  | .seq xs, .seq ys => alikeItems xs ys
  | d, e => d.key = e.key
termination_by structural d => d

/-- Values alike one by one. -/
def alikeItems : List Datum → List Datum → Bool
  | [], [] => true
  | x :: xs, y :: ys => alike x y && alikeItems xs ys
  | _, _ => false
termination_by structural ds => ds

end

end Datum

/-- The options of a configuration by name, in the order of their declaration. -/
abbrev Settings := List (String × Datum)

namespace Config

/-- A mapping of texts as a value. -/
def textsValue (ts : Texts) : Datum := .mapping (Entries.ofTexts ts)

/-- Pairs of a name and a text that may be missing as a value. -/
def pairsValue (pairs : List (String × Option String)) : Datum :=
  .seq (pairs.map fun (name, t) ↦ .seq [.str name, .ofText? t])

/-- The options of a configuration by name. -/
def settings (c : Config) : Settings :=
  [("templates", .mapping c.templates),
    ("template", c.template),
    ("snippets", textsValue c.snippets),
    ("use_snippets", .seq c.useSnippets),
    ("environments", textsValue c.environments),
    ("sectioning", .seq (c.sectioning.map fun (numbered, starred) ↦ .ofTexts [numbered, starred])),
    ("headline_levels", .int c.headlineLevels),
    ("section_numbers", .bool c.sectionNumbers),
    ("text_markup", textsValue c.textMarkup),
    ("timestamp_formats", textsValue c.timestampFormats),
    ("code_backend", .str c.codeBackend.name),
    ("listings_options", pairsValue c.listingsOptions),
    ("minted_options", pairsValue c.mintedOptions),
    ("language_names", .mapping c.languageNames),
    ("smart_quotes", .bool c.smartQuotes),
    ("language", .str c.language),
    ("quotes", .mapping c.quotes),
    ("table_environment", .str c.tableEnvironment),
    ("table_float", .str c.tableFloat),
    ("table_placement", .str c.tablePlacement),
    ("table_centered", .bool c.tableCentered),
    ("table_booktabs", .bool c.tableBooktabs),
    ("table_header", .bool c.tableHeader),
    ("table_caption_above", .bool c.tableCaptionAbove),
    ("table_footer_content", .str c.tableFooterContent),
    ("table_footer_style", .str c.tableFooterStyle),
    ("table_cell_styles", .mapping c.tableCellStyles),
    ("table_row_styles", textsValue c.tableRowStyles),
    ("image_default_width", .str c.imageDefaultWidth),
    ("figure_placement", .str c.figurePlacement),
    ("figure_caption_above", .bool c.figureCaptionAbove)]

end Config

namespace Settings

/-- The settings of the built-in configuration. -/
def default : Settings := Config.default.settings

/-- The names of all options. -/
def optionNames : List String := default.map (·.1)

/-- The value of an option. -/
def value (s : Settings) (name : String) : Datum := (s.lookup name).getD .null

/-- The settings with one option set to a value. -/
def set (s : Settings) (name : String) (value : Json) : Settings :=
  Assoc.put name (.freeze value) s

/-- The settings with the options among the entries set. -/
def update (s : Settings) (entries : Entries) : Settings :=
  entries.foldl (fun s (name, value) ↦ s.set name value) s

/-- The settings that a mapping describes; names that are no options are passed over. -/
def ofEntries (entries : Entries) : Settings :=
  update default (entries.filter fun (name, _) ↦ optionNames.contains name)

/-- The settings with some options replaced; the first name that is no option is refused. -/
def withOverrides (s : Settings) (overrides : Entries) : Except Failure Settings :=
  match overrides.find? fun (name, _) ↦ !optionNames.contains name with
  | some (name, _) => .error (.unknownOption name)
  | none => .ok (s.update overrides)

/-- Two settings agree in every option. -/
def same (s t : Settings) : Bool :=
  optionNames.all fun name ↦
    match s.lookup name, t.lookup name with
    | some a, some b => a.alike b
    | _, _ => false

end Settings

end Typeset

import Typeset.Quotes

/-!
# Configuration

The options a document is typeset with, and their defaults. An option that has been given a value
of another type than its own holds what comes nearest, and the value itself is kept aside.
-/

namespace Typeset

/-- How blocks of code are printed. -/
inductive CodeBackend where
  | verbatim
  | listings
  | minted
deriving DecidableEq, Repr

/-- The backend of a name; a name of none stands for plain verbatim text. -/
def CodeBackend.ofName : String → CodeBackend
  | "listings" => .listings
  | "minted" => .minted
  | _ => .verbatim

def CodeBackend.name : CodeBackend → String
  | .verbatim => "verbatim"
  | .listings => "listings"
  | .minted => "minted"

@[simp] theorem CodeBackend.ofName_name (b : CodeBackend) : ofName b.name = b := by
  cases b <;> rfl

/-- The options a document is typeset with. -/
structure Config where
  /-- Templates by name. -/
  templates : Entries
  /-- The name of the template to fill; without one the zones follow each other. -/
  template : Datum
  /-- Pieces of a preamble by name. -/
  snippets : Texts
  /-- The names of the pieces that the preamble is made of. -/
  useSnippets : List Datum
  /-- Environments by the type of a special block. -/
  environments : Texts
  /-- The sectioning commands of each level, numbered and not. -/
  sectioning : List (String × String)
  /-- Deeper headings are printed as list items. -/
  headlineLevels : Int
  /-- Whether sections have numbers at all. -/
  sectionNumbers : Bool
  /-- Formats by kind of markup. -/
  textMarkup : Texts
  /-- Formats by kind of timestamp. -/
  timestampFormats : Texts
  codeBackend : CodeBackend
  /-- Further options of every listing. -/
  listingsOptions : List (String × Option String)
  /-- Further options of every minted block. -/
  mintedOptions : List (String × Option String)
  /-- Names of languages by the names that documents use. -/
  languageNames : Entries
  /-- Whether straight quotes become typographic ones. -/
  smartQuotes : Bool
  /-- The language of the document. -/
  language : String
  /-- Delimiters of quotations by language. -/
  quotes : Entries
  tableEnvironment : String
  /-- The float around a table, none for an empty name. -/
  tableFloat : String
  tablePlacement : String
  tableCentered : Bool
  /-- Whether rules are those of booktabs. -/
  tableBooktabs : Bool
  /-- Whether the leading rows are a header unless the table says otherwise. -/
  tableHeader : Bool
  tableCaptionAbove : Bool
  /-- The text of a footer that announces the next page. -/
  tableFooterContent : String
  /-- The format of the cells of a footer. -/
  tableFooterStyle : String
  /-- Formats by role of a cell. -/
  tableCellStyles : Entries
  /-- What stands in front of a row by its role. -/
  tableRowStyles : Texts
  /-- The width of an image that sets no size. -/
  imageDefaultWidth : String
  figurePlacement : String
  figureCaptionAbove : Bool
  /-- The values of options that are not of the type of their option. -/
  loose : List (String × Datum)
deriving Repr

namespace Config

/-- The preamble lines that both built-in templates share. -/
def packages : List String :=
  ["\\usepackage[utf8]{inputenc}",
    "\\usepackage[T1]{fontenc}",
    "\\usepackage{graphicx}",
    "\\usepackage{longtable}",
    "\\usepackage{booktabs}",
    "\\usepackage{capt-of}",
    "\\usepackage{amsmath}",
    "\\usepackage{amssymb}",
    "\\usepackage[normalem]{ulem}"]

/-- The lines that give the title, the author and the date. -/
def titleLines : List String :=
  ["%%PREAMBLE%%",
    "\\title{%%TITLE%%}",
    "\\author{%%AUTHOR%%}",
    "\\date{%%DATE%%}"]

/-- The template of an article. -/
def articleTemplate : String :=
  Text.unlines (["\\documentclass[11pt]{article}"] ++ packages ++ ["\\usepackage{hyperref}"] ++
    titleLines ++
    ["\\hypersetup\x7b",
      " pdftitle={%%TITLE%%},",
      " pdfauthor={%%AUTHOR%%},",
      " pdfkeywords={%%KEYWORDS%%},",
      " pdfsubject={%%DESCRIPTION%%},",
      " pdflang={%%LANGUAGE%%}\x7d",
      "\\begin{document}",
      "",
      "\\maketitle",
      "%%COPYING%%",
      "",
      "%%FRONTMATTER%%",
      "",
      "%%BODY%%",
      "",
      "\\appendix",
      "%%APPENDIX%%",
      "",
      "%%BACKMATTER%%",
      "",
      "%%INDEX%%",
      "\\end{document}",
      ""])

/-- The template of a book. -/
def bookTemplate : String :=
  Text.unlines (["\\documentclass[11pt]{book}"] ++ packages ++
    ["\\usepackage{makeidx}", "\\usepackage{hyperref}", "\\makeindex"] ++ titleLines ++
    ["\\begin{document}",
      "",
      "\\frontmatter",
      "\\maketitle",
      "%%COPYING%%",
      "",
      "%%FRONTMATTER%%",
      "",
      "\\tableofcontents",
      "",
      "\\mainmatter",
      "%%BODY%%",
      "",
      "\\appendix",
      "%%APPENDIX%%",
      "",
      "\\backmatter",
      "%%BACKMATTER%%",
      "",
      "%%INDEX%%",
      "\\printindex",
      "\\end{document}",
      ""])

/-- Built-in sectioning commands. -/
def sections : List (String × String) :=
  [("\\section{%s}", "\\section*{%s}"),
    ("\\subsection{%s}", "\\subsection*{%s}"),
    ("\\subsubsection{%s}", "\\subsubsection*{%s}"),
    ("\\paragraph{%s}", "\\paragraph*{%s}"),
    ("\\subparagraph{%s}", "\\subparagraph*{%s}")]

/-- Built-in formats of markup. -/
def markup : Texts :=
  [("bold", "\\textbf{%s}"),
    ("italic", "\\emph{%s}"),
    ("underline", "\\uline{%s}"),
    ("strike-through", "\\sout{%s}"),
    ("code", "\\texttt{%s}"),
    ("verbatim", "\\texttt{%s}")]

/-- Built-in names of languages. -/
def languages : Texts :=
  [("c", "C"), ("cc", "C++"), ("cpp", "C++"), ("c++", "C++"), ("elisp", "Lisp"),
    ("emacs-lisp", "Lisp"), ("fortran", "fortran"), ("go", "Go"), ("java", "Java"),
    ("js", "JavaScript"), ("javascript", "JavaScript"), ("lisp", "Lisp"),
    ("ocaml", "[Objective]Caml"), ("perl", "Perl"), ("python", "Python"), ("r", "R"),
    ("ruby", "Ruby"), ("sh", "bash"), ("shell", "bash"), ("sql", "SQL"), ("sqlite", "SQL"),
    ("tex", "TeX"), ("latex", "[LaTeX]TeX")]

/-- The built-in configuration. -/
def default : Config where
  templates := Entries.ofTexts [("article", articleTemplate), ("book", bookTemplate)]
  template := .null
  snippets := []
  useSnippets := []
  environments := [("center", "center"), ("abstract", "abstract"), ("verse", "verse")]
  sectioning := sections
  headlineLevels := 3
  sectionNumbers := true
  textMarkup := markup
  timestampFormats :=
    [("active", "\\textit{%s}"), ("inactive", "\\textit{%s}"), ("diary", "\\textit{%s}")]
  codeBackend := .verbatim
  listingsOptions := []
  mintedOptions := []
  languageNames := Entries.ofTexts languages
  smartQuotes := false
  language := "en"
  quotes := Quotes.builtin
  tableEnvironment := "tabular"
  tableFloat := "table"
  tablePlacement := ""
  tableCentered := true
  tableBooktabs := true
  tableHeader := false
  tableCaptionAbove := true
  tableFooterContent := ""
  tableFooterStyle := ""
  tableCellStyles := []
  tableRowStyles := []
  imageDefaultWidth := ".9\\linewidth"
  figurePlacement := "[htbp]"
  figureCaptionAbove := false
  loose := []

/-- The value of an option that is not of the type of the option. -/
def loose? (c : Config) (name : String) : Option Datum := c.loose.lookup name

end Config

end Typeset

import Typeset.Proofs.Latex.Signs
import Typeset.Render.Walk

/-!
# Where the characters of a document are from

What nodes print, given as marked texts: the printer's own commands, keys, and around them what the
nodes below print and the texts of the nodes themselves. Labels, numbers and the first uses of
footnotes depend on the run and are left open. All that is printed in this way is sound.
-/

namespace Typeset

open Latex Render

namespace Node

/-- The command that an inline object puts around its contents. -/
def wrapper? (n : Node) : Option String :=
  match n.element with
  | .bold => some "textbf"
  | .italic => some "emph"
  | .underline => some "uline"
  | .strikeThrough => some "sout"
  | .subscript => some "textsubscript"
  | .superscript => some "textsuperscript"
  | _ => none

/-- The sectioning commands for the levels that have one. -/
def sectionNames : List String :=
  ["section", "subsection", "subsubsection", "section*", "subsection*", "subsubsection*"]

/-- The environments of lists. -/
def listNames : List String := ["enumerate", "itemize", "description"]

/-- The line that sets a counter before an item. -/
inductive IsCounter : List Sign → Prop
  | none : IsCounter []
  | some (depth : Nat) (counter : Int) :
    IsCounter (commandOf "setcounter" (markup (enumCounter depth)) ++
      (group (markup (toString (counter - 1))) ++ markup "\n"))

/-- The box of an item. -/
inductive IsBox : List Sign → Prop
  | none : IsBox []
  | some {box : Checkbox} {t : String} : checkboxText box = some t → IsBox (markup t)

/-- What stands in brackets behind the command of an item with a tag. -/
inductive IsMarker (tag : List Sign) : List Sign → Prop
  | none : IsMarker tag []
  | box {b : List Sign} : IsBox b → IsMarker tag (markup "[" ++ (b ++ markup "]"))
  | tag : IsMarker tag (markup "[" ++ (group tag ++ markup "]"))
  | both {b : List Sign} : IsBox b →
    IsMarker tag (markup "[" ++ (group (b ++ (markup " " ++ tag)) ++ markup "]"))

/-- The lines of a caption and a label. -/
inductive IsCaption (caption : List Sign) : List Sign → Prop
  | none : IsCaption caption []
  | caption : IsCaption caption (commandOf "caption" caption ++ markup "\n")
  | label {key : String} : IsKey key →
    IsCaption caption (commandOf "label" (keySigns key) ++ markup "\n")
  | both {key : String} : IsKey key → IsCaption caption (commandOf "caption" caption ++
      (markup "\n" ++ (commandOf "label" (keySigns key) ++ markup "\n")))

/-- The line of a rule. -/
inductive IsRule : List Sign → Prop
  | none : IsRule []
  | some {name : String} : name ∈ ["toprule", "midrule", "bottomrule"] →
    IsRule (markup ("\\" ++ name) ++ markup "\n")

/-- A cell that forces a width. -/
def sizingSigns (width : Option Int) : List Sign :=
  match width with
  | none => []
  | some w => commandOf "rule" (markup (toString w ++ "em")) ++ group (markup "0pt")

/-- The row that forces widths. -/
inductive IsSizing : List Sign → Prop
  | none : IsSizing []
  | some (widths : List (Option Int)) : IsSizing
    ((markup " & ").intercalate (widths.map sizingSigns) ++ markup " \\\\[-\\normalbaselineskip]\n")

/-- A node prints a marked text, given what its branches print. -/
inductive Prints (n : Node) (u : Branch → List Sign) : List Sign → Prop
  | document {properties : Attributes} : n.element = .document properties →
    n.Prints u (u .children)
  | section {h : Heading} {name key : String} {title : List Sign} : n.element = .heading h →
    name ∈ sectionNames → IsKey key → IsTrimmed (u .title) title →
      n.Prints u (commandOf name title ++
        (markup "\n" ++ (commandOf "label" (keySigns key) ++ (markup "\n" ++ u .children))))
  | deepSection {h : Heading} {name key : String} {title : List Sign} : n.element = .heading h →
    name ∈ listNames → IsKey key → IsTrimmed (u .title) title →
      n.Prints u (environmentOf name (markup "\n" ++ (markup "\\item" ++ (markup " " ++ (title ++
        (commandOf "label" (keySigns key) ++ (markup "\n" ++ u .children)))))) ++ markup "\n")
  | paragraph {t : List Sign} : n.element = .paragraph → IsTrimmed (u .children) t →
    n.Prints u (t ++ markup "\n")
  | list {kind : ListKind} {name : String} : n.element = .plainList kind → name ∈ listNames →
    n.Prints u (environmentOf name (markup "\n" ++ u .children) ++ markup "\n")
  | item {checkbox : Option Checkbox} {counter : Option Int} {line tag marker t : List Sign} :
    n.element = .item checkbox counter → IsCounter line → IsTrimmed (u .tag) tag →
      IsMarker tag marker → IsTrimmed (u .children) t →
        n.Prints u (line ++ (markup "\\item" ++ (marker ++ (markup " " ++ (t ++ markup "\n")))))
  | bareItem {checkbox : Option Checkbox} {counter : Option Int} {line tag marker : List Sign} :
    n.element = .item checkbox counter → IsCounter line → IsTrimmed (u .tag) tag →
      IsMarker tag marker → n.Prints u (line ++ (markup "\\item" ++ (marker ++ markup "\n")))
  | table {caption lines : List Sign} {columns : String} : n.element = .table →
    IsTrimmed (u .caption) caption → IsCaption caption lines → IsPlainText columns →
      n.Prints u (environmentOf "table" (markup "\n" ++ (markup "\\centering" ++ (markup "\n" ++
        (lines ++ (environmentOf "tabular" (group (markup columns) ++
          (markup "\n" ++ u .children)) ++ markup "\n"))))) ++ markup "\n")
  | row {kind : RowKind} {above below sizing : List Sign} {missing : Nat} :
    n.element = .tableRow kind → IsRule above → IsSizing sizing → IsRule below →
      n.Prints u (above ++ (sizing ++ (u .children ++
        (markup (String.join (List.replicate missing " &")) ++ (markup " \\\\\n" ++ below)))))
  | cell {width : Option Int} {t : List Sign} : n.element = .tableCell width →
    IsTrimmed (u .children) t → n.Prints u t
  | nextCell {width : Option Int} {t : List Sign} : n.element = .tableCell width →
    IsTrimmed (u .children) t → n.Prints u (markup " & " ++ t)
  | quote : n.element = .quoteBlock →
    n.Prints u (environmentOf "quote" (markup "\n" ++ u .children) ++ markup "\n")
  | rule : n.element = .horizontalRule → n.Prints u (markup "\\noindent" ++ (markup "\\rule" ++
      (group (markup "\\linewidth") ++ (group (markup "0.5pt") ++ markup "\n"))))
  | text {content : String} : n.element = .text content →
    n.Prints u (sourceSigns content.toList)
  | wrapped {name : String} : n.wrapper? = some name → n.Prints u (commandOf name (u .children))
  | code {value : String} : n.element = .code value ∨ n.element = .verbatim value →
    n.Prints u (commandOf "texttt" (codeSigns value.toList))
  | link {kind path key : String} {t : List Sign} : n.element = .link kind path → IsKey key →
    IsTrimmed (u .children) t →
      n.Prints u (markup "\\hyperref" ++ (markup "[" ++ (keySigns key ++ (markup "]" ++ group t))))
  | reference {kind path key : String} : n.element = .link kind path → IsKey key →
    n.Prints u (commandOf "ref" (keySigns key))
  | footnote {label : Option String} {t : List Sign} : n.element = .footnoteReference label →
    IsTrimmed (u .children) t → n.Prints u (commandOf "footnote" t)
  | mark {label : Option String} (number : Nat) : n.element = .footnoteReference label →
    n.Prints u (markup "\\footnotemark" ++ markup ("[" ++ toString number ++ "]"))
  | timestamp {value kind : String} : n.element = .timestamp value kind →
    n.Prints u (sourceSigns value.toList)
  | italicTimestamp {value kind : String} : n.element = .timestamp value kind →
    n.Prints u (commandOf "textit" (sourceSigns value.toList))
  | lineBreak : n.element = .lineBreak → n.Prints u (markup "\\\\" ++ markup "\n")
  | target {value key : String} : n.element = .target value → IsKey key →
    n.Prints u (commandOf "label" (keySigns key))
  | radioTarget {value key : String} : n.element = .radioTarget value → IsKey key →
    n.Prints u (commandOf "label" (keySigns key) ++ u .children)

/-- Kinds of nodes that can print nothing. -/
def mayPrintNothing (n : Node) : Prop :=
  n.kind ∈ [.heading, .paragraph, .tableRow, .tableCell, .footnoteDefinition]

end Node

/-- Trees in a row print a marked text. A footnote can have the text of one of the definitions. -/
inductive Shows (definitions : List Node) : List Node → List Sign → Prop
  | nil : Shows definitions [] []
  | nothing {n : Node} {ns : List Node} {r : List Sign} : n.mayPrintNothing →
    Shows definitions ns r → Shows definitions (n :: ns) r
  | node {n : Node} {ns : List Node} {u : Branch → List Sign} {s r : List Sign} :
    (∀ b, (b = .caption → n.kind = .table) → Shows definitions (n.branch b) (u b)) →
      n.Prints u s → Shows definitions ns r →
        Shows definitions (n :: ns) (s ++ (markup (blankAfter n) ++ r))
  | note {n definition : Node} {ns : List Node} {label : Option String} {c t r : List Sign} :
    n.element = .footnoteReference label → definition ∈ definitions →
      definition.kind = .footnoteDefinition → Shows definitions definition.children c →
        IsTrimmed c t → Shows definitions ns r →
          Shows definitions (n :: ns) (commandOf "footnote" t ++ (markup (blankAfter n) ++ r))

/-! ## Soundness -/

namespace Node

variable {n : Node} {u : Branch → List Sign} {s t : List Sign}

theorem IsCounter.isSound (h : IsCounter s) : IsSound s := by
  cases h with
  | none => exact .nil
  | some depth counter =>
    have hname : IsPlainText (enumCounter depth) := by
      unfold enumCounter
      split <;> decide
    have hvalue : IsSound (group (Latex.markup (toString (counter - 1)))) :=
      .braces (.markup (isPlainText_int _))
    have hend : IsPlainText "\n" := by decide
    exact (IsSound.commandOf (by decide) (.markup hname)).append (hvalue.append (.markup hend))

theorem IsBox.isSound (h : IsBox s) : IsSound s := by
  cases h with
  | none => exact .nil
  | @some box t ht =>
    have hmath : ∀ name : String, IsCommand name →
        IsSound (markup "$" ++ (markup ("\\" ++ name) ++ markup "$")) := by
      intro name hname
      have hdollar : IsSound (markup "$") := .markup (by decide)
      exact hdollar.append (.markup_command hname hdollar)
    cases box with
    | on =>
      cases ht
      exact hmath "boxtimes" (by decide)
    | off =>
      cases ht
      exact hmath "square" (by decide)
    | trans =>
      cases ht
      exact hmath "boxminus" (by decide)
    | undeclared name => cases ht

theorem IsMarker.isSound {tag : List Sign} (h : IsMarker tag s) (htag : IsSound tag) :
    IsSound s := by
  have hopen : IsSound (markup "[") := .markup (by decide)
  have hclose : IsSound (markup "]") := .markup (by decide)
  have hspace : IsSound (markup " ") := .markup (by decide)
  cases h with
  | none => exact .nil
  | box hbox => exact hopen.append (hbox.isSound.append hclose)
  | tag => exact hopen.append (htag.braces.append hclose)
  | both hbox =>
    exact hopen.append ((hbox.isSound.append (hspace.append htag)).braces.append hclose)

theorem isSound_label {key : String} (h : IsKey key) :
    IsSound (commandOf "label" (keySigns key)) :=
  .commandOf (by decide) (.keySigns h)

theorem IsCaption.isSound {caption : List Sign} (h : IsCaption caption s)
    (hcaption : IsSound caption) : IsSound s := by
  have hend : IsSound (markup "\n") := .markup (by decide)
  have hcommand : IsSound (commandOf "caption" caption) := .commandOf (by decide) hcaption
  cases h with
  | none => exact .nil
  | caption => exact hcommand.append hend
  | label hkey => exact (isSound_label hkey).append hend
  | both hkey => exact hcommand.append (hend.append ((isSound_label hkey).append hend))

theorem IsRule.isSound (h : IsRule s) : IsSound s := by
  cases h with
  | none => exact .nil
  | some hname =>
    have hcommand : ∀ name ∈ ["toprule", "midrule", "bottomrule"], IsCommand name := by decide
    exact .markup_command (hcommand _ hname) (.markup (by decide))

theorem isSound_sizingSigns (width : Option Int) : IsSound (sizingSigns width) := by
  cases width with
  | none => exact .nil
  | some w =>
    have hunit : IsPlainText "em" := by decide
    have hwidth : IsSound (markup (toString w ++ "em")) :=
      .markup ((isPlainText_int w).append hunit)
    have hheight : IsSound (markup "0pt") := .markup (by decide)
    exact (IsSound.commandOf (by decide) hwidth).append hheight.braces

theorem isSound_intercalate {ts : List (List Sign)} (hs : IsSound s)
    (hts : ∀ t ∈ ts, IsSound t) : IsSound (s.intercalate ts) := by
  induction ts with
  | nil => exact .nil
  | cons t ts ih =>
    have ht := hts t List.mem_cons_self
    have ih := ih fun u hu ↦ hts u (.tail _ hu)
    cases ts with
    | nil => simpa using ht
    | cons u ts =>
      rw [List.intercalate_cons_cons]
      exact (ht.append hs).append ih

theorem IsSizing.isSound (h : IsSizing s) : IsSound s := by
  cases h with
  | none => exact .nil
  | some widths =>
    have hcells : IsSound ((markup " & ").intercalate (widths.map sizingSigns)) := by
      refine isSound_intercalate (.markup (by decide)) fun t ht ↦ ?_
      obtain ⟨width, -, rfl⟩ := List.mem_map.mp ht
      exact isSound_sizingSigns width
    have hskip : IsSound (markup ("\\" ++ "normalbaselineskip") ++ markup "]\n") :=
      .markup_command (by decide) (.markup (by decide))
    have hend : IsSound (markup ("\\" ++ "\\") ++ (markup "[-" ++
        (markup ("\\" ++ "normalbaselineskip") ++ markup "]\n"))) :=
      .markup_command (by decide) (.append (.markup (by decide)) hskip)
    have hspace : IsSound (markup " ") := .markup (by decide)
    exact hcells.append (hspace.append hend)

theorem isSound_padding (missing : Nat) :
    IsSound (markup (String.join (List.replicate missing " &"))) := by
  refine .markup fun c hc ↦ ?_
  have hpiece : IsPlainText " &" := by decide
  rw [String.toList_join] at hc
  obtain ⟨t, ht, hc⟩ := List.mem_flatMap.mp hc
  exact hpiece c (List.eq_of_mem_replicate ht ▸ hc)

/-- What a node prints is sound if what stands below it is. -/
theorem Prints.isSound (h : n.Prints u s)
    (hu : ∀ b, (b = .caption → n.kind = .table) → IsSound (u b)) : IsSound s := by
  have hend : IsSound (markup "\n") := .markup (by decide)
  have hspace : IsSound (markup " ") := .markup (by decide)
  have hcontents : IsSound (u .children) := hu .children (by simp)
  have htrimmed : ∀ {b : Branch} {t : List Sign}, b ≠ .caption → IsTrimmed (u b) t → IsSound t :=
    fun hb ht ↦ (hu _ fun h ↦ absurd h hb).trimmed ht
  have hcommand : ∀ (name : String) {t : List Sign}, IsCommand name → IsSound t →
      IsSound (markup ("\\" ++ name) ++ t) := fun _ _ hname ht ↦ .markup_command hname ht
  have hitem : ∀ {t : List Sign}, IsSound t → IsSound (markup "\\item" ++ t) :=
    fun ht ↦ hcommand "item" (by decide) ht
  cases h with
  | document _ => exact hcontents
  | «section» _ hname hkey htitle =>
    have hnames : ∀ name ∈ sectionNames, IsCommand name := by decide
    refine (IsSound.commandOf (hnames _ hname) (htrimmed (by simp) htitle)).append ?_
    exact hend.append ((isSound_label hkey).append (hend.append hcontents))
  | deepSection _ hname hkey htitle =>
    have hnames : ∀ name ∈ listNames, IsName name.toList := by decide
    refine (IsSound.environmentOf (hnames _ hname) ?_).append hend
    refine hend.append (hitem (hspace.append ?_))
    refine (htrimmed (by simp) htitle).append ?_
    exact (isSound_label hkey).append (hend.append hcontents)
  | paragraph _ ht => exact (htrimmed (by simp) ht).append hend
  | list _ hname =>
    have hnames : ∀ name ∈ listNames, IsName name.toList := by decide
    exact (IsSound.environmentOf (hnames _ hname) (hend.append hcontents)).append hend
  | item _ hcounter htag hmarker ht =>
    refine hcounter.isSound.append (hitem ((hmarker.isSound (htrimmed (by simp) htag)).append ?_))
    exact hspace.append ((htrimmed (by simp) ht).append hend)
  | bareItem _ hcounter htag hmarker =>
    refine hcounter.isSound.append (hitem ?_)
    exact (hmarker.isSound (htrimmed (by simp) htag)).append hend
  | table he hcaption hlines hcolumns =>
    have htable : n.kind = .table := by rw [Node.kind, he, Element.kind]
    have hcaption := hlines.isSound ((hu .caption fun _ ↦ htable).trimmed hcaption)
    have htabular : IsSound (environmentOf "tabular" _) :=
      .environmentOf (by decide) ((IsSound.markup hcolumns).braces.append (hend.append hcontents))
    refine (IsSound.environmentOf (by decide) (hend.append ?_)).append hend
    exact hcommand "centering" (by decide)
      (hend.append (hcaption.append (htabular.append hend)))
  | row _ habove hsizing hbelow =>
    refine habove.isSound.append (hsizing.isSound.append (hcontents.append ?_))
    refine (isSound_padding _).append (hspace.append ?_)
    exact hcommand "\\" (by decide) (hend.append hbelow.isSound)
  | cell _ ht => exact htrimmed (by simp) ht
  | nextCell _ ht => exact .append (.markup (by decide)) (htrimmed (by simp) ht)
  | quote _ => exact (IsSound.environmentOf (by decide) (hend.append hcontents)).append hend
  | rule _ =>
    have hwidth : IsSound (group (markup "\\linewidth")) :=
      .braces (hcommand "linewidth" (by decide) .nil)
    have hheight : IsSound (group (markup "0.5pt")) := .braces (.markup (by decide))
    exact hcommand "noindent" (by decide)
      (hcommand "rule" (by decide) (hwidth.append (hheight.append hend)))
  | text _ => exact .sourceSigns _
  | wrapped hname =>
    refine .commandOf ?_ hcontents
    unfold wrapper? at hname
    split at hname
    all_goals
      cases hname
      try decide
  | code _ => exact .commandOf (by decide) (.codeSigns _)
  | link _ hkey ht =>
    have hopen : IsSound (markup "[") := .markup (by decide)
    have hclose : IsSound (markup "]") := .markup (by decide)
    exact hcommand "hyperref" (by decide) (hopen.append
      ((IsSound.keySigns hkey).append (hclose.append (htrimmed (by simp) ht).braces)))
  | reference _ hkey => exact .commandOf (by decide) (.keySigns hkey)
  | footnote _ ht => exact .commandOf (by decide) (htrimmed (by simp) ht)
  | mark number _ =>
    have hnumber : IsPlainText ("[" ++ toString number ++ "]") :=
      .append (.append (by decide) (isPlainText_nat number)) (by decide)
    exact hcommand "footnotemark" (by decide) (.markup hnumber)
  | timestamp _ => exact .sourceSigns _
  | italicTimestamp _ => exact .commandOf (by decide) (.sourceSigns _)
  | lineBreak _ => exact hcommand "\\" (by decide) hend
  | target _ hkey => exact isSound_label hkey
  | radioTarget _ hkey => exact (isSound_label hkey).append hcontents

end Node

/-- After a node there are line feeds or spaces. -/
theorem mem_blankAfter {n : Node} {c : Char} (h : c ∈ (blankAfter n).toList) :
    c = '\n' ∨ c = ' ' := by
  unfold blankAfter Text.newlines Text.spaces at h
  split at h
  · rw [String.toList_ofList] at h
    exact .inl (List.eq_of_mem_replicate h)
  · rw [String.toList_ofList] at h
    exact .inr (List.eq_of_mem_replicate h)

theorem isSound_blankAfter (n : Node) : IsSound (markup (blankAfter n)) := by
  refine .markup fun c hc ↦ ?_
  rcases mem_blankAfter hc with rfl | rfl <;> decide

/-- All that trees print is sound. -/
theorem Shows.isSound {definitions ns : List Node} {s : List Sign} (h : Shows definitions ns s) :
    IsSound s := by
  induction h with
  | nil => exact .nil
  | nothing _ _ ih => exact ih
  | node _ hself _ hbelow ih =>
    exact (hself.isSound hbelow).append ((isSound_blankAfter _).append ih)
  | note _ _ _ _ ht _ hinner ih =>
    have htext : IsSound (commandOf "footnote" _) := .commandOf (by decide) (hinner.trimmed ht)
    exact htext.append ((isSound_blankAfter _).append ih)

end Typeset

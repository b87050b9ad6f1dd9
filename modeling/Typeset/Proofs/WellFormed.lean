import Typeset.Proofs.Assembled
import Typeset.Proofs.Render.Ordinary

/-!
# The printed document is well-formed

The text of an ordinary document has matching braces and nested environments, and no character of
the document stands bare in it that TeX takes for more than itself. Underscores in keys are left as
they are: the arguments that keys are put in take them.
-/

namespace Typeset

open Context Latex Render Text

/-- The braces of a marked text match, its environments are nested, and the characters in it that
TeX takes for more than themselves are the printer's own or stand behind a backslash, underscores in
keys apart. -/
structure Latex.IsWellFormed (s : List Sign) : Prop where
  balanced : IsBalanced (bare id (chars s))
  nested : AreNested (delimiters (chars s))
  safe : ∀ x ∈ bare Sign.char s, x.char ∈ specials →
    x.provenance = .markup ∨ x.provenance = .key ∧ x.char = '_'

theorem Latex.IsSound.isWellFormed {s : List Sign} (h : IsSound s) : IsWellFormed s where
  balanced := h.isBalanced_bare
  nested := h.areNested
  safe x hx hspecial := by
    obtain ⟨hsource, hkey⟩ := h.isSafe_of_mem_bare x hx
    cases hprovenance : x.provenance with
    | markup => exact .inl rfl
    | source => exact absurd hspecial (hsource hprovenance)
    | key => exact .inr ⟨rfl, eq_underscore_of_isKeyChar hspecial (hkey hprovenance)⟩

/-! ## Pieces of a document -/

/-- Trimmed pieces one behind the other, with line feeds between them. -/
inductive Latex.IsStacked (P : List Sign → Prop) : List Sign → Prop
  | nil : IsStacked P []
  | lineFeed {r : List Sign} : IsStacked P r → IsStacked P (markup "\n" ++ r)
  | piece {s t r : List Sign} : P s → IsTrimmed s t → IsStacked P r → IsStacked P (t ++ r)

namespace Latex.IsStacked

variable {P : List Sign → Prop} {s r : List Sign}

theorem append (h : IsStacked P s) (h' : IsStacked P r) : IsStacked P (s ++ r) := by
  induction h with
  | nil => exact h'
  | lineFeed _ ih =>
    rw [List.append_assoc]
    exact .lineFeed ih
  | piece hpiece ht _ ih =>
    rw [List.append_assoc]
    exact .piece hpiece ht ih

/-- What is made of sound pieces is sound. -/
theorem isSound (h : IsStacked P s) (hP : ∀ s, P s → IsSound s) : IsSound s := by
  induction h with
  | nil => exact .nil
  | lineFeed _ ih => exact .append (.markup (by decide)) ih
  | piece hpiece ht _ ih => exact ((hP _ hpiece).trimmed ht).append ih

end Latex.IsStacked

/-- The text is made of pieces with the property. -/
def Latex.IsMadeOf (P : List Sign → Prop) : String → Prop := IsTextOf (IsStacked P)

namespace Latex.IsMadeOf

variable {P : List Sign → Prop} {t u : String}

theorem empty : IsMadeOf P "" := ⟨[], .nil, rfl⟩

theorem append (h : IsMadeOf P t) (h' : IsMadeOf P u) : IsMadeOf P (t ++ u) := by
  obtain ⟨s, hs, rfl⟩ := h
  obtain ⟨r, hr, rfl⟩ := h'
  exact ⟨s ++ r, hs.append hr, textOf_append s r⟩

theorem lineFeed : IsMadeOf P "\n" := ⟨_, .lineFeed .nil, rfl⟩

theorem piece {s s' : List Sign} (hs : P s) (ht : IsTrimmed s s') :
    IsMadeOf P (stripNewlines (textOf s')) := by
  obtain ⟨r, hr, hrtext⟩ := exists_stripNewlines s'
  refine ⟨r ++ [], .piece hs (ht.trans hr) .nil, ?_⟩
  rw [List.append_nil, hrtext]

/-- Texts with blank lines between them. -/
theorem intercalate {ts : List String} (h : ∀ t ∈ ts, IsMadeOf P t) :
    IsMadeOf P (String.intercalate "\n\n" ts) := by
  induction ts with
  | nil => exact empty
  | cons t ts ih =>
    have ht := h t List.mem_cons_self
    have ih := ih fun u hu ↦ h u (.tail _ hu)
    cases ts with
    | nil => simpa using ht
    | cons u ts =>
      have hblank : IsMadeOf P "\n\n" := lineFeed.append lineFeed
      rw [String.intercalate_cons_cons]
      exact (ht.append hblank).append ih

end Latex.IsMadeOf

/-! ## What is put together -/

/-- What comes out of a node is what the node shows, trimmed. -/
theorem Node.GivesOut.exists_shows {definitions : List Node} {n : Node} {t : String}
    (h : n.GivesOut definitions (some t)) :
    ∃ s s', Shows definitions [n] s ∧ IsTrimmed s s' ∧ textOf s' = t := by
  have hblank : ∀ x ∈ markup (blankAfter n) ++ [], Unicode.isBlank x.char = true := by
    rw [List.append_nil]
    intro x hx
    obtain ⟨c, hc, rfl⟩ := List.mem_map.mp hx
    rcases mem_blankAfter hc with rfl | rfl <;> rfl
  cases h with
  | printed hu hs => exact ⟨_, _, .node hu hs .nil, ⟨[], _, rfl, nofun, hblank⟩, rfl⟩
  | note he hdefinition hkind hshows ht =>
    exact ⟨_, _, .note he hdefinition hkind hshows ht .nil, ⟨[], _, rfl, nofun, hblank⟩, rfl⟩

namespace Assembly

variable {P : List Sign → Prop} {body : String} {chunks : Zone → List String}

/-- Pieces of the document, which is put together without a template, are those of the zones. -/
theorem isMadeOf_minimal (hbody : IsMadeOf P (stripNewlines body))
    (hchunks : ∀ z, ∀ t ∈ chunks z, t = "" ∨ IsMadeOf P (stripNewlines t)) :
    IsMadeOf P (minimal (zoneText body chunks)) := by
  have hjoined : ∀ z, IsMadeOf P (joinChunks (chunks z)) := by
    intro z
    refine .intercalate fun t ht ↦ ?_
    obtain ⟨chunk, hchunk, rfl⟩ := List.mem_map.mp ht
    obtain ⟨hmem, hvisible⟩ := List.mem_filter.mp hchunk
    rcases hchunks z chunk hmem with rfl | hmade
    · exact absurd hvisible (by decide)
    · exact hmade
  have hzone : ∀ z, IsMadeOf P (zoneText body chunks z) := by
    intro z
    cases z with
    | body => exact hbody
    | _ => exact hjoined _
  unfold minimal stack
  split
  · exact .empty
  · refine IsMadeOf.append (.intercalate fun t ht ↦ ?_) .lineFeed
    obtain ⟨z, -, rfl⟩ := List.mem_map.mp (List.mem_filter.mp ht).1
    exact hzone z

end Assembly

/-- The definitions that are used are those of footnotes. -/
theorem Shows.mono {definitions definitions' ns : List Node} {s : List Sign}
    (h : Shows definitions ns s) (hsub : ∀ d ∈ definitions, d.kind = .footnoteDefinition →
      d ∈ definitions') : Shows definitions' ns s := by
  induction h with
  | nil => exact .nil
  | nothing hnothing _ ih => exact .nothing hnothing ih
  | node _ hself _ hbelow ih => exact .node hbelow hself ih
  | note he hdefinition hkind _ ht _ hinner ih =>
    exact .note he (hsub _ hdefinition hkind) hkind hinner ht ih

/-- A document prints what its children show. -/
theorem Node.Prints.eq_of_document {n : Node} {u : Branch → List Sign} {s : List Sign}
    {properties : Attributes} (he : n.element = .document properties) (h : n.Prints u s) :
    s = u .children := by
  cases h with
  | document _ => rfl
  | wrapped hname => simp [wrapper?, he] at hname
  | code he' => simp [he] at he'
  | mark number he' => cases he.symm.trans he'
  | _ he' => cases he.symm.trans he'

/-- A tree with other metadata shows nothing else. -/
theorem Node.Redated.exists_shows {doc tree n : Node} {s : List Sign} (h : doc.Redated tree)
    (hn : n ∈ tree.visit) (hs : Shows tree.visit [n] s) :
    ∃ m ∈ doc.visit, Shows doc.visit [m] s := by
  cases hredated : h with
  | same => exact ⟨n, hn, hs⟩
  | @document properties properties' he =>
    have hs : Shows doc.visit [n] s := by
      refine hs.mono fun d hd hkind ↦ (h.mem_visit hd).resolve_left ?_
      rintro rfl
      cases hkind
    rcases h.mem_visit hn with rfl | hn
    · have hblank : blankAfter (doc.withElement (.document properties')) = blankAfter doc := by
        simp only [blankAfter, isBlock, kind, he]
        rfl
      refine ⟨doc, mem_visit_self doc, ?_⟩
      cases hs with
      | nothing hnothing _ => simp [mayPrintNothing, kind, withElement, Element.kind] at hnothing
      | @node _ _ u _ _ hu hself hr =>
        rw [hself.eq_of_document rfl, hblank]
        refine .node (fun b hb ↦ ?_) (.document he) hr
        rw [← h.branch]
        exact hu b fun hcaption ↦ absurd (hb hcaption) (by simp [kind, he, Element.kind])
      | note he' => cases he'
    · exact ⟨n, hn, hs⟩

/-- The text of an ordinary document is that of a well-formed marked one, which is made of trimmed
pieces that nodes of the document show. -/
theorem printed_text_is_wellFormed {doc : Node} {t : Typescript} (hdoc : doc.isWellTyped = true)
    (hordinary : doc.IsOrdinaryTree) (h : typeset .default doc = .ok t) :
    ∃ s, textOf s = t.text ∧ IsStacked (fun r ↦ ∃ n ∈ doc.visit, Shows doc.visit [n] r) s ∧
      IsWellFormed s := by
  have hproper := Node.isProper_of_isWellTyped hdoc
  obtain ⟨tree, body, r, htree, htreeproper, hrun, htext⟩ := exists_run_of_typeset rfl hproper h
  have hredated := redated_of_prepare? hproper hordinary htree
  obtain ⟨hbody, hchunks⟩ :=
    givesOut_of_occurrence (hredated.isOrdinaryTree hordinary) htreeproper hrun
  have hpiece : ∀ n ∈ tree.visit, ∀ u, n.GivesOut tree.visit (some u) →
      IsMadeOf (fun r ↦ ∃ n ∈ doc.visit, Shows doc.visit [n] r) (stripNewlines u) := by
    intro n hn u hu
    obtain ⟨s, s', hshows, htrimmed, rfl⟩ := hu.exists_shows
    exact .piece (hredated.exists_shows hn hshows) htrimmed
  have hmade : IsMadeOf (fun r ↦ ∃ n ∈ doc.visit, Shows doc.visit [n] r) t.text := by
    rw [htext]
    refine Assembly.isMadeOf_minimal ?_ fun z u hu ↦ (hchunks z u hu).imp_right ?_
    · cases body with
      | none => exact .empty
      | some u => exact hpiece tree (Node.mem_visit_self tree) u hbody
    · rintro ⟨n, hn, hprinted⟩
      exact hpiece n hn u hprinted
  obtain ⟨s, hs, hstext⟩ := hmade
  have hsound : IsSound s := hs.isSound fun r ⟨n, _, hr⟩ ↦ hr.isSound
  exact ⟨s, hstext, hs, hsound.isWellFormed⟩

/-- A document with nothing but a heading. -/
def headedDocument (customId title : String) : Node :=
  ⟨⟨.unknown, 0, none, [], .document [], []⟩, [heading], [], none, none⟩
where
  heading : Node :=
    ⟨⟨.unknown, 0, none, [], .heading ⟨1, none, some customId, none, false, []⟩, []⟩, [],
      [.inline .unknown 0 (.text title) []], none, none⟩

theorem headedDocument_is_wellFormed :
    (headedDocument "a b" "\x7b_\\").isWellTyped = true ∧
      (headedDocument "a b" "\x7b_\\").IsOrdinaryTree ∧
        ∃ s, textOf s = "\\section\x7b\\\x7b\\_\\textbackslash\x7b\x7d\x7d\n" ++
          "\\label\x7bsec:a-b\x7d\n" ∧ IsWellFormed s := by
  have htypeset : typeset .default (headedDocument "a b" "\x7b_\\") =
      .ok ⟨"\\section\x7b\\\x7b\\_\\textbackslash\x7b\x7d\x7d\n" ++
        "\\label\x7bsec:a-b\x7d\n", []⟩ := by
    rfl
  obtain ⟨s, hs, -, hwellFormed⟩ := printed_text_is_wellFormed (by decide) (by decide) htypeset
  exact ⟨by decide, by decide, s, hs, hwellFormed⟩

/-- The underscore of a heading's identifier stands bare in the key that is made from it: without
the one in the identifier there is none. -/
theorem headedDocument_keeps_underscore :
    (headedDocument "a_b" "x").isWellTyped = true ∧ (headedDocument "a_b" "x").IsOrdinaryTree ∧
      typeset .default (headedDocument "a_b" "x") =
          .ok ⟨"\\section\x7bx\x7d\n\\label\x7bsec:a_b\x7d\n", []⟩ ∧
        '_' ∈ bare id "\\section\x7bx\x7d\n\\label\x7bsec:a_b\x7d\n".toList ∧
      typeset .default (headedDocument "ab" "x") =
          .ok ⟨"\\section\x7bx\x7d\n\\label\x7bsec:ab\x7d\n", []⟩ ∧
        '_' ∉ "\\section\x7bx\x7d\n\\label\x7bsec:ab\x7d\n".toList := by
  refine ⟨by decide, by decide, ?_, by decide, ?_, by decide⟩
  · rfl
  · rfl

end Typeset

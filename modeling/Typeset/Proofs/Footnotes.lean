import Typeset.Proofs.Assembled
import Typeset.Proofs.Notes.Erasure
import Typeset.Proofs.Notes.Reckoning

/-!
# Footnotes

The first use of a footnote prints its text and each later one a mark with its number. So where a
mark stands in a document, the text stands there too, exactly once, unless it was lost on the way:
with the first use in something that is printed and left out. A document without references in such
places loses none. The numbers are those of the texts in the order of the document, unless something
was put elsewhere after its numbers had been given.
-/

namespace Typeset

open Action Context Latex Render Text

/-! ## The notes of a document -/

/-- The notes of a document: those that stand in its text, in their order, and those that are lost
on the way. -/
structure Footnotes where
  shown : List Note
  lost : List Note
deriving DecidableEq, Repr

namespace Footnotes

/-- The texts of footnotes in the document. -/
def texts (notes : Footnotes) : List Note := notes.shown.filter (·.printsText)

/-- The key of a label is not that of a footnote without a label. -/
def keepsApart (notes : Footnotes) (label : String) : Bool :=
  (notes.shown ++ notes.lost).all fun n ↦ n.source.key != label || n.source == .label label

end Footnotes

namespace Ledger

/-- The notes in the chunks of a zone, given those in the body. -/
def inZone (body : List Note) (l : Ledger) : Zone → List (List Note)
  | .body => [body]
  | z => l.chunks z

/-- The notes of a document after it has been printed. -/
def close (body : List Note) (l : Ledger) : Footnotes where
  shown := Assembly.zoneOrder.flatMap fun z ↦ (l.inZone body z).flatten
  lost := l.lost ++ l.held.flatMap (·.2)

theorem perm_close (body : List Note) {l : Ledger} (hbody : l.chunks .body = []) :
    (body ++ l.kept).Perm ((l.close body).shown ++ (l.close body).lost) := by
  rw [List.perm_iff_count]
  intro n
  simp only [close, kept, inZone, Assembly.zoneOrder, Zone.all, List.flatMap_cons,
    List.flatMap_nil, List.flatten_cons, List.flatten_nil, List.count_append, List.count_nil, hbody]
  omega

theorem shown_close {body : List Note} {l : Ledger} (hstill : l.IsStill) :
    (l.close body).shown = body := by
  have hnone : ∀ z, (l.chunks z).flatten = [] := fun z ↦
    List.flatten_eq_nil_iff.mpr (hstill.chunks z)
  simp [close, inZone, Assembly.zoneOrder, hnone]

theorem lost_close (body : List Note) {l : Ledger} (hkept : l.kept = []) :
    (l.close body).lost = [] := by
  simp only [kept, List.append_eq_nil_iff] at hkept
  rw [close, hkept.1.2, hkept.2, List.append_nil]

/-- The notes stand in the document. -/
theorem Mirrors.standIn_close {l : Ledger} {c : Context} (h : l.Mirrors c) {body : List Note}
    {t : String} (hbody : StandIn body t) :
    StandIn (l.close body).shown (Assembly.minimal (Assembly.zoneText t c.buffers.chunks)) := by
  have hzone : ∀ z, StandIn (l.inZone body z).flatten (Assembly.zoneText t c.buffers.chunks z) := by
    intro z
    cases z with
    | body =>
      rw [show (l.inZone body .body).flatten = body from List.flatten_singleton]
      exact hbody.stripNewlines (Note.areCompact_commands _)
    | _ => exact Assembly.carries_joinChunks (Note.areCompact_commands _) (h.chunks _).carriesAll
  refine Assembly.carries_minimal (Note.areCompact_commands _) ?_
  have hall : StandInAll (Assembly.zoneOrder.map fun z ↦ (l.inZone body z).flatten)
      (Assembly.zoneOrder.map (Assembly.zoneText t c.buffers.chunks)) :=
    List.forall₂_map_left_iff.mpr (List.forall₂_map_right_iff.mpr
      (List.forall₂_same.mpr fun z _ ↦ hzone z))
  rw [close, List.flatMap_def]
  exact hall.carriesAll

theorem Mirrors.chunks_body {l : Ledger} {c : Context} (h : l.Mirrors c) : l.chunks .body = [] := by
  have hbody : StandInAll (l.chunks .body) [] := h.chunks .body
  exact List.forall₂_nil_right_iff.mp hbody

end Ledger

namespace Node

/-- A document printed with its notes. -/
def noted (config : Config) (doc : Node) : Noting (Option String × List Note) :=
  Noting.node config (Noting.definitionText config doc.index.footnotes.length) (.ofRoot 0) doc

/-- The notes of a document as it is printed. -/
def footnotes (config : Config) (doc : Node) : Except Failure Footnotes :=
  match doc.noted config .empty doc.start with
  | (.ok ((_, body), l), _) => .ok (l.close body)
  | (.error e, _) => .error e

variable {config : Config} {doc : Node} {output : Option String} {c : Context}

/-- What a document prints it prints with its notes as well. -/
theorem exists_noted_of_occurrence (hdoc : doc.isProper = true)
    (hrun : occurrence config ⟨.ofRoot 0, doc⟩ doc.start = (.ok output, c)) :
    ∃ body l, doc.noted config .empty doc.start = (.ok ((output, body), l), c) := by
  let S : Scope := doc.scope fun _ ↦ True
  have hnotes : S.AdmitsNotes doc.index := scope_admitsNotes hdoc fun _ _ ↦ trivial
  have hadmits : ∀ o ∈ doc.printed (.ofRoot 0), S.Admits o := fun o ho ↦
    scope_admits (mem_occurrences_of_mem_printed ho) trivial
  have herases : Noting.Erases S doc.index Prod.fst (doc.noted config)
      (Render.node config (definitionText config doc.index.footnotes.length) (.ofRoot 0) doc) :=
    Noting.erases_node (Noting.erases_definitionText hnotes _) hdoc hadmits
  obtain ⟨⟨output', body⟩, l, hnoted, rfl⟩ := herases.exists_run (c := doc.start) rfl .empty hrun
  exact ⟨body, l, hnoted⟩

theorem account_start (config : Config) (doc : Node) :
    Account config doc [] [] doc.start .empty where
  index := rfl
  ancestors := rfl
  above := nofun
  mirrors := by
    refine ⟨fun z ↦ ?_, fun table ↦ .nil, List.nodup_nil⟩
    cases z <;> exact .nil
  footers p hp := absurd rfl hp
  count := rfl
  tally := .nil
  still _ := ⟨nofun, nofun⟩
  inOrder _ _ := rfl
  whole _ := rfl

/-- A document leaves the account right. -/
theorem account_of_noted (hdoc : doc.isProper = true) {body : List Note} {l : Ledger}
    (hrun : doc.noted config .empty doc.start = (.ok ((output, body), l), c)) :
    StandIn body (output.getD "") ∧ Account config doc [] (body.map Note.toUse) c l := by
  have hreckons : Noting.Reckons config doc (doc.around (.ofRoot 0)) doc.cites (·.getD "")
      (doc.noted config) :=
    .node (.definitionText hdoc _) (self_mem_occurrences _ doc)
  obtain ⟨hstand, haccount, -⟩ :=
    hreckons [] [] doc.start .empty .root (account_start config doc) output body l c hrun
  exact ⟨hstand, haccount⟩

end Node

/-- The notes of a document stand in its text, and they account for all numbers. None is lost where
the document keeps them, and where it keeps their order and no new one is lost, the numbers are given
in this order. -/
theorem exists_footnotes_of_typeset {config : Config} {doc : Node} {t : Typescript}
    (htemplate : config.template = .null) (hdoc : doc.isProper = true)
    (h : typeset config doc = .ok t) :
    ∃ tree notes numbers, prepare? doc = .ok tree ∧ tree.footnotes config = .ok notes ∧
      StandIn notes.shown t.text ∧
        Tally numbers ((notes.shown ++ notes.lost).map Note.toUse) ∧
          (tree.keepsNotes config = true → notes.lost = []) ∧
          (tree.keepsOrder config = true → (∀ n ∈ notes.lost, n.isNew = false) →
            (notes.shown.filter (·.isNew)).map (·.entry) = numbers) := by
  obtain ⟨tree, output, r, htree, hproper, hrun, htext⟩ := exists_run_of_typeset htemplate hdoc h
  obtain ⟨body, l, hnoted⟩ := Node.exists_noted_of_occurrence hproper hrun
  obtain ⟨hstand, haccount⟩ := Node.account_of_noted hproper hnoted
  refine ⟨tree, l.close body, r.footnotes, htree, ?_, ?_, ?_, fun hkeeps ↦ ?_,
    fun hkeeps hlost ↦ ?_⟩
  · rw [Node.footnotes, hnoted]
  · rw [htext]
    exact haccount.mirrors.standIn_close hstand
  · have hperm := (Ledger.perm_close body haccount.mirrors.chunks_body).map Note.toUse
    rw [List.map_append] at hperm
    exact haccount.tally.perm hperm
  · exact Ledger.lost_close body (haccount.whole hkeeps)
  · have hself := haccount.inOrder hkeeps fun n hn ↦ hlost n (List.mem_append_left _ hn)
    rw [Ledger.shown_close (haccount.still (Node.keepsPlace_of_keepsOrder hkeeps)), ← hself, Note.filter_isNew, List.map_map]
    rfl

/-! ## Texts and marks -/

namespace Footnotes

variable {notes : Footnotes} {numbers : List (Datum × Nat)} {label : String} {m : Note}

/-- With what is printed for a label belongs one text, and it has the same number. -/
theorem exists_text (htally : Tally numbers ((notes.shown ++ notes.lost).map Note.toUse))
    (hapart : notes.keepsApart label = true) (hm : m ∈ notes.shown)
    (hlabel : m.source = .label label) :
    ∃ n, (notes.shown ++ notes.lost).filter (·.isTextOf label) = [n] ∧ n.number = m.number := by
  have hkey : ∀ n ∈ notes.shown ++ notes.lost, n.source.key = label → n.source = .label label := by
    intro n hn hkey
    simpa [hkey] using List.all_eq_true.mp hapart n hn
  obtain ⟨u, hu, hnew, hentry⟩ :=
    htally.exists_new (List.mem_map_of_mem (List.mem_append_left _ hm))
  obtain ⟨n, hn, rfl⟩ := List.mem_map.mp hu
  obtain ⟨hdatum, hnumber⟩ := Prod.mk.inj hentry
  have hself : n.source.key = label := by
    rw [Datum.str.inj hdatum, hlabel]
    rfl
  have hnodup : (((notes.shown ++ notes.lost).filter (·.isNew)).map (·.source.key)).Nodup := by
    have hkeys := htally.nodup_news
    rw [Note.filter_isNew, List.map_map] at hkeys
    refine List.Nodup.of_map Datum.str ?_
    rwa [List.map_map]
  refine ⟨n, Tally.filter_eq_singleton hnodup hn hnew fun y hy ↦ ?_, hnumber⟩
  rw [hself, Note.isTextOf, Bool.and_eq_true, decide_eq_true_iff, and_comm]
  refine and_congr_right fun _ ↦ ⟨fun h ↦ ?_, hkey y hy⟩
  rw [h]
  rfl

/-- The texts are numbered in their order if all of them have their numbers with them. -/
theorem number_texts (htally : Tally numbers ((notes.shown ++ notes.lost).map Note.toUse))
    (horder : (notes.shown.filter (·.isNew)).map (·.entry) = numbers)
    (hnew : ∀ n ∈ notes.texts, n.isNew = true) :
    notes.texts.map (·.number) = List.range' 1 notes.texts.length := by
  have htexts : notes.texts = notes.shown.filter (·.isNew) := by
    refine List.filter_congr fun n hn ↦ Bool.eq_iff_iff.mpr ⟨fun h ↦ ?_, Use.printsText_of_isNew⟩
    exact hnew n (List.mem_filter.mpr ⟨hn, h⟩)
  have hnumbers := htally.numbers
  rw [← horder, ← htexts, List.map_map, List.length_map] at hnumbers
  exact hnumbers

end Footnotes

/-- Where anything is printed for the label of a footnote, its text stands in the document exactly
once, unless it is lost on the way; and nothing is lost where the document keeps its notes. -/
theorem footnote_texts_stand_once {config : Config} {doc : Node} {t : Typescript}
    (htemplate : config.template = .null) (hdoc : doc.isWellTyped = true)
    (h : typeset config doc = .ok t) :
    ∃ tree notes, prepare? doc = .ok tree ∧ tree.footnotes config = .ok notes ∧
      StandIn notes.shown t.text ∧ (tree.keepsNotes config = true → notes.lost = []) ∧
        ∀ label, notes.keepsApart label = true → ∀ m ∈ notes.shown, m.source = .label label →
          ∃ n, notes.shown.filter (·.isTextOf label) ++ notes.lost.filter (·.isTextOf label) = [n] ∧
            n.number = m.number := by
  obtain ⟨tree, notes, numbers, htree, hnotes, hstand, htally, hkeeps, -⟩ :=
    exists_footnotes_of_typeset htemplate (Node.isProper_of_isWellTyped hdoc) h
  refine ⟨tree, notes, htree, hnotes, hstand, hkeeps, fun label hapart m hm hlabel ↦ ?_⟩
  rw [← List.filter_append]
  exact Footnotes.exists_text htally hapart hm hlabel

/-- A block of some kind that has nothing but children. -/
def block (e : Element) (children : List Node) : Node :=
  ⟨⟨.unknown, 0, none, [], e, []⟩, children, [], none, none⟩

/-- A reference to a footnote. -/
def cite (label : Option String) (children : List Node) : Node :=
  .inline .unknown 0 (.footnoteReference label) children

/-- Running text. -/
def inlineText (t : String) : Node := .inline .unknown 0 (.text t) []

/-- Two footnotes that refer to each other. -/
def mutualNotes : Node := block (.document []) [
  block .paragraph [cite (some "a") [], cite (some "b") [], cite (some "a") []],
  block (.footnoteDefinition "a") [block .paragraph [inlineText "x", cite (some "b") []]],
  block (.footnoteDefinition "b") [block .paragraph [inlineText "y", cite (some "a") []]]]

theorem mutualNotes_texts_stand_once :
    mutualNotes.isWellTyped = true ∧ ∃ t notes n, typeset .default mutualNotes = .ok t ∧
      mutualNotes.footnotes .default = .ok notes ∧ StandIn notes.shown t.text ∧
        notes.shown.filter (·.isTextOf "b") = [n] ∧ n.number = 2 := by
  have htyped : mutualNotes.isWellTyped = true := by decide +kernel
  obtain ⟨t, htypeset, -⟩ := exists_ok_of_any (x := typeset .default mutualNotes)
    (p := fun _ ↦ true) (by decide +kernel)
  obtain ⟨tree, notes, htree, hnotes, hstand, -, htexts⟩ :=
    footnote_texts_stand_once rfl htyped htypeset
  have hprepared : prepare? mutualNotes = .ok mutualNotes := by rfl
  obtain rfl := Except.ok.inj (hprepared.symm.trans htree)
  obtain ⟨notes', hnotes', hfacts⟩ := exists_ok_of_any (x := mutualNotes.footnotes .default)
    (p := fun notes ↦ notes.keepsApart "b" && notes.lost.all (fun n ↦ !n.isTextOf "b") &&
      notes.shown.any fun m ↦ m.source == .label "b" && m.number == 2) (by decide +kernel)
  obtain rfl := Except.ok.inj (hnotes'.symm.trans hnotes)
  simp only [Bool.and_eq_true, List.any_eq_true, List.all_eq_true, beq_iff_eq,
    Bool.not_eq_eq_eq_not, Bool.not_true] at hfacts
  obtain ⟨⟨hapart, hlost⟩, m, hm, hlabel, hnumber⟩ := hfacts
  obtain ⟨n, htext, hself⟩ := htexts "b" hapart m hm hlabel
  have hnone : notes'.lost.filter (·.isTextOf "b") = [] :=
    List.filter_eq_nil_iff.mpr fun n hn ↦ Bool.eq_false_iff.mp (hlost n hn)
  rw [hnone, List.append_nil] at htext
  exact ⟨htyped, t, notes', n, htypeset, hnotes', hstand, htext, hself.trans hnumber⟩

/-- A footnote that is used first in a table and then in bold type. -/
def citedCell : Node := block (.document []) [
  block .table [block (.tableRow .standard) [block (.tableCell none) [cite (some "a") []]]],
  block .paragraph [.inline .unknown 0 .bold [cite (some "a") []]],
  block (.footnoteDefinition "a") [block .paragraph [inlineText "x"]]]

example : citedCell.keepsNotes .default = true := by decide +kernel

/-- A footnote that is first used in the definition of one that is not used. -/
def orphanedMark : Node := block (.document []) [
  block (.footnoteDefinition "a") [block .paragraph [cite (some "b") []]],
  block (.footnoteDefinition "b") [block .paragraph [inlineText "x"]],
  block .paragraph [cite (some "b") []]]

/-- The mark is all there is of the footnote. -/
theorem orphanedMark_has_no_text :
    orphanedMark.isWellTyped = true ∧ ∃ t notes, typeset .default orphanedMark = .ok t ∧
      t.text = "\\footnotemark[1]\n" ∧ orphanedMark.footnotes .default = .ok notes ∧
        (∃ m ∈ notes.shown, m.source = .label "b") ∧ notes.shown.filter (·.isTextOf "b") = [] := by
  obtain ⟨t, htypeset, htext⟩ := exists_ok_of_any (x := typeset .default orphanedMark)
    (p := fun t ↦ t.text == "\\footnotemark[1]\n") (by decide +kernel)
  obtain ⟨notes, hnotes, hfacts⟩ := exists_ok_of_any (x := orphanedMark.footnotes .default)
    (p := fun notes ↦ notes.shown.any (fun m ↦ m.source == .label "b") &&
      (notes.shown.filter (·.isTextOf "b")).isEmpty) (by decide +kernel)
  simp only [Bool.and_eq_true, List.any_eq_true, beq_iff_eq, List.isEmpty_iff] at htext hfacts
  exact ⟨by decide +kernel, t, notes, htypeset, htext, hnotes, hfacts⟩

/-- The number that is printed for the label of a footnote is that of its text, counted among the
texts in the order of the document, if the document keeps the order of its notes and all numbers
that are given are those of texts in the document. -/
theorem footnote_numbers_follow_the_text {config : Config} {doc : Node} {t : Typescript}
    (htemplate : config.template = .null) (hdoc : doc.isWellTyped = true)
    (h : typeset config doc = .ok t) :
    ∃ tree notes, prepare? doc = .ok tree ∧ tree.footnotes config = .ok notes ∧
      StandIn notes.shown t.text ∧
        (tree.keepsOrder config = true → (∀ n ∈ notes.lost, n.isNew = false) →
          (∀ n ∈ notes.texts, n.isNew = true) →
            ∀ label, notes.keepsApart label = true → ∀ m ∈ notes.shown, m.source = .label label →
              ∃ i n, notes.texts[i]? = some n ∧ n.isTextOf label = true ∧ m.number = i + 1) := by
  obtain ⟨tree, notes, numbers, htree, hnotes, hstand, htally, -, horder⟩ :=
    exists_footnotes_of_typeset htemplate (Node.isProper_of_isWellTyped hdoc) h
  refine ⟨tree, notes, htree, hnotes, hstand, fun hkeeps hlost hnew label hapart m hm hlabel ↦ ?_⟩
  obtain ⟨n, hn, hnumber⟩ := Footnotes.exists_text htally hapart hm hlabel
  obtain ⟨hmem, htext⟩ := List.mem_filter.mp (hn ▸ List.mem_cons_self :
    n ∈ (notes.shown ++ notes.lost).filter (·.isTextOf label))
  have hisNew : n.isNew = true := (Bool.and_eq_true_iff.mp htext).2
  have hshown : n ∈ notes.shown := by
    refine (List.mem_append.mp hmem).resolve_right fun hn ↦ ?_
    rw [hlost n hn] at hisNew
    cases hisNew
  have htexts : n ∈ notes.texts :=
    List.mem_filter.mpr ⟨hshown, Use.printsText_of_isNew hisNew⟩
  obtain ⟨i, hi⟩ := List.mem_iff_getElem?.mp htexts
  refine ⟨i, n, hi, htext, ?_⟩
  have hposition : (notes.texts.map (·.number))[i]? = some n.number := by
    rw [List.getElem?_map, hi]
    rfl
  rw [Footnotes.number_texts htally (horder hkeeps hlost) hnew,
    List.getElem?_range' (List.getElem?_eq_some_iff.mp hi).1] at hposition
  have hvalue := Option.some.inj hposition
  omega

theorem mutualNotes_numbers_follow_the_text :
    mutualNotes.isWellTyped = true ∧ ∃ t notes n, typeset .default mutualNotes = .ok t ∧
      mutualNotes.footnotes .default = .ok notes ∧ StandIn notes.shown t.text ∧
        notes.texts[1]? = some n ∧ n.isTextOf "b" = true ∧
          ∃ m ∈ notes.shown, m.source = .label "b" ∧ m.printsText = false ∧ m.number = 2 := by
  have htyped : mutualNotes.isWellTyped = true := by decide +kernel
  obtain ⟨t, htypeset, -⟩ := exists_ok_of_any (x := typeset .default mutualNotes)
    (p := fun _ ↦ true) (by decide +kernel)
  obtain ⟨tree, notes, htree, hnotes, hstand, hnumbers⟩ :=
    footnote_numbers_follow_the_text rfl htyped htypeset
  have hprepared : prepare? mutualNotes = .ok mutualNotes := by rfl
  obtain rfl := Except.ok.inj (hprepared.symm.trans htree)
  obtain ⟨notes', hnotes', hfacts⟩ := exists_ok_of_any (x := mutualNotes.footnotes .default)
    (p := fun notes ↦ notes.keepsApart "b" && notes.lost.all (fun n ↦ !n.isNew) &&
      notes.texts.all (·.isNew) &&
        notes.shown.any fun m ↦ m.source == .label "b" && !m.printsText && m.number == 2)
    (by decide +kernel)
  obtain rfl := Except.ok.inj (hnotes'.symm.trans hnotes)
  simp only [Bool.and_eq_true, List.any_eq_true, List.all_eq_true, beq_iff_eq,
    Bool.not_eq_eq_eq_not, Bool.not_true] at hfacts
  obtain ⟨⟨⟨hapart, hlost⟩, hnew⟩, m, hm, ⟨hlabel, hmark⟩, hnumber⟩ := hfacts
  obtain ⟨i, n, hi, htext, hself⟩ :=
    hnumbers (by decide +kernel) hlost hnew "b" hapart m hm hlabel
  obtain rfl : i = 1 := by omega
  exact ⟨htyped, t, notes', n, htypeset, hnotes', hstand, hi, htext, m, hm, hlabel, hmark, hnumber⟩

/-- A footnote that is used first in the text of another one. -/
def nestedNote : Node := block (.document []) [
  block .paragraph [cite none [inlineText "x", cite (some "b") [inlineText "y"]], cite (some "b") []]]

/-- The mark has the number of the outer text, which stands first. -/
theorem nestedNote_has_wrong_number :
    nestedNote.isWellTyped = true ∧ ∃ t notes, typeset .default nestedNote = .ok t ∧
      t.text = "\\footnote\x7bx\\footnote\x7by\x7d\x7d\\footnotemark[1]\n" ∧
        nestedNote.footnotes .default = .ok notes ∧
          ∃ m ∈ notes.shown, m.source = .label "b" ∧ m.printsText = false ∧
            ¬ ∃ n, notes.texts[m.number - 1]? = some n ∧ n.isTextOf "b" = true := by
  obtain ⟨t, htypeset, htext⟩ := exists_ok_of_any (x := typeset .default nestedNote)
    (p := fun t ↦ t.text == "\\footnote\x7bx\\footnote\x7by\x7d\x7d\\footnotemark[1]\n")
    (by decide +kernel)
  obtain ⟨notes, hnotes, hfacts⟩ := exists_ok_of_any (x := nestedNote.footnotes .default)
    (p := fun notes ↦ notes.shown.any fun m ↦ m.source == .label "b" && !m.printsText &&
      !notes.texts[m.number - 1]?.any (·.isTextOf "b")) (by decide +kernel)
  simp only [List.any_eq_true, Bool.and_eq_true, beq_iff_eq, Bool.not_eq_eq_eq_not, Bool.not_true]
    at htext hfacts
  obtain ⟨m, hm, ⟨hlabel, hmark⟩, hother⟩ := hfacts
  refine ⟨by decide +kernel, t, notes, htypeset, htext, hnotes, m, hm, hlabel, hmark, ?_⟩
  rintro ⟨n, hn, hself⟩
  rw [hn, Option.any_some, hself] at hother
  cases hother

end Typeset

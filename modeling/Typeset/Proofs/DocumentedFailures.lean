import Typeset.Proofs.Render.Failing
import Typeset.Proofs.Tree.PreparedTypes

/-!
# Failures that users see

Whatever a document says and whatever templates, snippets and styles a configuration asks for,
typesetting gives a text or fails in one of the ways that are documented. All it takes are values of
the declared types, heading levels from one on, plain label formats, and a configuration that has a
format for each kind of markup and all delimiters of its quotes.
-/

namespace Typeset

open Action Context Render

variable {config : Config} {doc tree : Node}

namespace Node.IsPrintable

/-- A printable document is still printable when it has been prepared. -/
theorem of_prepare? (hdoc : doc.IsPrintable) (h : prepare? doc = .ok tree) :
    tree.IsPrintable where
  isWellTyped := isWellTyped_of_prepare? hdoc.isWellTyped h
  levels n hn g he := by
    rcases element_of_prepare? hdoc.isWellTyped h hn with hkind | hkind | ⟨k, hk, hkn, -⟩
    · rw [kind, he] at hkind
      cases hkind
    · rw [kind, he] at hkind
      cases hkind
    · exact hdoc.levels k hk g (hkn.trans he)
  formats n hn b he := by
    rcases element_of_prepare? hdoc.isWellTyped h hn with hkind | hkind | ⟨k, hk, hkn, -⟩
    · rw [kind, he] at hkind
      cases hkind
    · rw [kind, he] at hkind
      cases hkind
    · exact hdoc.formats k hk b (hkn.trans he)

theorem areTexts_properties (hdoc : doc.IsPrintable) : doc.properties.areTexts = true := by
  have helement : doc.element.isWellTyped = true :=
    NodeInfo.isWellTyped_element (info_isWellTyped hdoc.isWellTyped)
  unfold properties
  split
  · next properties he =>
    rw [he] at helement
    exact helement
  · rfl

end Node.IsPrintable

section

variable (hconfig : config.IsWellTyped) (hcomplete : config.IsComplete)

include hconfig hcomplete

theorem print_fails_as_documented (hdoc : doc.IsPrintable) :
    (∃ t, print config doc = .ok t) ∨
      ∃ e, print config doc = .error e ∧ e.isDocumented = true := by
  have hstart : doc.start.StandsIn doc [] := ⟨rfl, (arrives_ofRoot doc).sound, rfl⟩
  have hsafe := (isSafe_occurrence hconfig hcomplete hdoc doc.start hstart).1
  rw [print_eq hdoc.isProper config]
  cases hrun : occurrence config ⟨.ofRoot 0, doc⟩ doc.start with
  | mk r c =>
    rw [hrun] at hsafe
    cases r with
    | error e => exact .inr ⟨e, rfl, hsafe e rfl⟩
    | ok body =>
      obtain ⟨r, hr⟩ := Assembly.exists_assemble hconfig hdoc.areTexts_properties (body.getD "")
        c.buffers.chunks
      dsimp only
      rw [hr]
      exact .inl ⟨_, rfl⟩

/-- Typesetting a document gives a text, or fails in a way that is documented: nothing that is looked
up is missing, no index or slot is out of range, no quotes, template or snippet are what it fails at,
and no value is of a type that an operation has no use for. -/
theorem typeset_fails_as_documented (hdoc : doc.IsPrintable) :
    (∃ t, typeset config doc = .ok t) ∨
      ∃ e, typeset config doc = .error e ∧ e.isDocumented = true := by
  obtain ⟨tree, htree⟩ := exists_prepare? hdoc.isWellTyped
  rw [typeset, htree]
  exact print_fails_as_documented hconfig hcomplete (hdoc.of_prepare? htree)

end

/-- A heading with code below it, and a link to nothing. -/
def danglingLink : Node := block (.document []) [chapter] []
where
  block (e : Element) (children title : List Node) : Node :=
    ⟨⟨.unknown, 0, none, [], e, []⟩, children, title, none, none⟩
  chapter : Node := block (.heading heading) [block (.codeBlock code) [] [], paragraph] []
  heading : Heading := ⟨1, none, none, none, false, []⟩
  code : CodeBlock := ⟨"a\n", none, some .new, 0, "(ref:%s)", false, []⟩
  paragraph : Node := block .paragraph [.inline .unknown 0 (.link "fuzzy" "nowhere") []] []

theorem danglingLink_fails_as_documented :
    Config.default.IsWellTyped ∧ Config.default.IsComplete ∧ danglingLink.IsPrintable ∧
      ∃ e, typeset .default danglingLink = .error e ∧ e.isDocumented = true := by
  have hprintable : danglingLink.IsPrintable := by decide
  refine ⟨Config.isWellTyped_default, Config.isComplete_default, hprintable, ?_⟩
  refine (typeset_fails_as_documented Config.isWellTyped_default Config.isComplete_default
    hprintable).resolve_left ?_
  rintro ⟨t, ht⟩
  have hlink : typeset .default danglingLink = .error
      (.unresolvedLink "fuzzy" (.str "nowhere") (some .unknown)) := by rfl
  rw [hlink] at ht
  cases ht

end Typeset

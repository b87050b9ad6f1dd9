import Typeset.Proofs.Code.Lines
import Typeset.Proofs.Code.Listings
import Typeset.Proofs.Render.Delivery

/-!
# Numbers of labelled lines

A label in code stands for a line of the first block of code that has it. What a link to the label
shows is the number that is printed in front of this line, or the place of the line in its block if
the block prints no numbers.
-/

namespace Typeset

open Action Context Render Text

/-- No block of code among the occurrences has a line with the marker of the label. -/
def IsUnmarked (label : String) (os : List Occurrence) : Prop :=
  ∀ o ∈ os, ∀ b, o.node.element = .codeBlock b → ∀ line ∈ lines b.value,
    b.isMarked label line = false

instance (label : String) (os : List Occurrence) : Decidable (IsUnmarked label os) :=
  inferInstanceAs (Decidable (∀ o ∈ os, ∀ b, o.node.element = .codeBlock b →
    ∀ line ∈ lines b.value, b.isMarked label line = false))

section

variable (ix : LinkIndex) (origin : Option Origin) {label : String} {os : List Occurrence}

theorem lineOf?_ofOccurrence {o : Occurrence} {b : CodeBlock} (ho : o.node.isProper = true)
    (hformat : LabelFormat.isPlain b.labelFormat = true) :
    (CodeEntry.ofOccurrence o b).lineOf? (.str label) =
      .ok (((lines b.value).findIdx? (b.isMarked label)).map (· + 1)) := by
  rw [CodeEntry.lineOf?, CodeEntry.ofOccurrence, Node.loose?_eq_none ho]
  exact CodeBlock.lineOf?_of_isPlain hformat label

variable (hproper : ∀ o ∈ os, o.node.isProper = true)
  (hformats : ∀ o ∈ os, ∀ b, o.node.element = .codeBlock b →
    LabelFormat.isPlain b.labelFormat = true)

include hproper hformats

/-- If a label stands for no line, it is because it resolves to nothing. -/
theorem eq_of_codeLineIn_eq_error {e : Failure}
    (h : ix.codeLineIn (.str label) origin (os.filterMap (·.listing?)) = .error e) :
    e = .unresolvedCode (.str label) origin := by
  induction os with
  | nil => exact (Except.error.inj h).symm
  | cons o os ih =>
    have ih := ih (fun o ho ↦ hproper o (.tail _ ho)) fun o ho ↦ hformats o (.tail _ ho)
    rw [List.filterMap_cons] at h
    cases hentry : o.listing? with
    | none =>
      rw [hentry] at h
      exact ih h
    | some entry =>
      obtain ⟨b, hb, rfl⟩ := Occurrence.listing?_eq_some_iff.mp hentry
      rw [hentry] at h
      simp only [LinkIndex.codeLineIn, bind, Except.bind, lineOf?_ofOccurrence
        (hproper o List.mem_cons_self) (hformats o List.mem_cons_self b hb)] at h
      cases hfind : (lines b.value).findIdx? (b.isMarked label) with
      | none =>
        rw [hfind] at h
        exact ih h
      | some k =>
        rw [hfind] at h
        simp only [Option.map_some] at h
        split at h <;> cases h

end

end Typeset

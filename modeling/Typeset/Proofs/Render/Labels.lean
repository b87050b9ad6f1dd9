import Typeset.Proofs.Latex.Keys
import Typeset.Proofs.Latex.Labels
import Typeset.Proofs.Render.Slots

/-!
# Labels that last

A place keeps the reference that it was given, so the label of an occurrence is the same from the
moment on at which it is first asked for. Labels are made of letters, digits and a few signs.
-/

namespace Typeset

/-- What labels may begin with. -/
def Node.labelPrefixes : List String := ["", "sec:", "tab:", "eq:", "fig:"]

theorem Node.labelPrefix_mem (n : Node) : n.labelPrefix ∈ labelPrefixes := by
  unfold labelPrefix
  split
  · decide
  · decide
  · split <;> decide
  · split <;> decide
  · decide

namespace References

/-- The label that an occurrence has as soon as it is made to have one. -/
def labelText (r : References) (o : Occurrence) : String := ((r.label o true).1).getD ""

theorem isKey_labelOf (n : Node) (key : String) : Latex.IsKey (labelOf n key) := by
  have hprefixes : ∀ s ∈ Node.labelPrefixes, Latex.IsKey s := by decide
  have hstart := hprefixes n.labelPrefix n.labelPrefix_mem
  rw [Latex.IsKey, labelOf, String.toList_append]
  exact List.forall_mem_append.mpr ⟨hstart, Latex.isKey_labelKey key⟩

/-- All labels are keys. -/
theorem isKey_label {r : References} {o : Occurrence} {force : Bool} {label : String}
    (h : (r.label o force).1 = some label) : Latex.IsKey label := by
  unfold References.label at h
  split at h
  · split at h
    · exact Option.some.inj h ▸ isKey_labelOf _ _
    · exact Option.some.inj h ▸ isKey_labelOf _ _
  · split at h
    · exact Option.some.inj h ▸ isKey_labelOf _ _
    · cases h

theorem notMem_labelText (r : References) (o : Occurrence) : '\\' ∉ (r.labelText o).toList := by
  unfold labelText
  cases h : (r.label o true).1 with
  | none => exact List.not_mem_nil
  | some label => exact fun hmem ↦ absurd (isKey_label h _ hmem) (by decide)

theorem fst_reference_of_prefix {r r' : References} {p : Place}
    (h : (r.reference p).2.places <+: r'.places) : (r'.reference p).1 = (r.reference p).1 := by
  obtain ⟨more, hmore⟩ := h
  unfold reference at hmore ⊢
  cases hi : r.places.idxOf? p with
  | some i =>
    rw [hi] at hmore
    have hi' : r'.places.idxOf? p = some i := by
      rw [← hmore]
      unfold List.idxOf? at hi ⊢
      rw [List.findIdx?_append, hi]
      rfl
    simp only [hi']
  | none =>
    rw [hi] at hmore
    have hi' : r'.places.idxOf? p = some r.places.length := by
      rw [← hmore]
      unfold List.idxOf? at hi ⊢
      rw [List.append_assoc, List.findIdx?_append, hi]
      simp [List.findIdx?_cons]
    simp only [hi']

/-- A label stays what it was when it was asked for. -/
theorem labelText_of_prefix {r r' : References} {o : Occurrence} {force : Bool} {label : String}
    (hlabel : (r.label o force).1 = some label) (h : (r.label o force).2.places <+: r'.places) :
    r'.labelText o = label := by
  unfold labelText
  unfold References.label at hlabel h ⊢
  cases hkey : o.node.explicitKey with
  | some key =>
    simp only [hkey] at hlabel h ⊢
    split at hlabel
    · next hempty =>
      rw [if_pos hempty] at h ⊢
      rw [← Option.some.inj hlabel, ← fst_reference_of_prefix h]
      rfl
    · next hempty =>
      rw [if_neg hempty]
      exact Option.some.inj hlabel
  | none =>
    simp only [hkey] at hlabel h ⊢
    split at hlabel
    · next hforce =>
      rw [if_pos hforce] at h
      rw [if_pos (by simp), ← Option.some.inj hlabel, ← fst_reference_of_prefix h]
      rfl
    · cases hlabel

theorem isSome_fst_label {r : References} {o : Occurrence} {force : Bool}
    (h : force = true ∨ o.node.explicitKey.isSome = true) : (r.label o force).1.isSome = true := by
  unfold label
  split
  · split <;> rfl
  · next hkey =>
    have hforce : force = true := h.resolve_right (by simp [hkey])
    rw [if_pos (by simp [hforce])]
    rfl

end References

namespace Context

/-- The label that an action asks for is the one that the occurrence has later on. -/
theorem labelText_of_labelWith {o : Occurrence} {force : Bool} {label : Option String}
    {c d : Context} {r : References} (h : labelWith force o c = (.ok label, d))
    (hr : d.references.places <+: r.places)
    (hsome : force = true ∨ o.node.explicitKey.isSome = true) : label = some (r.labelText o) := by
  obtain ⟨rfl, rfl⟩ := ok_of_labelWith h
  obtain ⟨l, hl⟩ := Option.isSome_iff_exists.mp
    (References.isSome_fst_label (r := c.references) hsome)
  rw [References.labelText_of_prefix hl hr]
  exact hl

end Context

end Typeset

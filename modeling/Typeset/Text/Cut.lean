/-!
# Cutting a text at a pattern

`cut? pattern` finds the first occurrence of a pattern and gives what stands before and after it.
Filling a template and testing for a substring are read off the cut.
-/

namespace Typeset.Text

/-- What stands before and after the first occurrence of the pattern. -/
def cut? (pattern : List Char) : List Char → Option (List Char × List Char)
  | [] => if pattern.isEmpty then some ([], []) else none
  | c :: cs =>
    if pattern.isPrefixOf (c :: cs) then some ([], (c :: cs).drop pattern.length)
    else (cut? pattern cs).map fun (before, after) ↦ (c :: before, after)

/-- A cut takes the text apart around the pattern and loses nothing. -/
theorem eq_append_of_cut? {pattern cs before after : List Char}
    (h : cut? pattern cs = some (before, after)) : cs = before ++ pattern ++ after := by
  induction cs generalizing before with
  | nil =>
    simp only [cut?, List.isEmpty_iff] at h
    split at h
    · next hp => simp only [Option.some.injEq, Prod.mk.injEq] at h; simp [← h.1, ← h.2, hp]
    · exact absurd h (by simp)
  | cons c cs ih =>
    simp only [cut?] at h
    split at h
    · next hp =>
      obtain ⟨rest, hr⟩ := List.isPrefixOf_iff_prefix.1 hp
      simp only [Option.some.injEq, Prod.mk.injEq] at h
      rw [← h.1, ← h.2, ← hr]
      simp
    · obtain ⟨⟨b, a⟩, hb, he⟩ := Option.map_eq_some_iff.1 h
      simp only [Prod.mk.injEq] at he
      obtain ⟨rfl, rfl⟩ := he
      simp [ih hb]

/-- The pattern occurs in the text. -/
def holds (t pattern : String) : Bool := (cut? pattern.toList t.toList).isSome

/-- The text around the first occurrence of the pattern; a text without it stands before. -/
def partitionAt (t pattern : String) : String × String :=
  match cut? pattern.toList t.toList with
  | some (before, after) => (.ofList before, .ofList after)
  | none => (t, "")

/-- The template with the text in place of its first `%s`. -/
def fill (template text : String) : String :=
  match cut? ['%', 's'] template.toList with
  | some (before, after) => .ofList before ++ text ++ .ofList after
  | none => template

/-- The text without the given beginning, if it has it. -/
def dropBeginning (t beginning : String) : String :=
  if beginning.toList.isPrefixOf t.toList then .ofList (t.toList.drop beginning.toList.length)
  else t

/-- The text without the given ending, if it has it. -/
def dropEnding (t ending : String) : String :=
  if ending.toList.isSuffixOf t.toList then
    .ofList (t.toList.take (t.toList.length - ending.toList.length))
  else t

/-- The text begins with the given one. -/
def beginsWith (t beginning : String) : Bool := beginning.toList.isPrefixOf t.toList

/-- The text ends with the given one. -/
def endsWith (t ending : String) : Bool := ending.toList.isSuffixOf t.toList

end Typeset.Text

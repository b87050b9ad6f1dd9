import Typeset.Json.Basic

/-!
# Entries: JSON values by name

Entries are meant to be texts, as attributes and properties are, but their values are not
restricted. They can be asked for as texts, as what counts as true, or as they are printed.
-/

namespace Typeset

/-- Texts by name. -/
abbrev Texts := List (String × String)

/-- JSON values by name. -/
abbrev Entries := List (String × Json)

namespace Json

/-- A value as it is printed, if it counts as true. -/
def printed? (j : Json) : Option String := if j.isTrue then some j.plain else none

/-- The text that a value is. -/
def text? : Json → Option String
  | .str t => some t
  | _ => none

@[simp] theorem text?_str (s : String) : text? (.str s) = some s := rfl

@[simp] theorem printed?_str (s : String) :
    printed? (.str s) = if s.isEmpty then none else some s := by
  cases h : s.isEmpty <;> simp [printed?, h]

end Json

namespace Entries

/-- The value of a name as it is printed. -/
def shown? (e : Entries) (name : String) : Option String := (e.lookup name).map Json.plain

/-- The value of a name, if it counts as true. -/
def true? (e : Entries) (name : String) : Option Json := (e.lookup name).filter Json.isTrue

/-- The value of a name as it is printed, if it counts as true. -/
def printed? (e : Entries) (name : String) : Option String := (e.true? name).map Json.plain

/-- The text of a name, if its value is one. -/
def text? (e : Entries) (name : String) : Option String := (e.lookup name).bind Json.text?

/-- The value of a name that counts as true and is no text. -/
def trueLoose? (e : Entries) (name : String) : Option Json :=
  (e.true? name).filter fun j ↦ j.text?.isNone

/-- The name has a value and that is not null. -/
def has (e : Entries) (name : String) : Bool := (e.lookup name).any (· != .null)

/-- The entries of texts. -/
def ofTexts (ts : Texts) : Entries := ts.map fun (name, t) ↦ (name, .str t)

/-- The texts among entries. -/
def texts (e : Entries) : Texts :=
  e.filterMap fun (name, value) ↦ value.text?.map fun t ↦ (name, t)

/-- The values of entries as they are printed. -/
def shownTexts (e : Entries) : Texts := e.map fun (name, value) ↦ (name, value.plain)

end Entries

end Typeset

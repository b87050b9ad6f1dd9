/-!
# Association lists

Two ways to enter a value under a key: `put` replaces an earlier value and `register` keeps it.
Look-up is `List.lookup`.
-/

namespace Typeset.Assoc

variable {α : Type} {β : Type} [BEq α]

/-- The value entered under the key, in place of an earlier one. -/
def put (key : α) (value : β) : List (α × β) → List (α × β)
  | [] => [(key, value)]
  | (k, v) :: rest => if k == key then (k, value) :: rest else (k, v) :: put key value rest

/-- The value entered under the key unless the key already has one. -/
def register (key : α) (value : β) (entries : List (α × β)) : List (α × β) :=
  if (entries.lookup key).isSome then entries else entries ++ [(key, value)]

/-- The list without the first entry of the key. -/
def remove (key : α) (entries : List (α × β)) : List (α × β) :=
  entries.eraseP fun e ↦ e.1 == key

/-- Entries in order of arrival, where a repeated key keeps its first place and its last value. -/
def lastWins (entries : List (α × β)) : List (α × β) :=
  entries.foldl (fun acc e ↦ put e.1 e.2 acc) []

theorem lookup_append (entries more : List (α × β)) (key : α) :
    (entries ++ more).lookup key = (entries.lookup key).or (more.lookup key) := by
  induction entries with
  | nil => simp
  | cons e rest ih =>
    obtain ⟨k, v⟩ := e
    simp only [List.cons_append, List.lookup_cons]
    split <;> simp [ih]

variable [LawfulBEq α]

@[simp] theorem lookup_put_self (key : α) (value : β) (entries : List (α × β)) :
    (put key value entries).lookup key = some value := by
  induction entries with
  | nil => simp [put]
  | cons e rest ih =>
    obtain ⟨k, v⟩ := e
    simp only [put]
    split
    · next h => simp [eq_of_beq h]
    · next h =>
      have : (key == k) = false := by
        cases hk : key == k with
        | false => rfl
        | true => exact absurd (by simp [eq_of_beq hk]) h
      simp [List.lookup_cons, this, ih]

/-- The first value registered under a key stays. -/
theorem lookup_register (key key' : α) (value : β) (entries : List (α × β)) :
    (register key value entries).lookup key' =
      (entries.lookup key').or (if key' == key then some value else none) := by
  unfold register
  split
  · next h =>
    cases hk : key' == key with
    | false => simp
    | true =>
      rw [eq_of_beq hk]
      cases hl : entries.lookup key with
      | none => simp [hl] at h
      | some v => simp
  · rw [lookup_append]
    cases hk : key' == key <;> simp [List.lookup_cons, hk]

end Typeset.Assoc

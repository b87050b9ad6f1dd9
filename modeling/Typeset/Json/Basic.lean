import Typeset.Text.Quoted

/-!
# JSON values

Numbers are integers of any size and an object keeps its members in the order of the text.
-/

namespace Typeset

/-- A JSON value. -/
inductive Json where
  | null
  | bool (b : Bool)
  | int (n : Int)
  | str (s : String)
  | arr (items : List Json)
  | obj (members : List (String × Json))
deriving Repr, Inhabited

namespace Json

mutual

/-- Two values are equal. -/
def same : Json → Json → Bool
  | .null, .null => true
  | .bool a, .bool b => a == b
  | .int m, .int n => m == n
  | .str s, .str t => s == t
  | .arr xs, .arr ys => sameItems xs ys
  | .obj ms, .obj ns => sameMembers ms ns
  | _, _ => false
termination_by structural j => j

/-- The items of two arrays are equal. -/
def sameItems : List Json → List Json → Bool
  | [], [] => true
  | x :: xs, y :: ys => x.same y && sameItems xs ys
  | _, _ => false
termination_by structural js => js

/-- The members of two objects are equal and in the same order. -/
def sameMembers : List (String × Json) → List (String × Json) → Bool
  | [], [] => true
  | (k, v) :: ms, (l, w) :: ns => k == l && v.same w && sameMembers ms ns
  | _, _ => false
termination_by structural ms => ms

end

mutual

theorem same_iff : ∀ a b : Json, a.same b = true ↔ a = b
  | .null, b => by cases b <;> simp [same]
  | .bool _, b => by cases b <;> simp [same]
  | .int _, b => by cases b <;> simp [same]
  | .str _, b => by cases b <;> simp [same]
  | .arr xs, b => by cases b <;> simp [same, sameItems_iff xs]
  | .obj ms, b => by cases b <;> simp [same, sameMembers_iff ms]

theorem sameItems_iff : ∀ xs ys : List Json, sameItems xs ys = true ↔ xs = ys
  | [], ys => by cases ys <;> simp [sameItems]
  | x :: xs, ys => by cases ys <;> simp [sameItems, same_iff x, sameItems_iff xs]

theorem sameMembers_iff :
    ∀ ms ns : List (String × Json), sameMembers ms ns = true ↔ ms = ns
  | [], ns => by cases ns <;> simp [sameMembers]
  | (k, v) :: ms, [] => by simp [sameMembers]
  | (k, v) :: ms, (l, w) :: ns => by
    simp [sameMembers, same_iff v, sameMembers_iff ms, and_assoc]

end

instance : DecidableEq Json := fun a b ↦ decidable_of_iff _ (same_iff a b)

mutual

/-- How a value is shown in messages. -/
def shown : Json → String
  | .null => "None"
  | .bool true => "True"
  | .bool false => "False"
  | .int n => toString n
  | .str s => Text.quoted s
  | .arr items => "[" ++ String.intercalate ", " (shownItems items) ++ "]"
  | .obj members => "\x7b" ++ String.intercalate ", " (shownMembers members) ++ "\x7d"
termination_by structural j => j

/-- How the items of an array are shown. -/
def shownItems : List Json → List String
  | [] => []
  | item :: items => item.shown :: shownItems items
termination_by structural js => js

/-- How the members of an object are shown. -/
def shownMembers : List (String × Json) → List String
  | [] => []
  | (key, value) :: members => (Text.quoted key ++ ": " ++ value.shown) :: shownMembers members
termination_by structural ms => ms

end

/-- What messages call the type of a value. -/
def typeName : Json → String
  | .null => "NoneType"
  | .bool _ => "bool"
  | .int _ => "int"
  | .str _ => "str"
  | .arr _ => "list"
  | .obj _ => "dict"

/-- The value counts as true: it is no null, false, zero, and nothing empty. -/
def isTrue : Json → Bool
  | .null => false
  | .bool b => b
  | .int n => n != 0
  | .str s => !s.isEmpty
  | .arr items => !items.isEmpty
  | .obj members => !members.isEmpty

/-- A value put into a text: a text as it is, anything else as messages show it. -/
def plain : Json → String
  | .str s => s
  | j => j.shown

@[simp] theorem plain_str (s : String) : plain (.str s) = s := rfl

@[simp] theorem isTrue_str (s : String) : isTrue (.str s) = !s.isEmpty := rfl

/-- The members of an object, none for any other value. -/
def members : Json → List (String × Json)
  | .obj ms => ms
  | _ => []

/-- The value of an object's member, null if there is none. -/
def get (j : Json) (key : String) : Json := (j.members.lookup key).getD .null

end Json

end Typeset

import Typeset.Json.Basic
import Typeset.Tree.Kind
import Typeset.Zone

/-!
# Data: values of any type

What a field of a node or an option of a configuration can hold. Most operations need a value of
one type, but some take any: they ask whether a value counts as true, what it is as the key of a
table, or how it reads when it is put into a text.
-/

namespace Typeset

/-- A value of any type. -/
inductive Datum where
  | null
  | bool (b : Bool)
  | int (n : Int)
  | str (s : String)
  | seq (items : List Datum)
  /-- A mapping, kept as it was read. -/
  | mapping (members : List (String × Json))
  | position (line column file : Json)
  | zone (z : Zone)
  /-- A node with the values of its fields in the order of their declaration. -/
  | node (kind : Kind) (values : List Datum)
deriving Repr, Inhabited

namespace Datum

mutual

/-- Two values are equal. -/
def same : Datum → Datum → Bool
  | .null, .null => true
  | .bool a, .bool b => a == b
  | .int m, .int n => m == n
  | .str s, .str t => s == t
  | .seq xs, .seq ys => sameItems xs ys
  | .mapping ms, .mapping ns => decide (ms = ns)
  | .position l c f, .position l' c' f' => decide (l = l' ∧ c = c' ∧ f = f')
  | .zone y, .zone z => decide (y = z)
  | .node k xs, .node l ys => decide (k = l) && sameItems xs ys
  | _, _ => false
termination_by structural d => d

/-- Values are equal one by one. -/
def sameItems : List Datum → List Datum → Bool
  | [], [] => true
  | x :: xs, y :: ys => x.same y && sameItems xs ys
  | _, _ => false
termination_by structural ds => ds

end

mutual

theorem same_iff : ∀ a b : Datum, a.same b = true ↔ a = b
  | .null, b => by cases b <;> simp [same]
  | .bool _, b => by cases b <;> simp [same]
  | .int _, b => by cases b <;> simp [same]
  | .str _, b => by cases b <;> simp [same]
  | .seq xs, b => by cases b <;> simp [same, sameItems_iff xs]
  | .mapping _, b => by cases b <;> simp [same]
  | .position .., b => by cases b <;> simp [same]
  | .zone _, b => by cases b <;> simp [same]
  | .node _ xs, b => by cases b <;> simp [same, sameItems_iff xs]

theorem sameItems_iff : ∀ xs ys : List Datum, sameItems xs ys = true ↔ xs = ys
  | [], ys => by cases ys <;> simp [sameItems]
  | x :: xs, ys => by cases ys <;> simp [sameItems, same_iff x, sameItems_iff xs]

end

instance : DecidableEq Datum := fun a b ↦ decidable_of_iff _ (same_iff a b)

/-- What messages call the type of a value. -/
def typeName : Datum → String
  | .null => "NoneType"
  | .bool _ => "bool"
  | .int _ => "int"
  | .str _ => "str"
  | .seq _ => "tuple"
  | .mapping _ => "dict"
  | .position .. => "SourceLocation"
  | .zone _ => "Zone"
  | .node kind _ => kind.name

/-- The value counts as true: it is no null, false, zero, and nothing empty. -/
def isTrue : Datum → Bool
  | .null => false
  | .bool b => b
  | .int n => n != 0
  | .str s => !s.isEmpty
  | .seq items => !items.isEmpty
  | .mapping members => !members.isEmpty
  | .position .. | .zone _ | .node .. => true

/-- The whole number that a value counts as, where truth values count as one and zero. -/
def number? : Datum → Option Int
  | .int n => some n
  | .bool b => some (if b then 1 else 0)
  | _ => none

/-- The text that a value is. -/
def text? : Datum → Option String
  | .str s => some s
  | _ => none

/-- A text that may be missing. -/
def ofText? (t : Option String) : Datum := (t.map .str).getD .null

/-- A number that may be missing. -/
def ofNumber? (n : Option Int) : Datum := (n.map .int).getD .null

/-- A sequence of texts. -/
def ofTexts (ts : List String) : Datum := .seq (ts.map .str)

/-- The items of a value that has some: those of a sequence, the characters of a text or the names
in a mapping. -/
def items? : Datum → Option (List Datum)
  | .seq items => some items
  | .str s => some (s.toList.map fun c ↦ .str (.singleton c))
  | .mapping members => some (members.map fun (name, _) ↦ .str name)
  | _ => none

mutual

/-- The value as a key, where truth values are the same keys as numbers. -/
def key : Datum → Datum
  | .bool b => .int (if b then 1 else 0)
  | .seq items => .seq (keys items)
  | d => d
termination_by structural d => d

/-- Values as keys. -/
def keys : List Datum → List Datum
  | [] => []
  | item :: items => item.key :: keys items
termination_by structural ds => ds

end

@[simp] theorem key_str (s : String) : key (.str s) = .str s := rfl

/-- The type of a JSON value that no key can have: lists and mappings can change. -/
def changeable? : Json → Option String
  | .arr _ => some "list"
  | .obj _ => some "dict"
  | _ => none

mutual

/-- The type for which a value can be no key: its own or that of a value in it. -/
def unkeyed? : Datum → Option String
  | .mapping _ => some "dict"
  | .position line column file =>
    (changeable? line).or ((changeable? column).or (changeable? file))
  | .seq items => unkeyedIn? items
  | .node _ values => unkeyedIn? values
  | _ => none
termination_by structural d => d

/-- The first type for which some values can be no keys. -/
def unkeyedIn? : List Datum → Option String
  | [] => none
  | item :: items => item.unkeyed?.or (unkeyedIn? items)
termination_by structural ds => ds

end

end Datum

end Typeset

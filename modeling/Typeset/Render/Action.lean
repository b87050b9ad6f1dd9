import Typeset.Render.Context

/-!
# Actions on a context

An action gives a result or fails, and changes the context either way: what it did before it
failed stays done.
-/

namespace Typeset

/-- A computation on a context. -/
def Action (α : Type) : Type := Context → Except Failure α × Context

namespace Action

variable {α β : Type}

instance : Monad Action where
  pure a := fun c ↦ (.ok a, c)
  bind x k := fun c ↦
    match x c with
    | (.ok a, c) => k a c
    | (.error e, c) => (.error e, c)

@[simp] theorem pure_apply (a : α) (c : Context) : (pure a : Action α) c = (.ok a, c) := rfl

theorem bind_apply (x : Action α) (k : α → Action β) (c : Context) :
    (x >>= k) c = match x c with
      | (.ok a, c) => k a c
      | (.error e, c) => (.error e, c) := rfl

theorem bind_of_ok {x : Action α} {k : α → Action β} {c c' : Context} {a : α}
    (h : x c = (.ok a, c')) : (x >>= k) c = k a c' := by rw [bind_apply, h]

theorem bind_of_error {x : Action α} {k : α → Action β} {c c' : Context} {e : Failure}
    (h : x c = (.error e, c')) : (x >>= k) c = (.error e, c') := by rw [bind_apply, h]

instance : LawfulMonad Action := LawfulMonad.mk' Action
  (fun x ↦ by
    funext c
    cases h : x c with
    | mk r c' =>
      cases r with
      | ok a => simp only [Functor.map, h]; rfl
      | error e => simp only [Functor.map, h])
  (fun _ _ ↦ rfl)
  (fun x f g ↦ by
    funext c
    cases h : x c with
    | mk r c' => cases r <;> simp [bind_apply, h])

/-- The action that fails. -/
def fail (e : Failure) : Action α := fun c ↦ (.error e, c)

/-- What the context tells. -/
def ask (f : Context → α) : Action α := fun c ↦ (.ok (f c), c)

/-- A change of the context. -/
def change (f : Context → Context) : Action Unit := fun c ↦ (.ok (), f c)

/-- A result that may be a failure. -/
def ofExcept (r : Except Failure α) : Action α := fun c ↦ (r, c)

/-- The action that fails if something is wrong. -/
def check (fault : Option Failure) : Action Unit := fun c ↦
  match fault with
  | some e => (.error e, c)
  | none => (.ok (), c)

@[simp] theorem fail_apply (e : Failure) (c : Context) :
    (fail e : Action α) c = (.error e, c) := rfl

@[simp] theorem ask_apply (f : Context → α) (c : Context) : ask f c = (.ok (f c), c) := rfl

@[simp] theorem change_apply (f : Context → Context) (c : Context) :
    change f c = (.ok (), f c) := rfl

@[simp] theorem check_some (e : Failure) (c : Context) : check (some e) c = (.error e, c) := rfl

@[simp] theorem check_none (c : Context) : check none c = (.ok (), c) := rfl

@[simp] theorem ofExcept_apply (r : Except Failure α) (c : Context) : ofExcept r c = (r, c) := rfl

end Action

namespace Context

open Action

/-- Record a problem. -/
def warn (message : String) : Action Unit :=
  change fun c ↦ { c with warnings := c.warnings ++ [message] }

/-- Hold the next slot of a zone's buffer for a place. -/
def reserve (z : Zone) (p : Place) : Action Unit := fun c ↦
  match c.buffers.get? z with
  | none => (.error (.unbufferedZone z), c)
  | some chunks =>
    (.ok (), { c with
      buffers := c.buffers.set (chunks ++ [""]) z
      reservations := Assoc.put p chunks.length c.reservations })

/-- Put a text into a zone's buffer: into the slot held for the place, or behind all others. A
slot beyond the buffer is given up all the same. -/
def route (z : Zone) (text : String) (p : Option Place) : Action Unit := fun c ↦
  match c.buffers.get? z with
  | none => (.error (.unbufferedZone z), c)
  | some chunks =>
    match p.bind fun p ↦ (c.reservations.lookup p).map fun slot ↦ (p, slot) with
    | none => (.ok (), { c with buffers := c.buffers.set (chunks ++ [text]) z })
    | some (p, slot) =>
      let c := { c with reservations := Assoc.remove p c.reservations }
      if slot < chunks.length then
        (.ok (), { c with buffers := c.buffers.set (chunks.set slot text) z })
      else (.error .slotOutOfRange, c)

/-- The name a language has by the configuration, looked up as it is written and then in lower
case; what counts as false is no name. -/
def languageName (config : Config) (language : String) : Json :=
  ((config.languageNames.true? language).or
    (config.languageNames.true? (Text.lower language))).getD (.str language)

/-- The configured name of a language, looked up once. -/
def nameOfLanguage (config : Config) (language : String) : Action Json := fun c ↦
  match c.languages.lookup language with
  | some name => (.ok name, c)
  | none =>
    let name := languageName config language
    (.ok name, { c with languages := c.languages ++ [(language, name)] })

/-- The number of a footnote and whether this is its first use. -/
def nextFootnote (label : Datum) : Action (Nat × Bool) := fun c ↦
  match c.footnotes.lookup label.key with
  | some number => (.ok (number, false), c)
  | none =>
    let number := c.footnoteCount + 1
    (.ok (number, true),
      { c with footnotes := c.footnotes ++ [(label.key, number)], footnoteCount := number })

/-- Begin with the children of a node. -/
def push (o : Occurrence) : Action Unit :=
  change fun c ↦ { c with ancestors := o :: c.ancestors }

/-- Be done with the children of the innermost node. -/
def pop : Action Occurrence := fun c ↦
  match c.ancestors with
  | o :: rest => (.ok o, { c with ancestors := rest })
  | [] => (.error .noAncestor, c)

/-- The reference of a place. -/
def reference (p : Place) : Action String := fun c ↦
  let (token, r) := c.references.reference p
  (.ok token, { c with references := r })

/-- The label of an occurrence, if it has one or is forced to have one. -/
def labelWith (force : Bool) (o : Occurrence) : Action (Option String) := fun c ↦
  match c.references.label? o force with
  | .ok (label, r) => (.ok label, { c with references := r })
  | .error e => (.error e, c)

/-- The label of an occurrence, if it has one. -/
def label? (o : Occurrence) : Action (Option String) := labelWith false o

/-- The label of an occurrence, which is made to have one. -/
def label (o : Occurrence) : Action String := do return (← labelWith true o).getD ""

/-- Hold back a row of a table. -/
def hold (table : Place) (row : String) : Action Unit :=
  change fun c ↦
    { c with
      heldRows := Assoc.put table (((c.heldRows.lookup table).getD []) ++ [row]) c.heldRows }

/-- The rows held back for a table, which are let go. -/
def release (table : Place) : Action (List String) := fun c ↦
  (.ok ((c.heldRows.lookup table).getD []),
    { c with heldRows := Assoc.remove table c.heldRows })

end Context

end Typeset

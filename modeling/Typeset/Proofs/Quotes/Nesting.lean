import Mathlib.Data.List.Infix
import Typeset.Quotes

/-!
# Nested quotations

Quotations are nested if each closing quote has the level of the opening one that it belongs to. The
innermost quotation that is open after some marks is the one behind whose opening everything is
nested. There is never more than one, and none where all quotations are closed.
-/

namespace Typeset.Quotes

namespace Level

/-- The role of the quotes that open quotations of the level. -/
def opening : Level → Role
  | .primary => .primaryOpening
  | .secondary => .secondaryOpening

/-- The role of the quotes that close quotations of the level. -/
def closing : Level → Role
  | .primary => .primaryClosing
  | .secondary => .secondaryClosing

theorem opening_inj {l l' : Level} (h : l.opening = l'.opening) : l = l' := by
  cases l <;> cases l' <;> first | rfl | cases h

end Level

/-- Quotations one after the other and inside one another, with apostrophes anywhere. -/
inductive IsNested : List Role → Prop
  | nil : IsNested []
  | apostrophe {rs : List Role} : IsNested rs → IsNested (.apostrophe :: rs)
  | quotation (l : Level) {inside rest : List Role} : IsNested inside → IsNested rest →
      IsNested (l.opening :: (inside ++ l.closing :: rest))

/-! ## Openings and closings -/

namespace Role

/-- A quote that opens a quotation. -/
def opens : Role → Bool
  | .primaryOpening | .secondaryOpening => true
  | _ => false

/-- A quote that closes a quotation. -/
def closes : Role → Bool
  | .primaryClosing | .secondaryClosing => true
  | _ => false

end Role

namespace Level

@[simp] theorem opens_opening (l : Level) : l.opening.opens = true := by cases l <;> rfl

@[simp] theorem closes_opening (l : Level) : l.opening.closes = false := by cases l <;> rfl

@[simp] theorem opens_closing (l : Level) : l.closing.opens = false := by cases l <;> rfl

@[simp] theorem closes_closing (l : Level) : l.closing.closes = true := by cases l <;> rfl

end Level

namespace IsNested

variable {rs ss : List Role}

theorem append (h : IsNested rs) (h' : IsNested ss) : IsNested (rs ++ ss) := by
  induction h with
  | nil => exact h'
  | apostrophe _ ih => exact .apostrophe ih
  | quotation l hinside _ _ ih =>
    rw [List.cons_append, List.append_assoc, List.cons_append]
    exact .quotation l hinside ih

/-- As many quotes open as close. -/
theorem countP_opens (h : IsNested rs) : rs.countP Role.opens = rs.countP Role.closes := by
  induction h with
  | nil => rfl
  | apostrophe _ ih => simpa [List.countP_cons, Role.opens, Role.closes] using ih
  | quotation l _ _ ih ih' =>
    simp only [List.countP_cons, List.countP_append, Level.opens_opening, Level.opens_closing,
      Level.closes_opening, Level.closes_closing, ih, ih']
    simp only [if_true, Bool.false_eq_true, if_false]
    omega

/-- From no place on do more quotes open than close. -/
theorem countP_opens_le (h : IsNested rs) {before : List Role} (hrs : rs = before ++ ss) :
    ss.countP Role.opens ≤ ss.countP Role.closes := by
  induction h generalizing before ss with
  | nil =>
    obtain ⟨-, rfl⟩ := List.append_eq_nil_iff.mp hrs.symm
    exact Nat.le_refl 0
  | apostrophe hrest ih =>
    cases before with
    | nil => exact (hrs ▸ IsNested.apostrophe hrest).countP_opens.le
    | cons r before => exact ih (List.cons.inj hrs).2
  | @quotation l inside rest hinside hrest ih ih' =>
    have hclosing : (l.closing :: rest).countP Role.opens ≤
        (l.closing :: rest).countP Role.closes := by
      rw [List.countP_cons_of_neg (by simp), List.countP_cons_of_pos (by simp), hrest.countP_opens]
      exact Nat.le_succ _
    cases before with
    | nil => exact (hrs ▸ IsNested.quotation l hinside hrest).countP_opens.le
    | cons r before =>
      rcases List.append_eq_append_iff.mp (List.cons.inj hrs).2 with
        ⟨between, rfl, htail⟩ | ⟨between, rfl, rfl⟩
      · cases between with
        | nil => exact (List.nil_append ss ▸ htail) ▸ hclosing
        | cons r between => exact ih' (List.cons.inj htail).2
      · rw [List.countP_append, List.countP_append]
        exact Nat.add_le_add (ih rfl) hclosing

theorem count_primaryOpening (h : IsNested rs) :
    rs.count .primaryOpening = rs.count .primaryClosing := by
  induction h with
  | nil => rfl
  | apostrophe _ ih => simpa using ih
  | quotation l _ _ ih ih' =>
    cases l <;> simp [Level.opening, Level.closing, ih, ih']
    omega

end IsNested

/-! ## Innermost quotations -/

/-- The role of a mark, if it is a quote. -/
def Mark.role? : Mark → Option Role
  | .plain _ => none
  | .quote role => some role

/-- The roles of the quotes among some marks. -/
def roles (ms : List Mark) : List Role := ms.filterMap Mark.role?

@[simp] theorem roles_nil : roles [] = [] := rfl

@[simp] theorem roles_plain_cons (c : Char) (ms : List Mark) : roles (.plain c :: ms) = roles ms :=
  rfl

@[simp] theorem roles_quote_cons (role : Role) (ms : List Mark) :
    roles (.quote role :: ms) = role :: roles ms := rfl

@[simp] theorem roles_append (ms ms' : List Mark) : roles (ms ++ ms') = roles ms ++ roles ms' :=
  List.filterMap_append

/-- A quotation of a level is open behind some marks, and it opened at a position: everything behind
its opening is nested. -/
structure IsInnermost (ms : List Mark) (l : Level) (i : Nat) : Prop where
  opens : ms[i]? = some (.quote l.opening)
  isNested : IsNested (roles (ms.drop (i + 1)))

namespace IsInnermost

variable {ms : List Mark} {l l' : Level} {i j : Nat}

theorem roles_drop (h : IsInnermost ms l i) :
    roles (ms.drop i) = l.opening :: roles (ms.drop (i + 1)) := by
  obtain ⟨hi, hmark⟩ := List.getElem?_eq_some_iff.mp h.opens
  rw [List.drop_eq_getElem_cons hi, hmark]
  rfl

/-- From the opening on more quotes open than close, so it does not stand within what is nested. -/
theorem not_isNested (h : IsInnermost ms l i) (before : List Role) :
    ¬ IsNested (before ++ roles (ms.drop i)) := by
  intro hnested
  have hle := hnested.countP_opens_le rfl
  rw [h.roles_drop, List.countP_cons_of_pos (by simp), List.countP_cons_of_neg (by simp),
    h.isNested.countP_opens] at hle
  omega

/-- Where everything is nested no quotation is open. -/
theorem not_isNested_roles (h : IsInnermost ms l i) : ¬ IsNested (roles ms) := by
  intro hnested
  refine h.not_isNested (roles (ms.take i)) ?_
  rwa [← roles_append, List.take_append_drop]

theorem le (h : IsInnermost ms l i) (h' : IsInnermost ms l' j) : j ≤ i := by
  by_contra hlt
  refine h'.not_isNested (roles ((ms.drop (i + 1)).take (j - (i + 1)))) ?_
  have hdrop : ms.drop j = (ms.drop (i + 1)).drop (j - (i + 1)) := by
    rw [List.drop_drop]
    congr
    omega
  rw [hdrop, ← roles_append, List.take_append_drop]
  exact h.isNested

/-- There is only one innermost quotation. -/
theorem eq (h : IsInnermost ms l i) (h' : IsInnermost ms l' j) : l = l' ∧ i = j := by
  obtain rfl : i = j := Nat.le_antisymm (h'.le h) (h.le h')
  have hmark := h.opens.symm.trans h'.opens
  exact ⟨Level.opening_inj (by simpa using hmark), rfl⟩

end IsInnermost

theorem Mark.quote_ne_opening {role : Role} (h : role.opens = false) (l : Level) :
    Mark.quote role ≠ .quote l.opening := by
  rintro heq
  rw [Mark.quote.inj heq, Level.opens_opening] at h
  cases h

/-! ## Quotations left open -/

/-- The quotations left open behind some marks with their positions, the innermost first. What
stands between two of their openings, and before the first and behind the last one, is nested. -/
inductive LeavesOpen : List Mark → List (Level × Nat) → Prop
  | none {ms : List Mark} : IsNested (roles ms) → LeavesOpen ms []
  | quotation {before inside : List Mark} {pending : List (Level × Nat)} (l : Level) :
      LeavesOpen before pending → IsNested (roles inside) →
        LeavesOpen (before ++ .quote l.opening :: inside) ((l, before.length) :: pending)

namespace LeavesOpen

variable {ms : List Mark} {pending : List (Level × Nat)} {l : Level} {i : Nat}

theorem append (h : LeavesOpen ms pending) {ms' : List Mark} (h' : IsNested (roles ms')) :
    LeavesOpen (ms ++ ms') pending := by
  cases h with
  | none hnested =>
    refine .none ?_
    rw [roles_append]
    exact hnested.append h'
  | quotation l hbefore hinside =>
    rw [List.append_assoc, List.cons_append]
    refine .quotation l hbefore ?_
    rw [roles_append]
    exact hinside.append h'

/-- One more quotation is left open behind a quote that opens. -/
theorem concat_opening (h : LeavesOpen ms pending) (l : Level) :
    LeavesOpen (ms ++ [.quote l.opening]) ((l, ms.length) :: pending) := .quotation l h .nil

/-- The innermost quotation is no longer open behind a quote that closes it. -/
theorem concat_closing (h : LeavesOpen ms ((l, i) :: pending)) :
    LeavesOpen (ms ++ [.quote l.closing]) pending := by
  cases h with
  | quotation _ hbefore hinside =>
    rw [List.append_assoc]
    refine hbefore.append ?_
    have hnested := IsNested.quotation l hinside .nil
    simpa using hnested

theorem isInnermost (h : LeavesOpen ms ((l, i) :: pending)) : IsInnermost ms l i := by
  cases h with
  | @quotation before inside _ _ hbefore hinside =>
    refine ⟨by simp, ?_⟩
    rw [← List.drop_drop, List.drop_left, List.drop_succ_cons, List.drop_zero]
    exact hinside

/-- No quotation is open exactly if everything is nested. -/
theorem isNested_iff (h : LeavesOpen ms pending) : IsNested (roles ms) ↔ pending = [] := by
  constructor
  · intro hnested
    cases pending with
    | nil => rfl
    | cons entry pending => exact absurd hnested h.isInnermost.not_isNested_roles
  · rintro rfl
    cases h with
    | none hnested => exact hnested

end LeavesOpen

end Typeset.Quotes

import Mathlib.Data.List.Forall2
import Mathlib.Data.Option.Basic

/-!
# Matched lists

Two lists match if the elements of the first one have counterparts in the second one, in the same
order, and whatever else stands in the second one is of a certain sort. A search for something that
is never of this sort ends at counterparts.
-/

namespace Typeset

variable {α β : Type} {R S : α → β → Prop} {P : β → Prop} {as as' : List α} {bs bs' : List β}

/-- The elements of the first list have counterparts in the second one, in the same order, and the
others in the second one are extra. -/
inductive Matched (R : α → β → Prop) (P : β → Prop) : List α → List β → Prop
  | nil : Matched R P [] []
  | both {a : α} {b : β} {as : List α} {bs : List β} :
    R a b → Matched R P as bs → Matched R P (a :: as) (b :: bs)
  | extra {b : β} {as : List α} {bs : List β} : P b → Matched R P as bs → Matched R P as (b :: bs)

namespace Matched

theorem append (h : Matched R P as bs) (h' : Matched R P as' bs') :
    Matched R P (as ++ as') (bs ++ bs') := by
  induction h with
  | nil => exact h'
  | both hab _ ih => exact .both hab ih
  | extra hb _ ih => exact .extra hb ih

theorem mono (h : Matched R P as bs) (himp : ∀ a b, R a b → S a b) : Matched S P as bs := by
  induction h with
  | nil => exact .nil
  | both hab _ ih => exact .both (himp _ _ hab) ih
  | extra hb _ ih => exact .extra hb ih

/-- What is known of the elements of both lists is known of counterparts. -/
theorem imp_of_mem (h : Matched R P as bs) (himp : ∀ a ∈ as, ∀ b ∈ bs, R a b → S a b) :
    Matched S P as bs := by
  induction h with
  | nil => exact .nil
  | both hab _ ih =>
    refine .both (himp _ List.mem_cons_self _ List.mem_cons_self hab) (ih fun a ha b hb ↦ ?_)
    exact himp a (.tail _ ha) b (.tail _ hb)
  | extra hb _ ih => exact .extra hb (ih fun a ha b hb ↦ himp a ha b (.tail _ hb))

/-- What stands side by side with the second list matches the first one, too. -/
theorem trans_forall₂ {γ : Type} {T : β → γ → Prop} {U : α → γ → Prop} {Q : γ → Prop} {cs : List γ}
    (h : Matched R P as bs) (h' : List.Forall₂ T bs cs) (hR : ∀ a b c, R a b → T b c → U a c)
    (hP : ∀ b c, P b → T b c → Q c) : Matched U Q as cs := by
  induction h generalizing cs with
  | nil =>
    cases h'
    exact .nil
  | both hab _ ih =>
    cases h' with
    | cons hbc h' => exact .both (hR _ _ _ hab hbc) (ih h')
  | extra hb _ ih =>
    cases h' with
    | cons hbc h' => exact .extra (hP _ _ hb hbc) (ih h')

/-- Nothing has counterparts in a list that is all extra. -/
theorem of_extra (h : ∀ b ∈ bs, P b) : Matched R P ([] : List α) bs := by
  induction bs with
  | nil => exact .nil
  | cons b bs ih => exact .extra (h b List.mem_cons_self) (ih fun b hb ↦ h b (.tail _ hb))

/-- Whatever stands in the second list is a counterpart or extra. -/
theorem exists_of_mem (h : Matched R P as bs) {b : β} (hb : b ∈ bs) : (∃ a ∈ as, R a b) ∨ P b := by
  induction h with
  | nil => cases hb
  | both hab _ ih =>
    rcases List.mem_cons.mp hb with rfl | hb
    · exact .inl ⟨_, List.mem_cons_self, hab⟩
    · exact (ih hb).imp_left fun ⟨a, ha, h⟩ ↦ ⟨a, .tail _ ha, h⟩
  | extra hb' _ ih =>
    rcases List.mem_cons.mp hb with rfl | hb
    · exact .inr hb'
    · exact ih hb

/-- What a search finds in the first list has a counterpart that it finds in the second one. -/
theorem find? (h : Matched R P as bs) {p : α → Bool} {q : β → Bool}
    (hR : ∀ a b, R a b → q b = p a) (hP : ∀ b, P b → q b = false) :
    Option.Rel R (as.find? p) (bs.find? q) := by
  induction h with
  | nil => exact .none
  | @both a b _ _ hab _ ih =>
    rw [List.find?_cons, List.find?_cons, hR a b hab]
    cases p a
    · exact ih
    · exact .some hab
  | @extra b _ _ hb _ ih =>
    rw [List.find?_cons, hP b hb]
    exact ih

/-- What the counterparts have in place of the elements stands in the second list in order. -/
theorem map_sublist {γ : Type} (h : Matched R P as bs) {f : α → γ} {g : β → γ}
    (hR : ∀ a b, R a b → g b = f a) : (as.map f).Sublist (bs.map g) := by
  induction h with
  | nil => exact .slnil
  | both hab _ ih =>
    rw [List.map_cons, List.map_cons, hR _ _ hab]
    exact ih.cons_cons _
  | extra _ _ ih => exact ih.cons _

/-- What is picked from the first list is picked from the second one, if nothing extra is. -/
theorem filterMap_eq {γ δ : Type} (h : Matched R P as bs) {f : α → Option γ} {g : β → Option δ}
    {k : γ → δ} (hR : ∀ a b, R a b → g b = (f a).map k) (hP : ∀ b, P b → g b = none) :
    bs.filterMap g = (as.filterMap f).map k := by
  induction h with
  | nil => rfl
  | both hab _ ih =>
    rw [List.filterMap_cons, List.filterMap_cons, hR _ _ hab, ih]
    cases f _ <;> rfl
  | extra hb _ ih => rw [List.filterMap_cons, hP _ hb, ih]

end Matched

/-! ## Lists side by side -/

/-- Whatever stands in the second list is a counterpart. -/
theorem exists_mem_of_forall₂ (h : List.Forall₂ R as bs) {b : β} (hb : b ∈ bs) :
    ∃ a ∈ as, R a b := by
  induction h with
  | nil => cases hb
  | cons hab _ ih =>
    rcases List.mem_cons.mp hb with rfl | hb
    · exact ⟨_, List.mem_cons_self, hab⟩
    · obtain ⟨a, ha, h⟩ := ih hb
      exact ⟨a, .tail _ ha, h⟩

/-- What holds of all counterparts of the items of one list holds of the items of the other. -/
theorem forall_mem_of_forall₂ (h : List.Forall₂ R as bs) (hP : ∀ a ∈ as, ∀ b, R a b → P b) :
    ∀ b ∈ bs, P b := by
  intro b hb
  obtain ⟨a, ha, hab⟩ := exists_mem_of_forall₂ h hb
  exact hP a ha b hab

theorem forall₂_imp_of_mem (h : List.Forall₂ R as bs) (himp : ∀ a ∈ as, ∀ b, R a b → S a b) :
    List.Forall₂ S as bs := by
  induction h with
  | nil => exact .nil
  | cons hab _ ih =>
    exact .cons (himp _ List.mem_cons_self _ hab) (ih fun a ha ↦ himp a (.tail _ ha))

theorem map_eq_of_forall₂ {γ : Type} (h : List.Forall₂ R as bs) {f : α → γ} {g : β → γ}
    (hfg : ∀ a b, R a b → g b = f a) : bs.map g = as.map f := by
  induction h with
  | nil => rfl
  | cons hab _ ih => rw [List.map_cons, List.map_cons, hfg _ _ hab, ih]

theorem isEmpty_of_forall₂ (h : List.Forall₂ R as bs) : bs.isEmpty = as.isEmpty := by
  cases h <;> rfl

/-- What corresponds to two lists in a row are two lists in a row. -/
theorem exists_append_of_forall₂ (h : List.Forall₂ R (as ++ as') bs) :
    ∃ cs cs', bs = cs ++ cs' ∧ List.Forall₂ R as cs ∧ List.Forall₂ R as' cs' := by
  induction as generalizing bs with
  | nil => exact ⟨[], bs, rfl, .nil, h⟩
  | cons a as ih =>
    cases h with
    | cons hab h =>
      obtain ⟨cs, cs', rfl, hcs, hcs'⟩ := ih h
      exact ⟨_ :: cs, cs', rfl, .cons hab hcs, hcs'⟩

theorem optionRel_or {x x' : Option α} {y y' : Option β} (h : Option.Rel R x y)
    (h' : Option.Rel R x' y') : Option.Rel R (x.or x') (y.or y') := by
  cases h with
  | none => exact h'
  | some hab => exact .some hab

end Typeset

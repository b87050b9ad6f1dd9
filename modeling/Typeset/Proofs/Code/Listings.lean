import Typeset.Proofs.Code.Index
import Typeset.Proofs.Render.Outputs
import Typeset.Proofs.Renderer

/-!
# Listings of indexed blocks

Printing does not index anything. So a block of code is printed with the number of its first line
that the index had from the beginning, whatever was printed before.
-/

namespace Typeset

open Action Context Render

variable {ix : LinkIndex}

/-- The action leaves the index of link targets as it is. -/
def Action.KeepsIndex {α : Type} (ix : LinkIndex) (x : Action α) : Prop :=
  ∀ c, c.references.index = ix → (x c).2.references.index = ix

namespace Action.KeepsIndex

theorem within {α : Type} (o : Occurrence) {x : Action α} (hx : KeepsIndex ix x) :
    KeepsIndex ix (Context.within o x) := by
  intro c hc
  have hx := hx { c with ancestors := o :: c.ancestors } hc
  rw [Context.within, bind_of_ok (x := push o) rfl]
  cases hr : x { c with ancestors := o :: c.ancestors } with
  | mk r d =>
    rw [hr] at hx
    cases r with
    | error e => rwa [bind_of_error hr]
    | ok a =>
      rw [bind_of_ok hr]
      cases hancestors : d.ancestors with
      | nil =>
        have hpop : pop d = (.error .noAncestor, d) := by rw [pop, hancestors]
        rwa [bind_of_error hpop]
      | cons u above =>
        have hpop : pop d = (.ok u, { d with ancestors := above }) := by rw [pop, hancestors]
        rwa [bind_of_ok hpop]

theorem closed (ix : LinkIndex) : Closed ix fun _ x ↦ KeepsIndex ix x where
  read _ := fun _ hc ↦ hc
  bindOfResult {_ _ x k} hx hk := by
    intro c hc
    have hx := hx c hc
    cases hr : x c with
    | mk r d =>
      rw [hr] at hx
      cases r with
      | error e => rwa [bind_of_error hr]
      | ok a =>
        rw [bind_of_ok hr]
        exact hk c a hc (by rw [hr]) d hx
  warn _ := fun _ hc ↦ hc
  nameOfLanguage config language := by
    intro c hc
    obtain ⟨name, languages, hname⟩ := exists_nameOfLanguage_eq config language c
    rwa [hname]
  reference p := fun c hc ↦ (References.index_reference c.references p).trans hc
  labelWith force o := by
    intro c hc
    cases hfault : o.node.labelFault? with
    | some e => rwa [labelWith_of_fault hfault]
    | none =>
      rw [labelWith_of_sound hfault]
      exact (References.index_label c.references o force).trans hc
  within o _ hx := within o hx
  hold _ _ := fun _ hc ↦ hc
  nextFootnote label := by
    intro c hc
    unfold nextFootnote
    split <;> exact hc

theorem admits (o : Occurrence) : o.Admits fun _ x ↦ KeepsIndex ix x where
  reserve _ := by
    intro c hc
    unfold reserve
    split <;> exact hc
  route _ t := by
    intro c hc
    unfold route
    split
    · exact hc
    · split
      · exact hc
      · dsimp only
        split <;> exact hc
  release := fun _ hc ↦ hc

variable (config : Config)

/-- Printing any tree leaves the index as it is. -/
theorem node (depth : Nat) (p : Place) (n : Node) :
    KeepsIndex ix (Render.node config (definitionText config depth) p n) :=
  (closed ix).nodeOfAny admits config
    (fun e _ ↦ (closed ix).definitionTextOfAny admits config depth e.2) p n

theorem all (depth : Nat) (p : Place) (b : Branch) (i : Nat) (ns : List Node) :
    KeepsIndex ix (Render.all config (definitionText config depth) p b i ns) :=
  (closed ix).allOfAny config (fun n _ p ↦ node config depth p n) p b i

end Action.KeepsIndex

end Typeset

import Typeset.Proofs.Tree.WellTyped
import Typeset.Tree.PlainText

/-!
# Proper trees have no faults

Where no value is loose and none is foreign, a visit comes to all occurrences of the tree and is
never stopped, and every node has a plain text.
-/

namespace Typeset.Node

/-! ## Visits -/

theorem textFault?_eq_none {n : Node} (h : n.isProper = true) : n.textFault? = none := by
  unfold textFault?
  split
  · next s he => exact absurd he (element_ne_foreign h _)
  · rfl

theorem childrenFault?_eq_none {n : Node} (h : n.isProper = true) : n.childrenFault? = none := by
  simp [childrenFault?, h]

theorem secondaryFault?_eq_none {n : Node} (h : n.isProper = true) (b : Branch) :
    n.secondaryFault? b = none := by
  simp [secondaryFault?, h]

theorem eventsIn_eq_map_enter {p : Place} {b : Branch} {i : Nat} {ns : List Node}
    (h : ∀ n ∈ ns, ∀ q : Place, n.events q = (n.occurrences q).map .enter) :
    eventsIn p b i ns = (occurrencesIn p b i ns).map .enter := by
  induction ns generalizing i with
  | nil => rfl
  | cons n ns ih =>
    rw [eventsIn, occurrencesIn, List.map_append, h n List.mem_cons_self,
      ih fun m hm ↦ h m (.tail _ hm)]

@[simp] theorem eventsIn?_eq (p : Place) (b : Branch) (ns : Option (List Node)) :
    eventsIn? p b ns = eventsIn p b 0 (ns.getD []) := by
  cases ns <;> rfl

/-- A visit of a proper tree enters all its occurrences, one after the other. -/
theorem events_eq_map_enter {n : Node} (h : n.isProper = true) (p : Place) :
    n.events p = (n.occurrences p).map .enter := by
  induction n using Node.induction generalizing p with
  | step n ih =>
    have hin : ∀ (b : Branch) (q : Place),
        eventsIn q b 0 (n.branch b) = (occurrencesIn q b 0 (n.branch b)).map .enter :=
      fun b q ↦ eventsIn_eq_map_enter fun m hm ↦ ih b m hm (((isProper_iff n).mp h).2 b m hm)
    have htext := textFault?_eq_none h
    have hchildren := childrenFault?_eq_none h
    have hsecondary := secondaryFault?_eq_none h
    obtain ⟨info, children, title, tag, caption⟩ := n
    rw [events, occurrences_eq]
    simp only [htext, hchildren, hsecondary, eventsIn?_eq, Option.or_none]
    rw [show eventsIn p .children 0 children = _ from hin .children p,
      show eventsIn p .title 0 title = _ from hin .title p,
      show eventsIn p .tag 0 (tag.getD []) = _ from hin .tag p,
      show eventsIn p .caption 0 (caption.getD []) = _ from hin .caption p]
    simp [Event.stops]

/-! ## Plain texts -/

theorem joinFault?_eq_none {ns : List Node} (h : ∀ n ∈ ns, n.isProper = true) (pieces : Nat) :
    joinFault? pieces ns = none := by
  induction ns generalizing pieces with
  | nil => rfl
  | cons n ns ih =>
    have hloose : n.looseText? = none := by
      unfold looseText?
      split <;> simp [loose?_eq_none (h n List.mem_cons_self)]
    rw [joinFault?, hloose]
    exact ih (fun m hm ↦ h m (.tail _ hm)) _

theorem innerFault?_eq_none {ns : List Node} (h : ∀ n ∈ ns, n.plainFault? = none) :
    innerFault? ns = none := by
  induction ns with
  | nil => rfl
  | cons n ns ih =>
    rw [innerFault?, h n List.mem_cons_self, ih fun m hm ↦ h m (.tail _ hm)]
    rfl

theorem plainFault?_eq_none {n : Node} (h : n.isProper = true) : n.plainFault? = none := by
  induction n using Node.induction with
  | step n ih =>
    have hbelow := ((isProper_iff n).mp h).2 .children
    have hinner : innerFault? n.children = none :=
      innerFault?_eq_none fun m hm ↦ ih .children m hm (hbelow m hm)
    have hjoin := joinFault?_eq_none hbelow 0
    have hblank : blankFault? n.info = none := by
      simp [blankFault?, show n.info.loose? "post_blank" = none from loose?_eq_none h _]
    have hchildren : n.info.loose? "children" = none := loose?_eq_none h _
    obtain ⟨info, children, title, tag, caption⟩ := n
    simp only [branch_children] at hinner hjoin hblank hchildren
    rw [plainFault?, hblank, hchildren, hinner, hjoin]
    simp

/-- Proper trees in a row have a plain text. -/
theorem plainTextsFault?_eq_none {ns : List Node} (h : ∀ n ∈ ns, n.isProper = true) :
    plainTextsFault? ns = none := by
  rw [plainTextsFault?, innerFault?_eq_none fun n hn ↦ plainFault?_eq_none (h n hn),
    joinFault?_eq_none h]
  rfl

end Typeset.Node

import Typeset.Proofs.References
import Typeset.Proofs.Render.Passage
import Typeset.Proofs.Render.Zones

/-!
# Contexts that are only added to

Printing a node takes back what it has put up: the nodes around are the same again, and so are the
slots that are held. All else is only added to: the buffers of the zones, the warnings, the
references and the footnotes.
-/

namespace Typeset

open Action Context Render

variable {α β : Type} {ix : LinkIndex} {P Q : Place → Prop}

namespace Context

/-- A later context with the same nodes around and the same slots held, in which all else is what it
was, or has more behind it. -/
structure GrowsInto (c d : Context) : Prop where
  index : d.references.index = c.references.index
  ancestors : d.ancestors = c.ancestors
  reservations : d.reservations = c.reservations
  chunks : ∀ z, c.buffers.chunks z <+: d.buffers.chunks z
  warnings : c.warnings <+: d.warnings
  places : c.references.places <+: d.references.places
  footnotes : c.footnotes <+: d.footnotes

namespace GrowsInto

theorem refl (c : Context) : GrowsInto c c :=
  ⟨rfl, rfl, rfl, fun _ ↦ List.prefix_rfl, List.prefix_rfl, List.prefix_rfl, List.prefix_rfl⟩

theorem trans {c d e : Context} (h : GrowsInto c d) (h' : GrowsInto d e) : GrowsInto c e where
  index := h'.index.trans h.index
  ancestors := h'.ancestors.trans h.ancestors
  reservations := h'.reservations.trans h.reservations
  chunks z := (h.chunks z).trans (h'.chunks z)
  warnings := h.warnings.trans h'.warnings
  places := h.places.trans h'.places
  footnotes := h.footnotes.trans h'.footnotes

variable {c d : Context}

/-- A footnote keeps its number. -/
theorem number (h : c.GrowsInto d) {key : Datum} {number : Nat}
    (hkey : c.footnotes.lookup key = some number) : d.footnotes.lookup key = some number := by
  obtain ⟨more, hmore⟩ := h.footnotes
  rw [← hmore, Assoc.lookup_append, hkey, Option.some_or]

/-- A place keeps its reference. -/
theorem token (h : c.GrowsInto d) {p : Place} (hp : p ∈ c.references.places) :
    (d.references.reference p).1 = (c.references.reference p).1 := by
  refine References.fst_reference_of_prefix ?_
  rcases c.references.reference_cases p with ⟨k, -, heq⟩ | ⟨hnew, -⟩
  · rw [heq]
    exact h.places
  · exact absurd hp hnew

end GrowsInto

/-! ### Slots -/

section Slot

variable {c c' : Context} {z : Zone} {p : Place}

theorem reservations_hold (hnew : p ∉ c.reservations.map (·.1)) :
    (c.withSlots (c.slots.hold z p)).reservations =
      c.reservations ++ [(p, (c.buffers.chunks z).length)] := Assoc.put_of_notMem hnew _

variable (hz : z ≠ .body) (h : (c.withSlots (c.slots.hold z p)).GrowsInto c')

include hz h

namespace GrowsInto

theorem chunks_of_hold (z' : Zone) :
    (if z' = z then c.buffers.chunks z' ++ [""] else c.buffers.chunks z') <+:
      c'.buffers.chunks z' := by
  rw [← Slots.chunks_append c.buffers hz]
  exact h.chunks z'

/-- A slot that is held stays there for its place. -/
theorem slot_of_hold : c'.slots.reservations.lookup p = some (c.buffers.chunks z).length ∧
    (c.buffers.chunks z).length < (c'.slots.buffers.chunks z).length := by
  have hlength := (h.chunks_of_hold hz z).length_le
  rw [if_pos rfl, List.length_append, List.length_singleton] at hlength
  refine ⟨?_, hlength⟩
  rw [show c'.slots.reservations = c'.reservations from rfl, h.reservations]
  exact Assoc.lookup_put_self _ _ _

/-- From before a slot is held until it is filled, a context only grows. -/
theorem fill (hnew : p ∉ c.reservations.map (·.1)) (text : String) :
    c.GrowsInto (c'.withSlots (c'.slots.fill z p (c.buffers.chunks z).length text)) := by
  refine
    { index := h.index
      ancestors := h.ancestors
      reservations := ?_
      chunks := fun z' ↦ ?_
      warnings := h.warnings
      places := h.places
      footnotes := h.footnotes }
  · show Assoc.remove p c'.reservations = c.reservations
    rw [h.reservations, reservations_hold hnew, Assoc.remove_append_of_notMem hnew,
      List.append_nil]
  · show c.buffers.chunks z' <+: (c'.slots.fill z p _ text).buffers.chunks z'
    have hz' := h.chunks_of_hold hz z'
    rw [Slots.chunks_fill c'.slots hz]
    split
    · next heq =>
      -- the slot comes right behind what stood there before
      subst heq
      rw [if_pos rfl] at hz'
      obtain ⟨more, hmore⟩ := hz'
      refine ⟨text :: more, ?_⟩
      rw [show c'.slots.buffers.chunks z' = c'.buffers.chunks z' from rfl, ← hmore]
      simp
    · next hne =>
      rw [if_neg hne] at hz'
      exact hz'

end GrowsInto

end Slot

end Context

/-! ## Actions that keep the frame -/

/-- Where none of some places holds a slot, the action only adds to the context, if it ends. -/
def Action.KeepsFrame (P : Place → Prop) (ix : LinkIndex) (x : Action α) : Prop :=
  ∀ c d a, c.references.index = ix → (∀ e ∈ c.reservations, ¬ P e.1) → x c = (.ok a, d) →
    c.GrowsInto d

namespace Action.KeepsFrame

/-- It is enough if it does so where fewer places hold no slots. -/
theorem mono {x : Action α} (h : KeepsFrame P ix x) (hPQ : ∀ p, P p → Q p) :
    KeepsFrame Q ix x :=
  fun c d a hc hfree hrun ↦ h c d a hc (fun e he hP ↦ hfree e he (hPQ _ hP)) hrun

theorem of_grows {x : Action α} (h : ∀ c, GrowsInto c (x c).2) : KeepsFrame P ix x := by
  intro c d a _ _ hrun
  have hc := h c
  rwa [hrun] at hc

theorem bindOfResult {x : Action α} {k : α → Action β} (hx : KeepsFrame P ix x)
    (hk : ∀ c a, c.references.index = ix → (x c).1 = .ok a → KeepsFrame P ix (k a)) :
    KeepsFrame P ix (x >>= k) := by
  intro c d b hc hfree hrun
  obtain ⟨a, c', hfirst, hrest⟩ := ok_of_bind hrun
  have hc' := hx c c' a hc hfree hfirst
  refine hc'.trans (hk c a hc (by rw [hfirst]) c' d b (hc'.index.trans hc) ?_ hrest)
  rwa [hc'.reservations]

theorem within (o : Occurrence) {x : Action α} (hx : KeepsFrame P ix x) :
    KeepsFrame P ix (Context.within o x) := by
  intro c d a hc hfree hrun
  obtain ⟨d', hrun', rfl⟩ := ok_of_within hrun
  have hd' := hx { c with ancestors := o :: c.ancestors } d' a hc hfree hrun'
  exact { hd' with ancestors := by rw [hd'.ancestors, List.tail_cons] }

theorem growsInto_of_references {c : Context} {r : References} (hindex : r.index = c.references.index)
    (hplaces : c.references.places <+: r.places) : c.GrowsInto { c with references := r } :=
  { GrowsInto.refl c with
    index := hindex
    places := hplaces }

theorem nameOfLanguage (config : Config) (language : String) :
    KeepsFrame P ix (nameOfLanguage config language) := by
  refine of_grows fun c ↦ ?_
  obtain ⟨name, languages, hname⟩ := exists_nameOfLanguage_eq config language c
  rw [hname]
  exact { GrowsInto.refl c with }

theorem nextFootnote (label : Datum) : KeepsFrame P ix (nextFootnote label) := by
  refine of_grows fun c ↦ ?_
  cases h : c.footnotes.lookup label.key with
  | some number =>
    simp only [Context.nextFootnote, h]
    exact .refl c
  | none =>
    simp only [Context.nextFootnote, h]
    exact { GrowsInto.refl c with footnotes := List.prefix_append _ _ }

theorem labelWith (force : Bool) (o : Occurrence) : KeepsFrame P ix (labelWith force o) := by
  refine of_grows fun c ↦ ?_
  cases hfault : o.node.labelFault? with
  | some e =>
    rw [labelWith_of_fault hfault]
    exact .refl c
  | none =>
    rw [labelWith_of_sound hfault]
    exact growsInto_of_references (References.index_label c.references o force)
      (Passing.places_label c.references o force)

/-- Keeping the frame is closed under what printing is made of. -/
theorem closed (P : Place → Prop) (ix : LinkIndex) : Closed ix fun _ x ↦ KeepsFrame P ix x where
  read _ := of_grows fun c ↦ .refl c
  bindOfResult := bindOfResult
  within := within
  warn _ := of_grows fun c ↦ { GrowsInto.refl c with warnings := List.prefix_append _ _ }
  hold _ _ := of_grows fun c ↦ { GrowsInto.refl c with }
  nameOfLanguage := nameOfLanguage
  nextFootnote := nextFootnote
  reference p := of_grows fun c ↦ growsInto_of_references
    (References.index_reference c.references p) (Passing.places_reference c.references p)
  labelWith := labelWith

theorem admits {o : Occurrence} (hzone : o.node.zone = .body) :
    o.Admits fun _ x ↦ KeepsFrame P ix x where
  reserve h := absurd hzone h
  route h := absurd hzone h
  release := of_grows fun c ↦ { GrowsInto.refl c with }

/-- A heading of a zone holds its slot while what is below it is printed, and puts its text there.
What is below must not hold slots itself, nor the heading. -/
theorem slot {z : Zone} {p : Place} (hz : z ≠ .body) (hself : ¬ P p) (hp : Q p)
    (hPQ : ∀ q, P q → Q q) {x : Action String} (hx : KeepsFrame P ix x) :
    KeepsFrame Q ix (do
      reserve z p
      let text ← x
      route z text (some p)
      return (none : Option String)) := by
  intro c d a hc hfree hrun
  have hnew : p ∉ c.reservations.map (·.1) := by
    intro hmem
    obtain ⟨e, he, rfl⟩ := List.mem_map.mp hmem
    exact hfree e he hp
  have hbelow : ∀ e ∈ (c.withSlots (c.slots.hold z p)).reservations, ¬ P e.1 := by
    intro e he
    rw [reservations_hold hnew, List.mem_append, List.mem_singleton] at he
    rcases he with he | rfl
    · exact fun hP ↦ hfree e he (hPQ _ hP)
    · exact hself
  have hreserve : reserve z p c = (.ok (), c.withSlots (c.slots.hold z p)) :=
    reserve_withSlots (s := c.slots) hz
  rw [bind_of_ok hreserve] at hrun
  obtain ⟨text, c', htext, hrest⟩ := ok_of_bind hrun
  have hgrows := hx (c.withSlots (c.slots.hold z p)) c' text hc hbelow htext
  obtain ⟨hlookup, hslot⟩ := hgrows.slot_of_hold hz
  have hroute : route z text (some p) c' = (.ok (), c'.withSlots (c'.slots.fill z p _ text)) :=
    route_withSlots (s := c'.slots) hz text hlookup hslot
  rw [bind_of_ok hroute] at hrest
  cases hrest
  exact hgrows.fill hz hnew text

variable (config : Config) {expand : Occurrence → Action String}

/-- The places of a tree. -/
def IsIn (n : Node) (p q : Place) : Prop := ∃ o ∈ n.occurrences p, o.place = q

theorem isIn_of_child {n m : Node} {p q : Place} {k : Nat} (hm : n.children[k]? = some m)
    (h : IsIn m (p.down .children k) q) : IsIn n p q ∧ q ≠ p := by
  obtain ⟨o, ho, rfl⟩ := h
  refine ⟨⟨o, Node.mem_occurrences_iff.mpr (.inr ⟨.children, k, m, hm, ho⟩), rfl⟩, ?_⟩
  exact (Node.isBelow_of_mem_occurrences ho).ne_of_down

/-- Printing a tree none of whose nodes holds a slot keeps the frame. -/
theorem node (hexpand : ∀ P, ∀ e ∈ ix.footnotes, KeepsFrame P ix (expand e.2)) {n : Node}
    (hn : n.isWellTyped = true) (p : Place) :
    KeepsFrame (IsIn n p) ix (Render.node config expand p n) := by
  induction n using Node.induction generalizing p with
  | step n ih =>
    have hchildren : KeepsFrame (fun q ↦ IsIn n p q ∧ q ≠ p) ix
        (Context.within ⟨p, n⟩ (Render.all config expand p .children 0 n.children)) := by
      refine (closed _ ix).within _ ((closed _ ix).lasting.all config (fun m hm ↦ ?_) fun k m hk ↦ ?_)
      · exact Node.isProper_of_isWellTyped (Node.isWellTyped_of_mem_branch (b := .children) hn hm).2
      · have hm := List.mem_of_getElem? hk
        have htyped := (Node.isWellTyped_of_mem_branch (b := .children) hn hm).2
        rw [Nat.zero_add]
        exact (ih .children m hm htyped _).mono fun q ↦ isIn_of_child hk
    have hparts : ∀ P, KeepsFrame P ix (secondaryParts config expand ⟨p, n⟩) :=
      fun P ↦ (closed P ix).secondaryPartsOfWellTyped config (fun _ ↦ admits) (hexpand P) hn
    rw [node_eq (Node.isProper_of_isWellTyped hn)]
    cases hz : n.zoneHeading? with
    | none =>
      have hzone := Node.zoneHeading?_eq_none hz
      rw [reserveSlot, if_pos hzone, pure_bind]
      refine (closed _ ix).bind (hparts _) fun parts ↦ ?_
      refine (closed _ ix).bind (hchildren.mono fun _ h ↦ h.1) fun outputs ↦ ?_
      exact (closed _ ix).transcribeElement config ⟨p, n⟩ (hexpand _) (admits hzone) _
    | some g =>
      obtain ⟨helement, hzone⟩ := Node.zoneHeading?_eq_some hz
      have hheading : (do
          reserveSlot ⟨p, n⟩
          let parts ← secondaryParts config expand ⟨p, n⟩
          let outputs ← Context.within ⟨p, n⟩ (Render.all config expand p .children 0 n.children)
          Render.transcribeElement config expand ⟨p, n⟩ (parts (spaced n.children outputs))) = do
          reserve n.zone p
          let text ← (do
            let parts ← secondaryParts config expand ⟨p, n⟩
            let outputs ← Context.within ⟨p, n⟩ (Render.all config expand p .children 0 n.children)
            sectionOf config ⟨p, n⟩ g (parts (spaced n.children outputs)))
          route n.zone text (some p)
          return none := by
        rw [reserveSlot, if_neg hzone]
        simp only [Render.transcribeElement, helement, heading_eq, if_neg hzone, bind_assoc]
      rw [hheading]
      refine slot (P := fun q ↦ IsIn n p q ∧ q ≠ p) (Q := IsIn n p) hzone (fun h ↦ h.2 rfl)
        ⟨_, Node.self_mem_occurrences p n, rfl⟩ (fun _ h ↦ h.1) ?_
      refine (closed _ ix).bind (hparts _) fun parts ↦ (closed _ ix).bind hchildren fun outputs ↦ ?_
      exact (closed _ ix).sectionOf config ⟨p, n⟩ g _

/-- Definitions of footnotes without headings of zones are printed within the frame. -/
theorem definitionText (hproper : ∀ e ∈ ix.footnotes, e.2.node.isProper = true)
    (hzones : ∀ e ∈ ix.footnotes, ∀ m ∈ e.2.node.visit, m.zone = .body) (depth : Nat)
    (P : Place → Prop) :
    ∀ e ∈ ix.footnotes, KeepsFrame P ix (Render.definitionText config depth e.2) := by
  refine (closed P ix).definitionText config hproper (fun e he o ho ↦ admits ?_) depth
  exact hzones e he o.node (Node.mem_visit_of_mem_printedOn ho)

end Action.KeepsFrame

end Typeset

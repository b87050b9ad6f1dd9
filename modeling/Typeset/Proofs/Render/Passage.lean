import Typeset.Proofs.Render.Chunks
import Typeset.Proofs.Render.Labels

/-!
# What printing leaves behind

Printing gives references and takes none back. It fills the slots that it holds, and a chunk for
which no slot is held any more stays what it is. The rows held back for a table wait for the table
itself.
-/

namespace Typeset

open Action Context Render

variable {α β : Type} {ix : LinkIndex}

/-- What some printing is about: the zones of places, and the places that are printed. -/
structure Scope where
  zoneAt : Place → Zone
  done : Place → Prop

/-- An occurrence is what the scope says about its place. -/
structure Scope.Admits (S : Scope) (o : Occurrence) : Prop where
  zone : S.zoneAt o.place = o.node.zone
  done : S.done o.place

/-- The definitions of footnotes are proper, and what is printed of them is in the scope. -/
def Scope.AdmitsNotes (S : Scope) (ix : LinkIndex) : Prop :=
  ∀ e ∈ ix.footnotes, e.2.node.isProper = true ∧
    ∀ o ∈ e.2.node.printedOn e.2.place .children, S.Admits o

variable {S : Scope}

namespace Context

/-- The rows held back for a table. -/
def rowsOf (c : Context) (table : Place) : List String := (c.heldRows.lookup table).getD []

theorem rowsOf_hold (c : Context) (table table' : Place) (row : String) :
    (hold table row c).2.rowsOf table' =
      if table' = table then c.rowsOf table' ++ [row] else c.rowsOf table' := by
  unfold rowsOf hold
  split
  · next heq => simp [heq]
  · next hne => simp [Assoc.lookup_put_of_ne hne]

theorem rowsOf_release {c : Context} (hkeys : (c.heldRows.map (·.1)).Nodup)
    (table table' : Place) :
    (release table c).2.rowsOf table' = if table' = table then [] else c.rowsOf table' := by
  unfold rowsOf release
  split
  · next heq =>
    cases hlookup : (Assoc.remove table c.heldRows).lookup table with
    | none => simp [heq, hlookup]
    | some rows =>
      exact absurd rfl (Assoc.ne_of_mem_remove hkeys (Assoc.mem_of_lookup hlookup))
  · next hne => simp [Assoc.lookup_remove_of_ne hne]

/-- What is the same, or more, in a context after some places have been printed. -/
structure Passage (S : Scope) (c d : Context) : Prop where
  index : d.references.index = c.references.index
  places : c.references.places <+: d.references.places
  sound : c.slots.IsSound S.zoneAt → d.slots.IsSound S.zoneAt
  rests : c.slots.IsSound S.zoneAt → ∀ z k t, c.slots.Rests S.zoneAt z k t →
    d.slots.Rests S.zoneAt z k t
  rows : ∀ table, ¬ S.done table → ∀ row ∈ c.rowsOf table, row ∈ d.rowsOf table

namespace Passage

variable {c d e : Context}

theorem of_eq (hrefs : d.references = c.references) (hslots : d.slots = c.slots)
    (hrows : d.heldRows = c.heldRows) : Passage S c d := by
  refine ⟨by rw [hrefs], hrefs ▸ List.prefix_rfl, ?_, ?_, ?_⟩
  · rw [hslots]
    exact id
  · rw [hslots]
    exact fun _ _ _ _ h ↦ h
  · intro table _ row hrow
    rwa [rowsOf, hrows]

theorem refl (c : Context) : Passage S c c := of_eq rfl rfl rfl

theorem trans (h : Passage S c d) (h' : Passage S d e) : Passage S c e where
  index := h'.index.trans h.index
  places := h.places.trans h'.places
  sound hc := h'.sound (h.sound hc)
  rests hc z k t ht := h'.rests (h.sound hc) z k t (h.rests hc z k t ht)
  rows table ht row hrow := h'.rows table ht row (h.rows table ht row hrow)

theorem of_places (hindex : d.references.index = c.references.index)
    (hplaces : c.references.places <+: d.references.places) (hslots : d.slots = c.slots)
    (hrows : d.heldRows = c.heldRows) : Passage S c d :=
  { of_eq (c := { c with references := d.references }) (d := d) rfl hslots hrows with
    index := hindex
    places := hplaces }

theorem of_slots {s : Slots} (hsound : c.slots.IsSound S.zoneAt → s.IsSound S.zoneAt)
    (hrests : c.slots.IsSound S.zoneAt → ∀ z k t, c.slots.Rests S.zoneAt z k t →
      s.Rests S.zoneAt z k t) : Passage S c (c.withSlots s) :=
  ⟨rfl, List.prefix_rfl, hsound, hrests, fun _ _ _ hrow ↦ hrow⟩

theorem of_heldRows {rows : List (Place × List String)}
    (h : ∀ table, ¬ S.done table → ∀ row ∈ c.rowsOf table, row ∈ (rows.lookup table).getD []) :
    Passage S c { c with heldRows := rows } :=
  ⟨rfl, List.prefix_rfl, id, fun _ _ _ _ ht ↦ ht, h⟩

end Passage

end Context

/-- The action leaves behind what printing some places does, and the same ancestors. -/
def Action.Passing (S : Scope) (ix : LinkIndex) (x : Action α) : Prop :=
  ∀ c, c.references.index = ix → Passage S c (x c).2 ∧
    ∀ a, (x c).1 = .ok a → (x c).2.ancestors = c.ancestors

namespace Action.Passing

theorem bindOfResult {x : Action α} {k : α → Action β} (hx : Passing S ix x)
    (hk : ∀ c a, c.references.index = ix → (x c).1 = .ok a → Passing S ix (k a)) :
    Passing S ix (x >>= k) := by
  intro c hc
  obtain ⟨hpassage, hancestors⟩ := hx c hc
  cases hr : x c with
  | mk r c' =>
    rw [hr] at hpassage hancestors
    cases r with
    | error e =>
      rw [bind_of_error hr]
      exact ⟨hpassage, fun a ha ↦ nomatch ha⟩
    | ok a =>
      rw [bind_of_ok hr]
      obtain ⟨hpassage', hancestors'⟩ := hk c a hc (by rw [hr]) c' (hpassage.index.trans hc)
      exact ⟨hpassage.trans hpassage', fun b hb ↦ (hancestors' b hb).trans (hancestors a rfl)⟩

theorem of_eq {x : Action α} (h : ∀ c, (x c).2.references = c.references ∧
    (x c).2.slots = c.slots ∧ (x c).2.heldRows = c.heldRows ∧ (x c).2.ancestors = c.ancestors) :
    Passing S ix x := by
  intro c _
  obtain ⟨hrefs, hslots, hrows, hancestors⟩ := h c
  exact ⟨.of_eq hrefs hslots hrows, fun _ _ ↦ hancestors⟩

/-- What is done below a node, in its context. -/
theorem within (o : Occurrence) {x : Action α} (hx : Passing S ix x) :
    Passing S ix (within o x) := by
  intro c hc
  obtain ⟨hpassage, hancestors⟩ := hx { c with ancestors := o :: c.ancestors } hc
  have hpush : Passage S c { c with ancestors := o :: c.ancestors } := .of_eq rfl rfl rfl
  rw [Context.within, bind_of_ok (x := push o) rfl]
  cases hr : x { c with ancestors := o :: c.ancestors } with
  | mk r d =>
    rw [hr] at hpassage hancestors
    cases r with
    | error e =>
      rw [bind_of_error hr]
      exact ⟨hpush.trans hpassage, fun a ha ↦ by cases ha⟩
    | ok a =>
      have hancestors : d.ancestors = o :: c.ancestors := hancestors a rfl
      have hpop : pop d = (.ok o, { d with ancestors := c.ancestors }) := by
        rw [pop, hancestors]
      rw [bind_of_ok hr, bind_of_ok hpop]
      exact ⟨(hpush.trans hpassage).trans (.of_eq rfl rfl rfl), fun _ _ ↦ rfl⟩

theorem places_reference (r : References) (p : Place) : r.places <+: (r.reference p).2.places := by
  unfold References.reference
  split
  · exact List.prefix_rfl
  · exact List.prefix_append _ _

theorem places_label (r : References) (o : Occurrence) (force : Bool) :
    r.places <+: (r.label o force).2.places := by
  unfold References.label
  split
  · split
    · exact places_reference r o.place
    · exact List.prefix_rfl
  · split
    · exact places_reference r o.place
    · exact List.prefix_rfl

theorem labelWith (force : Bool) (o : Occurrence) : Passing S ix (labelWith force o) := by
  intro c _
  cases hfault : o.node.labelFault? with
  | some e =>
    rw [labelWith_of_fault hfault]
    exact ⟨.refl c, fun _ _ ↦ rfl⟩
  | none =>
    rw [labelWith_of_sound hfault]
    refine ⟨.of_places ?_ ?_ rfl rfl, fun _ _ ↦ rfl⟩
    · exact References.index_label c.references o force
    · exact places_label c.references o force

theorem hold (table : Place) (row : String) : Passing S ix (hold table row) := by
  refine fun c _ ↦ ⟨.of_heldRows fun table' _ row' hrow ↦ ?_, fun _ _ ↦ rfl⟩
  by_cases htable : table' = table
  · subst htable
    rw [Assoc.lookup_put_self]
    exact List.mem_append_left _ hrow
  · rwa [Assoc.lookup_put_of_ne htable]

theorem closed (S : Scope) (ix : LinkIndex) : Closed ix fun _ x ↦ Passing S ix x where
  read _ := of_eq fun _ ↦ ⟨rfl, rfl, rfl, rfl⟩
  bindOfResult := bindOfResult
  within o _ hx := within o hx
  warn _ := of_eq fun _ ↦ ⟨rfl, rfl, rfl, rfl⟩
  hold := hold
  nameOfLanguage config language := of_eq fun c ↦ by
    cases h : c.languages.lookup language <;> simp [nameOfLanguage, h, slots]
  nextFootnote label := of_eq fun c ↦ by
    cases h : c.footnotes.lookup label.key <;> simp [nextFootnote, h, slots]
  reference p := fun c _ ↦ ⟨.of_places (References.index_reference c.references p)
    (places_reference c.references p) rfl rfl, fun _ _ ↦ rfl⟩
  labelWith := labelWith

theorem reserve {z : Zone} {p : Place} (hz : z ≠ .body) (hp : S.zoneAt p = z) :
    Passing S ix (reserve z p) := by
  intro c _
  have heq : Context.reserve z p c = (.ok (), c.withSlots (c.slots.hold z p)) :=
    reserve_withSlots (s := c.slots) hz
  rw [heq]
  exact ⟨.of_slots (fun hs ↦ hs.hold hz hp) fun hs _ _ _ ht ↦ ht.hold hs.nodup hz hp,
    fun _ _ ↦ rfl⟩

theorem admits {o : Occurrence} (h : S.Admits o) : o.Admits fun _ x ↦ Passing S ix x where
  reserve hz := reserve hz h.zone
  route hz t := by
    intro c _
    rcases route_cases hz t o.place c with ⟨-, heq⟩ | ⟨slot, hslot, -, heq⟩ | heq
    · rw [heq]
      exact ⟨.of_slots (fun hs ↦ hs.append hz t) fun _ _ _ _ ht ↦ ht.append hz t, fun _ _ ↦ rfl⟩
    · rw [heq]
      have hmem : (o.place, slot) ∈ c.slots.reservations := Assoc.mem_of_lookup hslot
      exact ⟨.of_slots (fun hs ↦ hs.fill hz _ _ t) fun _ _ _ _ ht ↦ ht.fill hz h.zone hmem t,
        fun _ _ ↦ rfl⟩
    · rw [heq]
      exact ⟨.of_slots (fun hs ↦ hs.release _) fun _ _ _ _ ht ↦ ht.release _, fun _ ha ↦ nomatch ha⟩
  release := by
    refine fun c _ ↦ ⟨.of_heldRows fun table htable row hrow ↦ ?_, fun _ _ ↦ rfl⟩
    have hne : table ≠ o.place := fun heq ↦ htable (heq ▸ h.done)
    rwa [Assoc.lookup_remove_of_ne hne]

variable (config : Config)

/-- Definitions of footnotes are printed in the scope. -/
theorem definitionText (h : S.AdmitsNotes ix) (depth : Nat) :
    ∀ e ∈ ix.footnotes, Passing S ix (definitionText config depth e.2) :=
  (closed S ix).definitionText config (fun e he ↦ (h e he).1)
    (fun e he o ho ↦ admits ((h e he).2 o ho)) depth

/-- Trees are printed in the scope. -/
theorem node (h : S.AdmitsNotes ix) {n : Node} (hn : n.isProper = true) {p : Place}
    (hadmits : ∀ o ∈ n.printed p, S.Admits o) (depth : Nat) :
    Passing S ix (node config (Render.definitionText config depth) p n) :=
  (closed S ix).node config (definitionText config h depth) hn fun o ho ↦ admits (hadmits o ho)

/-- Trees in a row are printed in the scope. -/
theorem all (h : S.AdmitsNotes ix) {ns : List Node} (hns : ∀ n ∈ ns, n.isProper = true) {p : Place}
    {b : Branch} {i : Nat} (hadmits : ∀ o ∈ Node.printedIn p b i ns, S.Admits o) (depth : Nat) :
    Passing S ix (all config (Render.definitionText config depth) p b i ns) := by
  refine (closed S ix).lasting.all config hns fun k n hk ↦ ?_
  refine node config h (hns n (List.mem_of_getElem? hk)) (fun o ho ↦ hadmits o ?_) depth
  exact Node.mem_printedIn_iff.mpr ⟨k, n, hk, ho⟩

end Action.Passing

end Typeset

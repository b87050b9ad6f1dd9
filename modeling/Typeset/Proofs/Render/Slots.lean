import Typeset.Proofs.Render.Closed

/-!
# What has nothing to do with slots

Only headings of zones touch the buffers and the slots held in them. All other actions give the same
result whatever stands there and leave it as it is, and none changes the index of link targets.
Warnings are only recorded, behind those that are there already.
-/

namespace Typeset

/-! ## Slots -/

namespace Buffers

/-- The buffers with one more chunk for a zone. -/
def append (b : Buffers) (z : Zone) (t : String) : Buffers := b.set (b.chunks z ++ [t]) z

theorem get?_eq_chunks (b : Buffers) {z : Zone} (hz : z ≠ .body) :
    b.get? z = some (b.chunks z) := by
  cases z <;> simp_all [chunks, get?]

theorem chunks_set (b : Buffers) (ts : List String) (z z' : Zone) (hz : z ≠ .body) :
    (b.set ts z).chunks z' = if z' = z then ts else b.chunks z' := by
  split
  · next h => rw [chunks, h, get?_set_self b ts hz, Option.getD_some]
  · next h => rw [chunks, get?_set_of_ne b ts h, chunks]

end Buffers

namespace Slots

/-- The slots with one held for a place, at the end of the buffer of a zone. -/
def hold (s : Slots) (z : Zone) (p : Place) : Slots :=
  ⟨s.buffers.append z "", Assoc.put p (s.buffers.chunks z).length s.reservations⟩

/-- The slots when a text has been put into the one held for a place. -/
def fill (s : Slots) (z : Zone) (p : Place) (slot : Nat) (t : String) : Slots :=
  ⟨s.buffers.set ((s.buffers.chunks z).set slot t) z, Assoc.remove p s.reservations⟩

end Slots

namespace Context

@[simp] theorem withSlots_slots (c : Context) : c.withSlots c.slots = c := rfl

@[simp] theorem slots_withSlots (c : Context) (s : Slots) : (c.withSlots s).slots = s := rfl

@[simp] theorem withSlots_withSlots (c : Context) (s t : Slots) :
    (c.withSlots s).withSlots t = c.withSlots t := rfl

variable {c : Context} {s : Slots} {z : Zone} {p : Place}

theorem reserve_withSlots (hz : z ≠ .body) :
    reserve z p (c.withSlots s) = (.ok (), c.withSlots (s.hold z p)) := by
  have hget : (c.withSlots s).buffers.get? z = some (s.buffers.chunks z) :=
    s.buffers.get?_eq_chunks hz
  rw [reserve, hget]
  rfl

theorem route_withSlots (hz : z ≠ .body) (t : String) {slot : Nat}
    (hlookup : s.reservations.lookup p = some slot) (hslot : slot < (s.buffers.chunks z).length) :
    route z t (some p) (c.withSlots s) = (.ok (), c.withSlots (s.fill z p slot t)) := by
  have hget : (c.withSlots s).buffers.get? z = some (s.buffers.chunks z) :=
    s.buffers.get?_eq_chunks hz
  have hreserved : (c.withSlots s).reservations.lookup p = some slot := hlookup
  rw [route, hget]
  simp only [Option.bind_some, hreserved, Option.map_some, if_pos hslot]
  rfl

end Context

open Action Context Render

/-! ## Actions that ignore overlays -/

namespace References

theorem index_reference (r : References) (p : Place) : (r.reference p).2.index = r.index := by
  unfold reference
  split <;> rfl

theorem index_label (r : References) (o : Occurrence) (force : Bool) :
    (r.label o force).2.index = r.index := by
  unfold label
  split
  · split
    · exact index_reference r o.place
    · rfl
  · split
    · exact index_reference r o.place
    · rfl

end References

variable {α β σ : Type} {ix : LinkIndex} {views : σ → Overlay}

/-- The action does the same in the context with any of the overlays and leaves them alone, as it
does the index. -/
def Action.Ignores (views : σ → Overlay) (ix : LinkIndex) (x : Action α) : Prop :=
  ∀ c, c.references.index = ix → (x c).2.references.index = ix ∧
    ∀ s, x (c.overlaid (views s)) = ((x c).1, (x c).2.overlaid (views s))

namespace Action.Ignores

theorem change {f : Context → Context} (hindex : ∀ c, (f c).references.index = c.references.index)
    (h : ∀ c v, f (c.overlaid v) = (f c).overlaid v) : Ignores views ix (Action.change f) := by
  intro c hc
  refine ⟨(hindex c).trans hc, fun s ↦ ?_⟩
  show (Except.ok (), f (c.overlaid (views s))) = _
  rw [h c (views s)]
  rfl

theorem bindOfResult {x : Action α} {k : α → Action β} (hx : Ignores views ix x)
    (hk : ∀ c a, c.references.index = ix → (x c).1 = .ok a → Ignores views ix (k a)) :
    Ignores views ix (x >>= k) := by
  intro c hc
  obtain ⟨hindex, hviews⟩ := hx c hc
  cases hr : x c with
  | mk r c' =>
    rw [hr] at hindex hviews
    cases r with
    | error e =>
      rw [bind_of_error hr]
      exact ⟨hindex, fun s ↦ bind_of_error (hviews s)⟩
    | ok a =>
      rw [bind_of_ok hr]
      obtain ⟨hindex', hviews'⟩ := hk c a hc (by rw [hr]) c' hindex
      refine ⟨hindex', fun s ↦ ?_⟩
      rw [bind_of_ok (hviews s)]
      exact hviews' s

theorem push (o : Occurrence) : Ignores views ix (push o) := change (fun _ ↦ rfl) fun _ _ ↦ rfl

theorem pop : Ignores views ix pop := by
  intro c hc
  cases h : c.ancestors with
  | nil => simp [Context.pop, h, hc, overlaid]
  | cons o rest => simp [Context.pop, h, hc, overlaid, slots]

theorem nameOfLanguage (config : Config) (language : String) :
    Ignores views ix (nameOfLanguage config language) := by
  intro c hc
  cases h : c.languages.lookup language <;>
    simp [Context.nameOfLanguage, h, hc, overlaid, slots]

theorem nextFootnote (label : Datum) : Ignores views ix (nextFootnote label) := by
  intro c hc
  cases h : c.footnotes.lookup label.key <;> simp [Context.nextFootnote, h, hc, overlaid, slots]

theorem release (table : Place) : Ignores views ix (release table) :=
  fun _ hc ↦ ⟨hc, fun _ ↦ rfl⟩

theorem reference (p : Place) : Ignores views ix (reference p) :=
  fun c hc ↦ ⟨(References.index_reference c.references p).trans hc, fun _ ↦ rfl⟩

theorem labelWith (force : Bool) (o : Occurrence) : Ignores views ix (labelWith force o) := by
  intro c hc
  have hlabel := References.index_label c.references o force
  cases h : o.node.labelFault? with
  | some e => simp [labelWith_of_fault h, hc, overlaid]
  | none => simp [labelWith_of_sound h, hlabel, hc, overlaid, slots]

/-- Ignoring overlays is closed under what printing is made of. -/
theorem closed (views : σ → Overlay) (ix : LinkIndex) :
    Closed ix fun _ x ↦ Ignores views ix x where
  read := by
    intro α f hf c hc
    refine ⟨hc, fun s ↦ ?_⟩
    show (f (c.overlaid (views s)), c.overlaid (views s)) = (f c, c.overlaid (views s))
    rw [hf c (views s)]
  bindOfResult := bindOfResult
  within := by
    intro α o x hx
    refine (push o).bindOfResult fun _ _ _ _ ↦ hx.bindOfResult fun _ a _ _ ↦ ?_
    exact pop.bindOfResult fun _ _ _ _ c hc ↦ ⟨hc, fun _ ↦ rfl⟩
  warn message := by
    refine change (fun _ ↦ rfl) fun c v ↦ ?_
    simp only [overlaid, slots, v.concat]
  hold _ _ := change (fun _ ↦ rfl) fun _ _ ↦ rfl
  nameOfLanguage := nameOfLanguage
  nextFootnote := nextFootnote
  reference := reference
  labelWith := labelWith

end Action.Ignores

/-! ## Actions that ignore slots -/

/-- The slots in the place of any others, and the warnings as they are. -/
def Slots.overlay (s : Slots) : Overlay := ⟨fun _ ↦ s, id, fun _ _ ↦ rfl⟩

/-- The action does the same whatever the slots are and leaves them alone, as it does the index. -/
def Action.IgnoresSlots (ix : LinkIndex) (x : Action α) : Prop :=
  ∀ c, c.references.index = ix → (x c).2.references.index = ix ∧
    ∀ s, x (c.withSlots s) = ((x c).1, (x c).2.withSlots s)

namespace Action.IgnoresSlots

theorem of_ignores {x : Action α} (h : Ignores Slots.overlay ix x) : IgnoresSlots ix x := h

/-- Ignoring slots is closed under what printing is made of. -/
theorem closed (ix : LinkIndex) : Closed ix fun _ x ↦ IgnoresSlots ix x :=
  Ignores.closed Slots.overlay ix

theorem admits {o : Occurrence} (hzone : o.node.zone = .body) :
    o.Admits fun _ x ↦ IgnoresSlots ix x :=
  ⟨fun h ↦ absurd hzone h, fun h ↦ absurd hzone h, of_ignores (.release o.place)⟩

/-- Definitions of footnotes without headings of zones are printed without a look at the slots. -/
theorem definitionText (config : Config) (hproper : ∀ e ∈ ix.footnotes, e.2.node.isProper = true)
    (hzones : ∀ e ∈ ix.footnotes, ∀ m ∈ e.2.node.visit, m.zone = .body) (depth : Nat) :
    ∀ e ∈ ix.footnotes, IgnoresSlots ix (Render.definitionText config depth e.2) := by
  refine (closed ix).definitionText config hproper (fun e he o ho ↦ admits ?_) depth
  exact hzones e he o.node (Node.mem_visit_of_mem_printedOn ho)

end Action.IgnoresSlots

end Typeset

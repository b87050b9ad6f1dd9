import Typeset.Proofs.Render.Slots

/-!
# Filling slots in order

A heading of a zone holds a slot of the zone's buffer while everything below it is printed, which
may hold and fill slots of its own, and then puts its text there. What comes of it are the same
buffers as if the texts had been known from the start and put one behind the other, the text of
each heading before the texts of the headings below it.
-/

namespace Typeset

open Action Context Render

/-- The section texts of headings, with the headings. -/
abbrev Sections := List (Occurrence × String)

/-! ## Buffers -/

namespace Buffers

/-- The buffers with more sections, each in the zone of its heading. -/
def add (b : Buffers) (secs : Sections) : Buffers :=
  secs.foldl (fun b e ↦ b.append e.1.node.zone e.2) b

theorem ext_chunks {b b' : Buffers} (h : ∀ z, b.chunks z = b'.chunks z) : b = b' := by
  have hfront : b.frontmatter = b'.frontmatter := h .frontmatter
  have hback : b.backmatter = b'.backmatter := h .backmatter
  have happendix : b.appendix = b'.appendix := h .appendix
  have hcopying : b.copying = b'.copying := h .copying
  have hindex : b.index = b'.index := h .index
  cases b
  cases b'
  simp_all

/-- A zone has its earlier chunks and then the texts of the sections of the zone. -/
theorem chunks_add {secs : Sections} (h : ∀ e ∈ secs, e.1.node.zone ≠ .body) (b : Buffers)
    (z : Zone) :
    (b.add secs).chunks z =
      b.chunks z ++ (secs.filter fun e ↦ e.1.node.zone = z).map (·.2) := by
  induction secs generalizing b with
  | nil => simp [add]
  | cons e secs ih =>
    have ih := ih (fun e he ↦ h e (.tail _ he)) (b.append e.1.node.zone e.2)
    rw [show b.add (e :: secs) = (b.append e.1.node.zone e.2).add secs from rfl, ih, append,
      chunks_set _ _ _ _ (h e List.mem_cons_self)]
    by_cases hz : e.1.node.zone = z
    · simp [hz]
    · simp [hz, Ne.symm hz]

end Buffers

namespace Slots

/-- The slots after more sections have been put behind all chunks. -/
def add (s : Slots) (secs : Sections) : Slots := ⟨s.buffers.add secs, s.reservations⟩

theorem add_add (s : Slots) (secs more : Sections) :
    (s.add secs).add more = s.add (secs ++ more) := by
  simp [add, Buffers.add]

/-- Slots are only held for places of less than some depth. -/
def Shallow (depth : Nat) (s : Slots) : Prop :=
  ∀ e ∈ s.reservations, e.1.steps.length < depth

theorem Shallow.mono {s : Slots} {d d' : Nat} (h : s.Shallow d) (hd : d ≤ d') : s.Shallow d' :=
  fun e he ↦ Nat.lt_of_lt_of_le (h e he) hd

theorem Shallow.notMem {s : Slots} {p : Place} (h : s.Shallow p.steps.length) :
    p ∉ s.reservations.map (·.1) := by
  intro hmem
  obtain ⟨e, he, rfl⟩ := List.mem_map.mp hmem
  exact Nat.lt_irrefl _ (h e he)

theorem Shallow.hold {s : Slots} {p : Place} (h : s.Shallow p.steps.length) (z : Zone) :
    (s.hold z p).Shallow (p.steps.length + 1) := by
  intro e he
  rw [Slots.hold, Assoc.put_of_notMem h.notMem, List.mem_append, List.mem_singleton] at he
  rcases he with he | rfl
  · exact Nat.lt_succ_of_lt (h e he)
  · exact Nat.lt_succ_self _

/-- Since a slot was held, sections have only been added behind it. -/
theorem chunks_add_hold {s : Slots} {z : Zone} {p : Place} (hz : z ≠ .body) {secs : Sections}
    (hsecs : ∀ e ∈ secs, e.1.node.zone ≠ .body) (z' : Zone) :
    ((s.hold z p).add secs).buffers.chunks z' =
      (if z' = z then s.buffers.chunks z' ++ [""] else s.buffers.chunks z') ++
        (secs.filter fun e ↦ e.1.node.zone = z').map (·.2) := by
  rw [add, Buffers.chunks_add hsecs, hold, Buffers.append, Buffers.chunks_set _ _ _ _ hz]
  split
  · next h => rw [h]
  · rfl

/-- The text of a heading stands before all sections that were added since its slot was held. -/
theorem fill_add_hold {s : Slots} {o : Occurrence} (h : s.Shallow o.place.steps.length)
    (hz : o.node.zone ≠ .body) {secs : Sections} (hsecs : ∀ e ∈ secs, e.1.node.zone ≠ .body)
    (t : String) :
    ((s.hold o.node.zone o.place).add secs).fill o.node.zone o.place
        (s.buffers.chunks o.node.zone).length t = s.add ((o, t) :: secs) := by
  have hall : ∀ e ∈ (o, t) :: secs, e.1.node.zone ≠ .body := by
    intro e he
    rcases List.mem_cons.mp he with rfl | he
    · exact hz
    · exact hsecs e he
  have hreservations : Assoc.remove o.place (s.hold o.node.zone o.place).reservations =
      s.reservations := by
    rw [hold, Assoc.put_of_notMem h.notMem, Assoc.remove_append_of_notMem h.notMem, List.append_nil]
  have hfill : ∀ z, (((s.hold o.node.zone o.place).add secs).fill o.node.zone o.place
      (s.buffers.chunks o.node.zone).length t).buffers.chunks z =
        (s.add ((o, t) :: secs)).buffers.chunks z := by
    intro z
    rw [fill, Buffers.chunks_set _ _ _ _ hz, chunks_add_hold hz hsecs, chunks_add_hold hz hsecs,
      add, Buffers.chunks_add hall]
    split
    · next hzone => simp [hzone]
    · next hzone => simp [Ne.symm hzone]
  rw [fill, add, add, Slots.mk.injEq]
  exact ⟨Buffers.ext_chunks hfill, hreservations⟩

end Slots

/-! ## Following a walk without slots -/

variable {α β γ δ : Type} {ix : LinkIndex} {depth : Nat}

/-- An action does what another one does that knows nothing of slots, and puts the sections that the
other one gives into the buffers, whatever stands there. -/
def Follows (ix : LinkIndex) (depth : Nat) (f : α → β) (x : Action α)
    (y : Action (β × Sections)) : Prop :=
  ∀ c s, c.references.index = ix → s.Shallow depth →
    match y c with
    | (.ok (b, secs), d) =>
      d.references.index = ix ∧ (∀ e ∈ secs, e.1.node.zone ≠ .body) ∧
        ∃ a, f a = b ∧ x (c.withSlots s) = (.ok a, d.withSlots (s.add secs))
    | (.error e, _) => (x (c.withSlots s)).1 = .error e

namespace Follows

theorem mono {d d' : Nat} {f : α → β} {x : Action α} {y : Action (β × Sections)}
    (h : Follows ix d' f x y) (hd : d ≤ d') : Follows ix d f x y :=
  fun c s hc hs ↦ h c s hc (hs.mono hd)

theorem of_ignoresSlots {x : Action α} (h : IgnoresSlots ix x) (f : α → β) :
    Follows ix depth f x ((fun a ↦ (f a, [])) <$> x) := by
  intro c s hc _
  obtain ⟨hindex, hslots⟩ := h c hc
  rw [hslots s, map_eq_pure_bind]
  cases hx : x c with
  | mk r d =>
    cases r with
    | error e => rw [bind_of_error hx]
    | ok a =>
      rw [bind_of_ok hx]
      rw [hx] at hindex
      exact ⟨hindex, by simp, a, rfl, rfl⟩

theorem bind {f : α → β} {g : γ → δ} {x : Action α} {y : Action (β × Sections)}
    {k : α → Action γ} {z : α → Action (δ × Sections)} {k' : β × Sections → Action (δ × Sections)}
    (hx : Follows ix depth f x y)
    (hk : ∀ a, (∃ c secs d, y c = (.ok (f a, secs), d)) → Follows ix depth g (k a) (z a))
    (hk' : ∀ a secs, k' (f a, secs) = (fun r ↦ (r.1, secs ++ r.2)) <$> z a) :
    Follows ix depth g (x >>= k) (y >>= k') := by
  intro c s hc hs
  have hfirst := hx c s hc hs
  cases hy : y c with
  | mk r d =>
    rw [hy] at hfirst
    rcases r with e | ⟨b, secs⟩
    · rw [bind_of_error hy]
      exact fst_bind_of_error hfirst
    · obtain ⟨hd, hsecs, a, rfl, hrun⟩ := hfirst
      rw [bind_of_ok hy, bind_of_ok hrun, hk', map_eq_pure_bind]
      have hnext := hk a ⟨c, secs, d, hy⟩ d (s.add secs) hd hs
      cases hz : z a d with
      | mk r d' =>
        rw [hz] at hnext
        rcases r with e | ⟨b', more⟩
        · rw [bind_of_error hz]
          exact hnext
        · obtain ⟨hd', hmore, a', rfl, hrun'⟩ := hnext
          rw [bind_of_ok hz]
          refine ⟨hd', ?_, a', rfl, ?_⟩
          · intro e he
            exact (List.mem_append.mp he).elim (hsecs e) (hmore e)
          · rw [hrun', Slots.add_add]

/-- An action that ignores slots comes first. -/
theorem ignoring_bind {g : γ → δ} {x : Action α} {k : α → Action γ}
    {k' : α → Action (δ × Sections)} (hx : IgnoresSlots ix x)
    (hk : ∀ a, Follows ix depth g (k a) (k' a)) : Follows ix depth g (x >>= k) (x >>= k') := by
  intro c s hc hs
  obtain ⟨hindex, hslots⟩ := hx c hc
  cases hr : x c with
  | mk r d =>
    rw [hr] at hindex hslots
    cases r with
    | error e =>
      rw [bind_of_error hr, bind_of_error (hslots s)]
    | ok a =>
      rw [bind_of_ok hr, bind_of_ok (hslots s)]
      exact hk a d s hindex hs

/-- An action that ignores slots comes last. -/
theorem bind_ignoring {f : α → β} {g : γ → δ} {x : Action α} {y : Action (β × Sections)}
    {k : α → Action γ} {k' : β × Sections → Action (δ × Sections)}
    (hx : Follows ix depth f x y) (hk : ∀ a, IgnoresSlots ix (k a))
    (hk' : ∀ a secs, k' (f a, secs) = (fun r ↦ (g r, secs)) <$> k a) :
    Follows ix depth g (x >>= k) (y >>= k') := by
  refine hx.bind (fun a _ ↦ of_ignoresSlots (hk a) g) fun a secs ↦ ?_
  rw [hk', Functor.map_map]
  simp

/-- A heading holds its slot while what is below it is printed, and puts its text there. -/
theorem slot {o : Occurrence} (hz : o.node.zone ≠ .body) {x : Action String}
    {y : Action (String × Sections)} (hx : Follows ix (o.place.steps.length + 1) id x y) :
    Follows ix o.place.steps.length id
      (do
        reserve o.node.zone o.place
        let text ← x
        route o.node.zone text (some o.place)
        return none)
      ((fun r ↦ ((none : Option String), (o, r.1) :: r.2)) <$> y) := by
  intro c s hc hs
  rw [bind_of_ok (reserve_withSlots hz), map_eq_pure_bind]
  have hrun := hx c (s.hold o.node.zone o.place) hc (hs.hold _)
  cases hy : y c with
  | mk r d =>
    rw [hy] at hrun
    rcases r with e | ⟨text, secs⟩
    · rw [bind_of_error hy]
      exact fst_bind_of_error hrun
    · obtain ⟨hd, hsecs, a, rfl, hrun⟩ := hrun
      rw [bind_of_ok hy, bind_of_ok hrun]
      have hroute : route o.node.zone a (some o.place)
          (d.withSlots ((s.hold o.node.zone o.place).add secs)) =
            (.ok (), d.withSlots (s.add ((o, a) :: secs))) := by
        have hlookup : ((s.hold o.node.zone o.place).add secs).reservations.lookup o.place =
            some (s.buffers.chunks o.node.zone).length := Assoc.lookup_put_self _ _ _
        rw [route_withSlots hz a hlookup, Slots.fill_add_hold hs hz hsecs]
        rw [Slots.chunks_add_hold hz hsecs]
        simp
      rw [bind_of_ok hroute]
      refine ⟨hd, ?_, none, rfl, rfl⟩
      intro e he
      rcases List.mem_cons.mp he with rfl | he
      · exact hz
      · exact hsecs e he

end Follows

end Typeset

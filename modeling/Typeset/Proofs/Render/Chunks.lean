import Typeset.Proofs.Render.Slots

/-!
# Chunks that last

The slots held in the buffer of a zone are different ones. So a text that is put into the buffer,
into a slot or behind all chunks, rests there: none of the slots that are still held is its own.
-/

namespace Typeset

variable {zoneAt : Place → Zone}

namespace Slots

/-- All slots held in the buffer of a zone are there and differ from each other. -/
structure IsSound (zoneAt : Place → Zone) (s : Slots) : Prop where
  nodup : (s.reservations.map (·.1)).Nodup
  bound : ∀ e ∈ s.reservations, e.2 < (s.buffers.chunks (zoneAt e.1)).length
  injective : ∀ e ∈ s.reservations, ∀ e' ∈ s.reservations,
    zoneAt e.1 = zoneAt e'.1 → e.2 = e'.2 → e = e'

/-- A chunk of a zone is a text, and no slot is held there. -/
structure Rests (zoneAt : Place → Zone) (s : Slots) (z : Zone) (k : Nat) (t : String) : Prop where
  chunk : (s.buffers.chunks z)[k]? = some t
  unheld : ∀ e ∈ s.reservations, zoneAt e.1 = z → e.2 ≠ k

variable {s : Slots} {z : Zone} {p : Place} {t : String}

theorem chunks_append (b : Buffers) {z z' : Zone} (hz : z ≠ .body) (t : String) :
    (b.append z t).chunks z' = if z' = z then b.chunks z' ++ [t] else b.chunks z' := by
  rw [Buffers.append, Buffers.chunks_set _ _ _ _ hz]
  split
  · next h => rw [h]
  · rfl

theorem length_chunks_append_le (b : Buffers) {z z' : Zone} (hz : z ≠ .body) (t : String) :
    (b.chunks z').length ≤ ((b.append z t).chunks z').length := by
  rw [chunks_append b hz]
  split <;> simp

theorem IsSound.hold (h : s.IsSound zoneAt) (hz : z ≠ .body) (hp : zoneAt p = z) :
    (s.hold z p).IsSound zoneAt := by
  have hmem : ∀ e ∈ (s.hold z p).reservations,
      e = (p, (s.buffers.chunks z).length) ∨ e ∈ s.reservations ∧ e.1 ≠ p :=
    fun e he ↦ Assoc.mem_put h.nodup he
  have hold : ∀ e ∈ s.reservations, zoneAt e.1 = zoneAt p → e.2 ≠ (s.buffers.chunks z).length :=
    fun e he hzone ↦ Nat.ne_of_lt (by rw [← hp, ← hzone]; exact h.bound e he)
  refine ⟨Assoc.nodup_put h.nodup _, fun e he ↦ ?_, fun e he e' he' hzone hslot ↦ ?_⟩
  · rcases hmem e he with rfl | ⟨he, -⟩
    · rw [hp]
      show _ < ((s.buffers.append z "").chunks z).length
      simp [chunks_append _ hz]
    · exact Nat.lt_of_lt_of_le (h.bound e he) (length_chunks_append_le _ hz _)
  · rcases hmem e he with rfl | ⟨he, -⟩ <;> rcases hmem e' he' with rfl | ⟨he', -⟩
    · rfl
    · exact absurd hslot.symm (hold e' he' hzone.symm)
    · exact absurd hslot (hold e he hzone)
    · exact h.injective e he e' he' hzone hslot

theorem Rests.hold {z' : Zone} {k : Nat} (h : s.Rests zoneAt z' k t)
    (hs : (s.reservations.map (·.1)).Nodup) (hz : z ≠ .body) (hp : zoneAt p = z) :
    (s.hold z p).Rests zoneAt z' k t := by
  have hk := (List.getElem?_eq_some_iff.mp h.chunk).1
  refine ⟨?_, fun e he hzone ↦ ?_⟩
  · show ((s.buffers.append z "").chunks z')[k]? = some t
    rw [chunks_append _ hz]
    split
    · rw [List.getElem?_append_left hk, h.chunk]
    · exact h.chunk
  · rcases Assoc.mem_put hs he with rfl | ⟨he, -⟩
    · rw [← hzone, hp] at hk
      exact (Nat.ne_of_lt hk).symm
    · exact h.unheld e he hzone

/-- The slots with one given up. -/
def release (s : Slots) (p : Place) : Slots := ⟨s.buffers, Assoc.remove p s.reservations⟩

/-- The slots with a text behind all chunks of a zone. -/
def append (s : Slots) (z : Zone) (t : String) : Slots := ⟨s.buffers.append z t, s.reservations⟩

theorem IsSound.release (h : s.IsSound zoneAt) (p : Place) : (s.release p).IsSound zoneAt := by
  have hmem : ∀ e ∈ (s.release p).reservations, e ∈ s.reservations :=
    fun e he ↦ (Assoc.remove_sublist p s.reservations).mem he
  refine ⟨h.nodup.sublist ((Assoc.remove_sublist p _).map _), fun e he ↦ h.bound e (hmem e he), ?_⟩
  exact fun e he e' he' ↦ h.injective e (hmem e he) e' (hmem e' he')

theorem Rests.release {z' : Zone} {k : Nat} (h : s.Rests zoneAt z' k t) (p : Place) :
    (s.release p).Rests zoneAt z' k t :=
  ⟨h.chunk, fun e he ↦ h.unheld e ((Assoc.remove_sublist p s.reservations).mem he)⟩

theorem IsSound.append (h : s.IsSound zoneAt) (hz : z ≠ .body) (t : String) :
    (s.append z t).IsSound zoneAt :=
  ⟨h.nodup, fun e he ↦ Nat.lt_of_lt_of_le (h.bound e he) (length_chunks_append_le _ hz t),
    h.injective⟩

theorem Rests.append {z' : Zone} {k : Nat} (h : s.Rests zoneAt z' k t) (hz : z ≠ .body)
    (u : String) : (s.append z u).Rests zoneAt z' k t := by
  refine ⟨?_, h.unheld⟩
  show ((s.buffers.append z u).chunks z')[k]? = some t
  rw [chunks_append _ hz]
  split
  · rw [List.getElem?_append_left (List.getElem?_eq_some_iff.mp h.chunk).1, h.chunk]
  · exact h.chunk

/-- A text that was put behind all chunks rests there. -/
theorem rests_append (h : s.IsSound zoneAt) (hz : z ≠ .body) (t : String) :
    (s.append z t).Rests zoneAt z (s.buffers.chunks z).length t := by
  refine ⟨?_, fun e he hzone ↦ Nat.ne_of_lt (hzone ▸ h.bound e he)⟩
  show ((s.buffers.append z t).chunks z)[_]? = some t
  simp [chunks_append _ hz]

theorem chunks_fill (s : Slots) (hz : z ≠ .body) (p : Place) (slot : Nat) (t : String) (z' : Zone) :
    (s.fill z p slot t).buffers.chunks z' =
      if z' = z then (s.buffers.chunks z').set slot t else s.buffers.chunks z' := by
  rw [Slots.fill, Buffers.chunks_set _ _ _ _ hz]
  split
  · next h => rw [h]
  · rfl

theorem IsSound.fill (h : s.IsSound zoneAt) (hz : z ≠ .body) (p : Place) (slot : Nat) (t : String) :
    (s.fill z p slot t).IsSound zoneAt := by
  have hrelease := h.release p
  refine ⟨hrelease.nodup, fun e he ↦ ?_, hrelease.injective⟩
  rw [chunks_fill s hz]
  split
  · rw [List.length_set]
    exact hrelease.bound e he
  · exact hrelease.bound e he

theorem Rests.fill {z' : Zone} {k slot : Nat} (h : s.Rests zoneAt z' k t) (hz : z ≠ .body)
    (hp : zoneAt p = z) (hslot : (p, slot) ∈ s.reservations) (u : String) :
    (s.fill z p slot u).Rests zoneAt z' k t := by
  refine ⟨?_, (h.release p).unheld⟩
  rw [chunks_fill s hz]
  split
  · next hzone =>
    have hne : slot ≠ k := h.unheld _ hslot (hp.trans hzone.symm)
    rw [List.getElem?_set_ne hne]
    exact h.chunk
  · exact h.chunk

/-- A text that was put into a slot rests there. -/
theorem rests_fill {slot : Nat} (h : s.IsSound zoneAt) (hz : z ≠ .body) (hp : zoneAt p = z)
    (hslot : (p, slot) ∈ s.reservations) (t : String) :
    (s.fill z p slot t).Rests zoneAt z slot t := by
  have hbound : slot < (s.buffers.chunks z).length := hp ▸ h.bound _ hslot
  refine ⟨?_, fun e he hzone heq ↦ ?_⟩
  · rw [chunks_fill s hz, if_pos rfl, List.getElem?_set_self hbound]
  · have hmem := (Assoc.remove_sublist p s.reservations).mem he
    have := h.injective e hmem (p, slot) hslot (hzone.trans hp.symm) heq
    exact Assoc.ne_of_mem_remove h.nodup he (congrArg Prod.fst this)

end Slots

namespace Context

variable {c : Context} {z : Zone} {p : Place}

/-- A text is put into the slot held for the place, unless the slot is not there, and behind all
chunks if no slot is held. -/
theorem route_cases (hz : z ≠ .body) (t : String) (p : Place) (c : Context) :
    (c.reservations.lookup p = none ∧
      route z t (some p) c = (.ok (), c.withSlots (c.slots.append z t))) ∨
    (∃ slot, c.reservations.lookup p = some slot ∧ slot < (c.buffers.chunks z).length ∧
      route z t (some p) c = (.ok (), c.withSlots (c.slots.fill z p slot t))) ∨
    route z t (some p) c = (.error .slotOutOfRange, c.withSlots (c.slots.release p)) := by
  have hget : c.buffers.get? z = some (c.buffers.chunks z) := c.buffers.get?_eq_chunks hz
  cases hlookup : c.reservations.lookup p with
  | none =>
    refine .inl ⟨rfl, ?_⟩
    rw [route, hget]
    simp only [Option.bind_some, hlookup, Option.map_none]
    rfl
  | some slot =>
    right
    by_cases hslot : slot < (c.buffers.chunks z).length
    · exact .inl ⟨slot, rfl, hslot, route_withSlots (c := c) (s := c.slots) hz t hlookup hslot⟩
    · right
      rw [route, hget]
      simp only [Option.bind_some, hlookup, Option.map_some, if_neg hslot]
      rfl

/-- Where all slots are sound, a text gets into the buffer. -/
theorem exists_ok_route (h : c.slots.IsSound zoneAt) (hz : z ≠ .body) (hp : zoneAt p = z)
    (t : String) : ∃ u, (route z t (some p) c).1 = .ok u := by
  cases hlookup : c.reservations.lookup p with
  | none =>
    refine ⟨(), ?_⟩
    rw [route, c.buffers.get?_eq_chunks hz]
    simp only [Option.bind_some, hlookup, Option.map_none]
  | some slot =>
    have hslot : slot < (c.buffers.chunks z).length := by
      rw [← hp]
      exact h.bound _ (Assoc.mem_of_lookup hlookup)
    have heq := route_withSlots (c := c) (s := c.slots) hz t hlookup hslot
    exact ⟨(), congrArg Prod.fst heq⟩

/-- A text that has been put into a buffer rests there. -/
theorem rests_of_route {d : Context} {t : String} (h : c.slots.IsSound zoneAt) (hz : z ≠ .body)
    (hp : zoneAt p = z) (hroute : route z t (some p) c = (.ok (), d)) :
    ∃ k, d.slots.Rests zoneAt z k t := by
  rcases route_cases hz t p c with ⟨-, heq⟩ | ⟨slot, hslot, -, heq⟩ | heq
  · obtain ⟨-, rfl⟩ := Prod.mk.inj (heq.symm.trans hroute)
    exact ⟨_, Slots.rests_append h hz t⟩
  · obtain ⟨-, rfl⟩ := Prod.mk.inj (heq.symm.trans hroute)
    exact ⟨slot, Slots.rests_fill h hz hp (Assoc.mem_of_lookup hslot) t⟩
  · cases heq.symm.trans hroute

end Context

end Typeset

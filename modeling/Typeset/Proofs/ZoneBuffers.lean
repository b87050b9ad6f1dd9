import Typeset.Document
import Typeset.Proofs.Render.Chunks

/-!
# Texts in the buffers of zones

Slots are held and texts are put into the buffers of zones in any order. As long as no place holds
two slots at once, and the text of a place that holds one goes to the zone of its slot, each call
that holds a slot makes one entry, and so does each text that finds no slot. Entries stand in the
order of these calls, and each text gets into one of them.
-/

namespace Typeset

open Action Context

/-! ## Calls and what they ask for -/

/-- A call on the buffers of the zones. -/
inductive BufferCall where
  /-- Hold the next slot of a zone for a place. -/
  | reserve (z : Zone) (p : Place)
  /-- Put a text into a zone, for a place or for none. -/
  | route (z : Zone) (text : String) (p : Option Place)
deriving DecidableEq, Repr

namespace BufferCall

/-- The zone that the call is about. -/
def zone : BufferCall → Zone
  | .reserve z _ | .route z _ _ => z

/-- What the call does. -/
def perform : BufferCall → Action Unit
  | .reserve z p => Context.reserve z p
  | .route z text p => Context.route z text p

/-- What some calls do, one after the other. -/
def performAll : List BufferCall → Action Unit
  | [] => pure ()
  | call :: after => do
    call.perform
    performAll after

/-- The zone in which a place holds a slot after the call, given the one before. -/
def heldAfter (p : Place) (held : Option Zone) : BufferCall → Option Zone
  | .reserve z q => if q = p then some z else held
  | .route _ _ q => if q = some p then none else held

/-- The zone in which a place holds a slot after some calls. -/
def heldZone? (before : List BufferCall) (p : Place) : Option Zone :=
  before.foldl (heldAfter p) none

/-- The text that the call brings for a place. -/
def textFor? (p : Place) : BufferCall → Option String
  | .reserve _ _ => none
  | .route _ text q => if q = some p then some text else none

/-- The first text that some calls bring for a place. -/
def firstText? (calls : List BufferCall) (p : Place) : Option String := calls.findSome? (textFor? p)

/-- The call may come after some others: it names a zone with a buffer, a place that holds a slot
does not get another one, and its text goes to the zone of the slot. -/
def IsAllowed (before : List BufferCall) : BufferCall → Prop
  | .reserve z p => z ≠ .body ∧ heldZone? before p = none
  | .route z _ none => z ≠ .body
  | .route z _ (some p) => z ≠ .body ∧ ∀ z' ∈ heldZone? before p, z' = z

/-- Each of some calls may come after those before it. -/
def AreAllowed (before : List BufferCall) : List BufferCall → Prop
  | [] => True
  | call :: after => call.IsAllowed before ∧ AreAllowed (before ++ [call]) after

/-- The entry that the call makes between some others: for a slot the first text that comes for its
place later on, and for a text that finds no slot the text itself. -/
def made? (before after : List BufferCall) : BufferCall → Option String
  | .reserve _ p => some ((firstText? after p).getD "")
  | .route _ text none => some text
  | .route _ text (some p) => if (heldZone? before p).isSome then none else some text

/-- The entries that calls make in the buffer of a zone, in their order. -/
def entries (z : Zone) (before : List BufferCall) : List BufferCall → List String
  | [] => []
  | call :: after =>
    (if call.zone = z then (call.made? before after).toList else []) ++
      entries z (before ++ [call]) after

/-- The text that the call brings for a zone. -/
def textTo? (z : Zone) : BufferCall → Option String
  | .reserve _ _ => none
  | .route z' text _ => if z' = z then some text else none

/-- The texts that calls bring for a zone. -/
def textsTo (z : Zone) (calls : List BufferCall) : List String := calls.filterMap (textTo? z)

instance (before : List BufferCall) (call : BufferCall) : Decidable (call.IsAllowed before) := by
  cases call with
  | reserve z p => exact inferInstanceAs (Decidable (_ ∧ _))
  | route z text p =>
    cases p with
    | none => exact inferInstanceAs (Decidable (¬ _))
    | some p => exact inferInstanceAs (Decidable (_ ∧ _))

instance AreAllowed.decidable (before : List BufferCall) :
    (calls : List BufferCall) → Decidable (AreAllowed before calls)
  | [] => isTrue trivial
  | call :: after =>
    have := decidable (before ++ [call]) after
    inferInstanceAs (Decidable (_ ∧ _))

variable {before after : List BufferCall} {call : BufferCall} {z : Zone} {p q : Place}
  {text : String}

@[simp] theorem heldZone?_concat (before : List BufferCall) (call : BufferCall) (p : Place) :
    heldZone? (before ++ [call]) p = heldAfter p (heldZone? before p) call := by
  rw [heldZone?, List.foldl_append]
  rfl

theorem firstText?_cons (call : BufferCall) (after : List BufferCall) (p : Place) :
    firstText? (call :: after) p = (call.textFor? p).or (firstText? after p) := by
  rw [firstText?, List.findSome?_cons]
  cases call.textFor? p <;> rfl

/-- The zone in which a place holds a slot after some calls, and the body if it holds none. -/
def zoneAt (before : List BufferCall) (p : Place) : Zone := (heldZone? before p).getD .body

theorem zoneAt_of_held (h : heldZone? before p = some z) : zoneAt before p = z := by
  rw [zoneAt, h, Option.getD_some]

/-! ## Slots and the calls so far -/

/-- What the buffers have to do with the calls so far: the slots that places hold by the calls are
held in the buffers of their zones, and nothing stands in them yet. -/
structure Accounts (before : List BufferCall) (s : Slots) : Prop where
  sound : s.IsSound (zoneAt before)
  held : ∀ p, p ∈ s.reservations.map (·.1) ↔ (heldZone? before p).isSome = true
  blank : ∀ e ∈ s.reservations, (s.buffers.chunks (zoneAt before e.1))[e.2]? = some ""

end BufferCall

namespace Slots

variable {f g : Place → Zone} {s : Slots}

/-- Only the zones of places that hold slots count. -/
theorem IsSound.congr (h : s.IsSound f) (hfg : ∀ e ∈ s.reservations, g e.1 = f e.1) :
    s.IsSound g := by
  refine ⟨h.nodup, fun e he ↦ ?_, fun e he e' he' hzone hslot ↦ ?_⟩
  · rw [hfg e he]
    exact h.bound e he
  · rw [hfg e he, hfg e' he'] at hzone
    exact h.injective e he e' he' hzone hslot

theorem Rests.congr {z : Zone} {k : Nat} {t : String} (h : s.Rests f z k t)
    (hfg : ∀ e ∈ s.reservations, g e.1 = f e.1) : s.Rests g z k t := by
  refine ⟨h.chunk, fun e he hzone ↦ ?_⟩
  rw [hfg e he] at hzone
  exact h.unheld e he hzone

end Slots

namespace BufferCall

variable {before after : List BufferCall} {z : Zone} {p : Place} {text : String} {s : Slots}

namespace Accounts

theorem empty : Accounts [] ⟨.empty, []⟩ where
  sound := ⟨List.nodup_nil, by simp, by simp⟩
  held p := by simp [heldZone?]
  blank := by simp

variable (h : Accounts before s)

include h

theorem notMem (hfree : heldZone? before p = none) : p ∉ s.reservations.map (·.1) := by
  intro hp
  rw [h.held, hfree] at hp
  cases hp

theorem ne_of_free (hfree : heldZone? before p = none) {e : Place × Nat}
    (he : e ∈ s.reservations) : e.1 ≠ p := by
  rintro rfl
  exact h.notMem hfree (List.mem_map_of_mem he)

/-- A place that holds a slot is found with it. -/
theorem exists_slot (hheld : heldZone? before p = some z) :
    ∃ slot, s.reservations.lookup p = some slot ∧ slot < (s.buffers.chunks z).length := by
  have hp : p ∈ s.reservations.map (·.1) := (h.held p).mpr (by rw [hheld]; rfl)
  obtain ⟨⟨q, slot⟩, he, rfl⟩ := List.mem_map.mp hp
  have hbound := h.sound.bound _ he
  rw [zoneAt_of_held hheld] at hbound
  exact ⟨slot, Assoc.lookup_of_mem h.sound.nodup he, hbound⟩

end Accounts

/-! ## One call -/

section Reserve

variable (h : Accounts before s) (hfree : heldZone? before p = none)

theorem zoneAt_reserve_self : zoneAt (before ++ [.reserve z p]) p = z := by
  simp [zoneAt, heldAfter]

theorem zoneAt_reserve_of_ne {q : Place} (hq : q ≠ p) :
    zoneAt (before ++ [.reserve z p]) q = zoneAt before q := by
  simp [zoneAt, heldAfter, Ne.symm hq]

include h hfree

theorem zoneAt_reserve {e : Place × Nat} (he : e ∈ s.reservations) :
    zoneAt (before ++ [.reserve z p]) e.1 = zoneAt before e.1 :=
  zoneAt_reserve_of_ne (h.ne_of_free hfree he)

theorem reservations_hold (z : Zone) : (s.hold z p).reservations =
    s.reservations ++ [(p, (s.buffers.chunks z).length)] :=
  Assoc.put_of_notMem (h.notMem hfree) _

theorem Accounts.reserve (hz : z ≠ .body) :
    Accounts (before ++ [.reserve z p]) (s.hold z p) where
  sound := (h.sound.congr fun e he ↦ zoneAt_reserve h hfree he).hold hz zoneAt_reserve_self
  held q := by
    rw [reservations_hold h hfree, List.map_append, List.mem_append, h.held, heldZone?_concat,
      heldAfter]
    by_cases hq : p = q
    · simp [hq]
    · simp [hq, Ne.symm hq]
  blank e he := by
    rw [reservations_hold h hfree, List.mem_append, List.mem_singleton] at he
    show ((s.buffers.append z "").chunks _)[e.2]? = some ""
    rw [Slots.chunks_append _ hz]
    rcases he with he | rfl
    · rw [zoneAt_reserve h hfree he]
      have hblank := h.blank e he
      split
      · rw [List.getElem?_append_left (h.sound.bound e he), hblank]
      · exact hblank
    · rw [zoneAt_reserve_self, if_pos rfl]
      simp

end Reserve

section Append

variable (h : Accounts before s) {q : Option Place}
  (hfree : ∀ p, q = some p → heldZone? before p = none)

include hfree

/-- A text that finds no slot takes none away. -/
theorem heldZone?_append (p : Place) :
    heldZone? (before ++ [.route z text q]) p = heldZone? before p := by
  rw [heldZone?_concat, heldAfter]
  split
  · next hq => exact (hfree p hq).symm
  · rfl

theorem zoneAt_append : zoneAt (before ++ [.route z text q]) = zoneAt before := by
  funext p
  rw [zoneAt, heldZone?_append hfree, zoneAt]

include h in
theorem Accounts.append (hz : z ≠ .body) :
    Accounts (before ++ [.route z text q]) (s.append z text) where
  sound := by
    rw [zoneAt_append hfree]
    exact h.sound.append hz text
  held p := by
    rw [heldZone?_append hfree]
    exact h.held p
  blank e he := by
    rw [zoneAt_append hfree]
    show ((s.buffers.append z text).chunks _)[e.2]? = some ""
    rw [Slots.chunks_append _ hz]
    split
    · rw [List.getElem?_append_left (h.sound.bound e he), h.blank e he]
    · exact h.blank e he

end Append

section Fill

variable (h : Accounts before s) (hheld : heldZone? before p = some z) {slot : Nat}

theorem zoneAt_fill_of_ne {q : Place} (hq : q ≠ p) :
    zoneAt (before ++ [.route z text (some p)]) q = zoneAt before q := by
  simp [zoneAt, heldAfter, Ne.symm hq]

include h

theorem mem_fill {e : Place × Nat} :
    e ∈ (s.fill z p slot text).reservations ↔ e ∈ s.reservations ∧ e.1 ≠ p := by
  constructor
  · intro he
    exact ⟨(Assoc.remove_sublist p s.reservations).mem he, Assoc.ne_of_mem_remove h.sound.nodup he⟩
  · rintro ⟨he, hne⟩
    exact (List.mem_eraseP_of_neg (by simpa using hne)).mpr he

theorem zoneAt_fill {e : Place × Nat} (he : e ∈ (s.fill z p slot text).reservations) :
    zoneAt (before ++ [.route z text (some p)]) e.1 = zoneAt before e.1 :=
  zoneAt_fill_of_ne ((mem_fill h).mp he).2

include hheld

theorem Accounts.fill (hz : z ≠ .body) (hslot : (p, slot) ∈ s.reservations) :
    Accounts (before ++ [.route z text (some p)]) (s.fill z p slot text) where
  sound := (h.sound.fill hz p slot text).congr fun e he ↦ zoneAt_fill h he
  held q := by
    rw [heldZone?_concat, heldAfter, List.mem_map]
    simp only [mem_fill h]
    by_cases hq : p = q
    · subst hq
      simp
    · rw [if_neg (by simpa using hq), ← h.held, List.mem_map]
      constructor
      · rintro ⟨e, ⟨he, -⟩, heq⟩
        exact ⟨e, he, heq⟩
      · rintro ⟨e, he, heq⟩
        exact ⟨e, ⟨he, fun hp ↦ hq (hp.symm.trans heq)⟩, heq⟩
  blank e he := by
    obtain ⟨he', hne⟩ := (mem_fill h).mp he
    have hblank := h.blank e he'
    rw [zoneAt_fill h he, Slots.chunks_fill s hz]
    split
    · next hzone =>
      have hother : slot ≠ e.2 := by
        rintro rfl
        have hsame := h.sound.injective e he' (p, e.2) hslot
          (by rw [hzone, zoneAt_of_held hheld]) rfl
        exact hne (congrArg Prod.fst hsame)
      rw [List.getElem?_set_ne hother, hblank]
    · exact hblank

end Fill

/-! ## What calls lead to -/

/-- What stands in the buffers after some calls: each text that rests stays where it is, each slot
that is held gets the first text that comes for its place, and the entries of the calls stand
behind all that. -/
structure Ends (before calls : List BufferCall) (s : Slots) (b : Buffers) : Prop where
  rests : ∀ z k t, s.Rests (zoneAt before) z k t → (b.chunks z)[k]? = some t
  held : ∀ e ∈ s.reservations,
    (b.chunks (zoneAt before e.1))[e.2]? = some ((firstText? calls e.1).getD "")
  added : ∀ z ≠ .body, (b.chunks z).drop (s.buffers.chunks z).length = entries z before calls

theorem drop_of_getElem? {α : Type} {xs : List α} {k : Nat} {x : α} (h : xs[k]? = some x) :
    xs.drop k = x :: xs.drop (k + 1) := by
  obtain ⟨hk, rfl⟩ := List.getElem?_eq_some_iff.mp h
  exact List.drop_eq_getElem_cons hk

namespace Ends

variable {b : Buffers} (h : Accounts before s)

include h

theorem nil : Ends before [] s s.buffers where
  rests _ _ _ ht := ht.chunk
  held e he := h.blank e he
  added _ _ := List.drop_length

theorem reserve (hz : z ≠ .body) (hfree : heldZone? before p = none)
    (hb : Ends (before ++ [.reserve z p]) after (s.hold z p) b) :
    Ends before (.reserve z p :: after) s b where
  rests z' k t ht := by
    refine hb.rests z' k t (Slots.Rests.hold ?_ h.sound.nodup hz zoneAt_reserve_self)
    exact ht.congr fun e he ↦ zoneAt_reserve h hfree he
  held e he := by
    have hlater := hb.held e (by
      rw [reservations_hold h hfree]
      exact List.mem_append_left _ he)
    rw [zoneAt_reserve h hfree he] at hlater
    exact hlater
  added z' hz' := by
    have hadded := hb.added z' hz'
    have hchunks : (s.hold z p).buffers.chunks z' =
        if z' = z then s.buffers.chunks z' ++ [""] else s.buffers.chunks z' :=
      Slots.chunks_append s.buffers hz ""
    rw [hchunks] at hadded
    rw [entries, ← hadded]
    by_cases hzone : z' = z
    · subst hzone
      have hslot := hb.held (p, (s.buffers.chunks z').length) (by
        rw [reservations_hold h hfree]
        exact List.mem_append_right _ (List.mem_singleton_self _))
      rw [zoneAt_reserve_self] at hslot
      rw [drop_of_getElem? hslot]
      simp [zone, made?]
    · simp [zone, hzone, Ne.symm hzone]

theorem append (hz : z ≠ .body) {q : Option Place}
    (hfree : ∀ p, q = some p → heldZone? before p = none)
    (hb : Ends (before ++ [.route z text q]) after (s.append z text) b) :
    Ends before (.route z text q :: after) s b where
  rests z' k t ht := by
    refine hb.rests z' k t ?_
    rw [zoneAt_append hfree]
    exact ht.append hz text
  held e he := by
    have hlater := hb.held e he
    rw [zoneAt_append hfree] at hlater
    have hother : textFor? e.1 (.route z text q) = none := by
      rw [textFor?, if_neg]
      rintro rfl
      exact h.ne_of_free (hfree _ rfl) he rfl
    rw [firstText?_cons, hother, Option.none_or]
    exact hlater
  added z' hz' := by
    have hadded := hb.added z' hz'
    have hchunks : (s.append z text).buffers.chunks z' =
        if z' = z then s.buffers.chunks z' ++ [text] else s.buffers.chunks z' :=
      Slots.chunks_append s.buffers hz text
    have hentry : made? before after (.route z text q) = some text := by
      cases q with
      | none => rfl
      | some p => simp [made?, hfree p rfl]
    rw [hchunks] at hadded
    rw [entries, ← hadded, hentry]
    by_cases hzone : z' = z
    · subst hzone
      have hrests := hb.rests z' _ text (by
        rw [zoneAt_append hfree]
        exact Slots.rests_append h.sound hz text)
      rw [drop_of_getElem? hrests]
      simp [zone]
    · simp [zone, hzone, Ne.symm hzone]

theorem fill (hz : z ≠ .body) (hheld : heldZone? before p = some z) {slot : Nat}
    (hslot : (p, slot) ∈ s.reservations)
    (hb : Ends (before ++ [.route z text (some p)]) after (s.fill z p slot text) b) :
    Ends before (.route z text (some p) :: after) s b where
  rests z' k t ht := by
    refine hb.rests z' k t ?_
    exact (ht.fill hz (zoneAt_of_held hheld) hslot text).congr fun e he ↦ zoneAt_fill h he
  held e he := by
    by_cases hp : e.1 = p
    · -- The slot of the place itself is the one that was filled.
      obtain rfl : e = (p, slot) := by
        obtain ⟨q, k⟩ := e
        obtain rfl : q = p := hp
        have hlookup := Assoc.lookup_of_mem h.sound.nodup he
        rw [Assoc.lookup_of_mem h.sound.nodup hslot] at hlookup
        rw [Option.some.inj hlookup]
      rw [zoneAt_of_held hheld, firstText?_cons, textFor?, if_pos rfl]
      refine hb.rests z slot text ?_
      exact (Slots.rests_fill h.sound hz (zoneAt_of_held hheld) hslot text).congr
        fun e he ↦ zoneAt_fill h he
    · have hlater := hb.held e ((mem_fill h).mpr ⟨he, hp⟩)
      rw [zoneAt_fill_of_ne hp] at hlater
      rw [firstText?_cons, textFor?, if_neg (fun hq ↦ hp (Option.some.inj hq).symm), Option.none_or]
      exact hlater
  added z' hz' := by
    have hadded := hb.added z' hz'
    have hlength : ((s.fill z p slot text).buffers.chunks z').length =
        (s.buffers.chunks z').length := by
      rw [Slots.chunks_fill s hz]
      split
      · exact List.length_set
      · rfl
    rw [hlength] at hadded
    rw [entries, ← hadded]
    simp [made?, hheld]

end Ends

/-- A text for which no slot is held is put behind all chunks. -/
theorem route_append {c : Context} (hz : z ≠ .body) (text : String) {q : Option Place}
    (hq : ∀ p, q = some p → p ∉ c.reservations.map (·.1)) :
    Context.route z text q c = (.ok (), c.withSlots (c.slots.append z text)) := by
  have hslot : (q.bind fun p ↦ (c.reservations.lookup p).map fun slot ↦ (p, slot)) = none := by
    cases q with
    | none => rfl
    | some p =>
      have hlookup : c.reservations.lookup p = none := by
        refine List.lookup_eq_none_iff.mpr fun e he ↦ ?_
        rw [bne_iff_ne]
        rintro rfl
        exact hq e.1 rfl (List.mem_map_of_mem he)
      rw [Option.bind_some, hlookup, Option.map_none]
  rw [Context.route, c.buffers.get?_eq_chunks hz]
  simp only [hslot]
  rfl

/-- A call that is allowed does not fail, the buffers account for it, and what its own text and slot
end as is what the calls after it lead to. -/
theorem exists_perform {call : BufferCall} (hcall : call.IsAllowed before) (c : Context)
    (h : Accounts before c.slots) :
    ∃ s, call.perform c = (.ok (), c.withSlots s) ∧ Accounts (before ++ [call]) s ∧
      ∀ after b, Ends (before ++ [call]) after s b → Ends before (call :: after) c.slots b := by
  cases call with
  | reserve z p =>
    obtain ⟨hz, hfree⟩ := hcall
    exact ⟨c.slots.hold z p, reserve_withSlots (s := c.slots) hz, h.reserve hfree hz,
      fun _ _ hb ↦ hb.reserve h hz hfree⟩
  | route z text q =>
    have hz : z ≠ .body := by
      cases q with
      | none => exact hcall
      | some p => exact hcall.1
    by_cases hfree : ∀ p, q = some p → heldZone? before p = none
    · exact ⟨c.slots.append z text, route_append hz text fun p hp ↦ h.notMem (hfree p hp),
        h.append hfree hz, fun _ _ hb ↦ hb.append h hz hfree⟩
    · push Not at hfree
      obtain ⟨p, rfl, hheld⟩ := hfree
      obtain ⟨z', hz'⟩ := Option.ne_none_iff_exists'.mp hheld
      obtain rfl : z' = z := hcall.2 z' hz'
      obtain ⟨slot, hslot, hbound⟩ := h.exists_slot hz'
      have hmem := Assoc.mem_of_lookup hslot
      exact ⟨c.slots.fill z' p slot text, route_withSlots (s := c.slots) hz text hslot hbound,
        h.fill hz' hz hmem, fun _ _ hb ↦ hb.fill h hz hz' hmem⟩

/-- Calls that are allowed never fail, and the buffers end as the calls say. -/
theorem exists_performAll {calls : List BufferCall} (hallowed : AreAllowed before calls)
    (c : Context) (h : Accounts before c.slots) :
    ∃ d, performAll calls c = (.ok (), d) ∧ Ends before calls c.slots d.buffers := by
  induction calls generalizing before c with
  | nil => exact ⟨c, rfl, .nil h⟩
  | cons call after ih =>
    obtain ⟨hcall, hafter⟩ := hallowed
    obtain ⟨s, hrun, hs, hends⟩ := exists_perform hcall c h
    obtain ⟨d, hd, hb⟩ := ih hafter (c.withSlots s) hs
    exact ⟨d, (bind_of_ok hrun).trans hd, hends after d.buffers hb⟩

/-! ## Each text gets into one entry -/

/-- A call that brings no text for some places leaves open which texts come for them. -/
theorem filterMap_firstText?_cons {call : BufferCall} {ps : List Place}
    (h : ∀ p ∈ ps, call.textFor? p = none) :
    ps.filterMap (firstText? (call :: after)) = ps.filterMap (firstText? after) := by
  refine List.filterMap_congr fun p hp ↦ ?_
  rw [firstText?_cons, h p hp, Option.none_or]

/-- The entries of some calls, and the first texts that come for some places, are the texts that the
calls bring to the zone, and nothing else but empty texts. -/
def Shares (z : Zone) (before calls : List BufferCall) (ps : List Place) : Prop :=
  ∃ k, (entries z before calls ++ ps.filterMap (firstText? calls)).Perm
    (textsTo z calls ++ List.replicate k "")

namespace Shares

variable {ps : List Place}

theorem nil (z : Zone) (before : List BufferCall) (ps : List Place) : Shares z before [] ps := by
  refine ⟨0, ?_⟩
  simp [entries, textsTo, firstText?]

/-- A slot is filled with the first text that comes for its place, or stays empty. -/
theorem reserve (h : Shares z (before ++ [.reserve z p]) after (p :: ps)) :
    Shares z before (.reserve z p :: after) ps := by
  obtain ⟨k, hk⟩ := h
  have hrest : ps.filterMap (firstText? (.reserve z p :: after)) = ps.filterMap (firstText? after) :=
    filterMap_firstText?_cons fun _ _ ↦ rfl
  have htexts : textsTo z (.reserve z p :: after) = textsTo z after := rfl
  rw [List.filterMap_cons] at hk
  cases hfirst : firstText? after p with
  | none =>
    refine ⟨k + 1, ?_⟩
    rw [hfirst] at hk
    rw [hrest, htexts, List.replicate_succ]
    simpa [entries, zone, made?, hfirst] using (hk.cons "").trans List.perm_middle.symm
  | some t =>
    refine ⟨k, ?_⟩
    rw [hfirst] at hk
    rw [hrest, htexts]
    simpa [entries, zone, made?, hfirst] using List.perm_middle.symm.trans hk

/-- A text that finds no slot is an entry by itself. -/
theorem append {q : Option Place} (hfree : ∀ p, q = some p → heldZone? before p = none)
    (hps : ∀ p ∈ ps, (heldZone? before p).isSome = true)
    (h : Shares z (before ++ [.route z text q]) after ps) :
    Shares z before (.route z text q :: after) ps := by
  obtain ⟨k, hk⟩ := h
  have hentry : made? before after (.route z text q) = some text := by
    cases q with
    | none => rfl
    | some p => simp [made?, hfree p rfl]
  have hrest : ps.filterMap (firstText? (.route z text q :: after)) =
      ps.filterMap (firstText? after) := by
    refine filterMap_firstText?_cons fun p hp ↦ ?_
    rw [textFor?, if_neg]
    rintro rfl
    exact absurd (hps p hp) (by simp [hfree p rfl])
  refine ⟨k, ?_⟩
  rw [hrest, entries, hentry]
  simpa [zone, textsTo, textTo?] using hk.cons text

/-- A text that is put into a slot is the first one for the place of the slot. -/
theorem fill (hnodup : ps.Nodup) (hp : p ∈ ps) (hheld : heldZone? before p = some z)
    (h : Shares z (before ++ [.route z text (some p)]) after (ps.erase p)) :
    Shares z before (.route z text (some p) :: after) ps := by
  obtain ⟨k, hk⟩ := h
  have hrest : (ps.erase p).filterMap (firstText? (.route z text (some p) :: after)) =
      (ps.erase p).filterMap (firstText? after) := by
    refine filterMap_firstText?_cons fun q hq ↦ ?_
    rw [textFor?, if_neg]
    intro heq
    exact ((hnodup.mem_erase_iff).mp hq).1 (Option.some.inj heq).symm
  have hself : firstText? (.route z text (some p) :: after) p = some text := by
    rw [firstText?_cons, textFor?, if_pos rfl, Option.some_or]
  have hfirst : (ps.filterMap (firstText? (.route z text (some p) :: after))).Perm
      (text :: (ps.erase p).filterMap (firstText? after)) := by
    have hperm := (List.perm_cons_erase hp).filterMap
      (firstText? (.route z text (some p) :: after))
    rwa [List.filterMap_cons_some hself, hrest] at hperm
  refine ⟨k, (hfirst.append_left _).trans (List.perm_middle.trans ?_)⟩
  simpa [entries, zone, made?, hheld, textsTo, textTo?] using hk.cons text

/-- A call about another zone changes nothing. -/
theorem other {call : BufferCall} (hzone : call.zone ≠ z) (hps : ∀ p ∈ ps, call.textFor? p = none)
    (h : Shares z (before ++ [call]) after ps) : Shares z before (call :: after) ps := by
  obtain ⟨k, hk⟩ := h
  refine ⟨k, ?_⟩
  have htext : textTo? z call = none := by
    cases call with
    | reserve => rfl
    | route => exact if_neg hzone
  rw [filterMap_firstText?_cons hps, entries, if_neg hzone, textsTo, List.filterMap_cons_none htext]
  exact hk

end Shares

/-- Of all texts that calls bring to a zone, each gets into one entry, or into a slot that was held
before. -/
theorem shares {calls : List BufferCall} (hallowed : AreAllowed before calls) (z : Zone)
    {ps : List Place} (hnodup : ps.Nodup) (hps : ∀ p, p ∈ ps ↔ heldZone? before p = some z) :
    Shares z before calls ps := by
  induction calls generalizing before ps with
  | nil => exact .nil z before ps
  | cons call after ih =>
    obtain ⟨hcall, hafter⟩ := hallowed
    have hheld : ∀ p ∈ ps, (heldZone? before p).isSome = true := fun p hp ↦ by
      rw [(hps p).mp hp]
      rfl
    cases call with
    | reserve z' p =>
      have hp : p ∉ ps := fun hp ↦ absurd (hheld p hp) (by simp [hcall.2])
      by_cases hz : z' = z
      · subst hz
        refine .reserve (ih hafter (List.nodup_cons.mpr ⟨hp, hnodup⟩) fun q ↦ ?_)
        rw [heldZone?_concat, heldAfter, List.mem_cons, hps]
        by_cases hq : p = q
        · simp [hq]
        · simp [hq, Ne.symm hq]
      · refine .other hz (fun _ _ ↦ rfl) (ih hafter hnodup fun q ↦ ?_)
        rw [heldZone?_concat, heldAfter, hps]
        by_cases hq : p = q
        · subst hq
          simp [hcall.2, hz]
        · simp [hq]
    | route z' text q =>
      by_cases hfree : ∀ p, q = some p → heldZone? before p = none
      · have hsame : ∀ p, p ∈ ps ↔ heldZone? (before ++ [.route z' text q]) p = some z := by
          intro p
          rw [heldZone?_append hfree]
          exact hps p
        have hnext := ih hafter hnodup hsame
        by_cases hz : z' = z
        · subst hz
          exact hnext.append hfree hheld
        · refine .other hz (fun p hp ↦ ?_) hnext
          rw [textFor?, if_neg]
          rintro rfl
          exact absurd (hheld p hp) (by simp [hfree p rfl])
      · push Not at hfree
        obtain ⟨p, rfl, hsome⟩ := hfree
        obtain ⟨z'', hz''⟩ := Option.ne_none_iff_exists'.mp hsome
        obtain rfl : z'' = z' := hcall.2 z'' hz''
        by_cases hz : z'' = z
        · subst hz
          refine .fill hnodup ((hps p).mpr hz'') hz'' (ih hafter (hnodup.erase p) fun q ↦ ?_)
          rw [heldZone?_concat, heldAfter, hnodup.mem_erase_iff, hps]
          by_cases hq : p = q
          · simp [hq]
          · simp [hq, Ne.symm hq]
        · have hp : p ∉ ps := fun hp ↦ hz (Option.some.inj (hz''.symm.trans ((hps p).mp hp)))
          refine .other hz (fun q hq ↦ ?_) (ih hafter hnodup fun q ↦ ?_)
          · rw [textFor?, if_neg]
            intro heq
            exact hp (Option.some.inj heq ▸ hq)
          · rw [heldZone?_concat, heldAfter, hps]
            by_cases hq : p = q
            · subst hq
              simp [hz'', hz]
            · simp [hq]

end BufferCall

open BufferCall

/-- Whatever calls that are allowed come to fresh buffers: none of them fails, and the buffer of
each zone ends with one entry for each slot that was held and each text that found none, in the
order of the calls. The entry of a slot is the first text that came for its place afterwards, or
empty, and that of a text is the text. So each text that was brought to the zone is in it once, and
besides there are only slots that were never filled. -/
theorem buffers_hold_each_text_once (r : References) {calls : List BufferCall}
    (hallowed : AreAllowed [] calls) :
    ∃ c, performAll calls (.ofReferences r) = (.ok (), c) ∧ ∀ z ≠ .body,
      c.buffers.get? z = some (entries z [] calls) ∧
        ∃ k, (entries z [] calls).Perm (textsTo z calls ++ List.replicate k "") := by
  obtain ⟨c, hrun, hends⟩ := exists_performAll hallowed (.ofReferences r) .empty
  refine ⟨c, hrun, fun z hz ↦ ⟨?_, ?_⟩⟩
  · have hadded := hends.added z hz
    have hfresh : (Context.ofReferences r).slots.buffers.chunks z = [] := by
      show (Buffers.empty.get? z).getD [] = []
      rw [Buffers.get?_empty hz, Option.getD_some]
    rw [hfresh, List.length_nil, List.drop_zero] at hadded
    rw [Buffers.get?_eq_chunks _ hz, hadded]
  · have hshares := shares hallowed z List.nodup_nil (by simp [heldZone?])
    rwa [Shares, List.filterMap_nil, List.append_nil] at hshares

/-- Two slots of one zone that are filled the other way round, one of another zone held by a place
that had its slot before, and texts in between. -/
def interleavedCalls : List BufferCall :=
  [.reserve .appendix outer, .reserve .appendix inner, .route .index "x" none,
    .route .appendix "inner" (some inner), .route .appendix "again" (some inner),
    .reserve .index inner, .route .appendix "outer" (some outer), .reserve .copying outer]
where
  outer : Place := .ofRoot 0
  inner : Place := .ofRoot 1

theorem interleavedCalls_hold_each_text_once :
    AreAllowed [] interleavedCalls ∧
      entries .appendix [] interleavedCalls = ["outer", "inner", "again"] ∧
        entries .index [] interleavedCalls = ["x", ""] ∧
          ∃ c, performAll interleavedCalls (.ofReferences .empty) = (.ok (), c) ∧
            c.buffers.get? .appendix = some ["outer", "inner", "again"] := by
  have hallowed : AreAllowed [] interleavedCalls := by decide
  have happendix : entries .appendix [] interleavedCalls = ["outer", "inner", "again"] := by decide
  obtain ⟨c, hrun, hbuffers⟩ := buffers_hold_each_text_once .empty hallowed
  refine ⟨hallowed, happendix, by decide, c, hrun, ?_⟩
  rw [(hbuffers .appendix (by decide)).1, happendix]

end Typeset

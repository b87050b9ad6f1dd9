import Typeset.Proofs.Assoc
import Typeset.Proofs.Render.Closed
import Typeset.Proofs.Render.Safe
import Typeset.Proofs.Tree.Inserted

/-!
# Printing a tree and the same tree with one more block

The two trees are printed side by side, in contexts that tell the same of corresponding places. Each
step has the same result and leaves such contexts, and where the new block is printed only the second
context goes on. So both trees print the same if the block prints nothing and changes nothing that is
told of any other place.
-/

namespace Typeset

open Action Context Node Render

variable {i : Insertion} {β : Type} {p q : Place}

/-! ## What is kept by place -/

/-- Two tables of what is kept by place tell the same of corresponding places. The second one may
have more to tell. -/
structure Insertion.Relocates (i : Insertion) (es es' : List (Place × β)) : Prop where
  nodup : (es.map (·.1)).Nodup
  nodup' : (es'.map (·.1)).Nodup
  lookup : ∀ p, es'.lookup (i.move p) = es.lookup p

namespace Insertion.Relocates

variable {es es' : List (Place × β)}

theorem nil : i.Relocates ([] : List (Place × β)) [] := ⟨List.nodup_nil, List.nodup_nil, fun _ ↦ rfl⟩

theorem put (h : i.Relocates es es') (p : Place) (value : β) :
    i.Relocates (Assoc.put p value es) (Assoc.put (i.move p) value es') where
  nodup := Assoc.nodup_put h.nodup value
  nodup' := Assoc.nodup_put h.nodup' value
  lookup q := by
    by_cases hq : q = p
    · rw [hq, Assoc.lookup_put_self, Assoc.lookup_put_self]
    · rw [Assoc.lookup_put_of_ne hq, Assoc.lookup_put_of_ne fun heq ↦ hq (move_injective heq),
        h.lookup]

theorem lookup_remove_self {p : Place} (h : (es.map (·.1)).Nodup) :
    (Assoc.remove p es).lookup p = none := by
  cases hlookup : (Assoc.remove p es).lookup p with
  | none => rfl
  | some value => exact absurd rfl (Assoc.ne_of_mem_remove h (Assoc.mem_of_lookup hlookup))

theorem nodup_remove (h : (es.map (·.1)).Nodup) (p : Place) :
    ((Assoc.remove p es).map (·.1)).Nodup := ((Assoc.remove_sublist p es).map _).nodup h

theorem remove (h : i.Relocates es es') (p : Place) :
    i.Relocates (Assoc.remove p es) (Assoc.remove (i.move p) es') where
  nodup := nodup_remove h.nodup p
  nodup' := nodup_remove h.nodup' _
  lookup q := by
    by_cases hq : q = p
    · rw [hq, lookup_remove_self h.nodup, lookup_remove_self h.nodup']
    · rw [Assoc.lookup_remove_of_ne hq,
        Assoc.lookup_remove_of_ne fun heq ↦ hq (move_injective heq), h.lookup]

/-- What is put by the place of a new node tells nothing of any other. -/
theorem put_new (h : i.Relocates es es') (hp : i.Covers p) (value : β) :
    i.Relocates es (Assoc.put p value es') where
  nodup := h.nodup
  nodup' := Assoc.nodup_put h.nodup' value
  lookup q := by
    rw [Assoc.lookup_put_of_ne, h.lookup]
    rintro rfl
    exact not_covers_move q hp

theorem remove_new (h : i.Relocates es es') (hp : i.Covers p) :
    i.Relocates es (Assoc.remove p es') where
  nodup := h.nodup
  nodup' := nodup_remove h.nodup' p
  lookup q := by
    rw [Assoc.lookup_remove_of_ne, h.lookup]
    rintro rfl
    exact not_covers_move q hp

end Insertion.Relocates

/-! ## Contexts and actions -/

/-- The second context tells of the places where nodes have moved what the first one tells of the
places where they stood. -/
structure Context.Mirrors (i : Insertion) (ix ix' : LinkIndex) (c c' : Context) : Prop where
  index : c.references.index = ix
  index' : c'.references.index = ix'
  places : c'.references.places = c.references.places.map i.move
  buffers : c'.buffers = c.buffers
  reservations : i.Relocates c.reservations c'.reservations
  languages : c'.languages = c.languages
  footnotes : c'.footnotes = c.footnotes
  footnoteCount : c'.footnoteCount = c.footnoteCount
  ancestors : List.Forall₂ i.Pairs c.ancestors c'.ancestors
  heldRows : i.Relocates c.heldRows c'.heldRows
  warnings : c'.warnings = c.warnings

/-- Both actions fail in the same way, or both give results that correspond, in contexts that do. -/
inductive Action.Match {α β : Type} (S : Context → Context → Prop) (R : α → β → Prop) :
    Except Failure α × Context → Except Failure β × Context → Prop
  | ok {a : α} {b : β} {c d : Context} : R a b → S c d → Match S R (.ok a, c) (.ok b, d)
  | error {e : Failure} {c d : Context} : Match S R (.error e, c) (.error e, d)

theorem Action.Match.mono {α β : Type} {S : Context → Context → Prop} {R R' : α → β → Prop}
    {r : Except Failure α × Context} {s : Except Failure β × Context} (h : Match S R r s)
    (himp : ∀ a b, R a b → R' a b) : Match S R' r s := by
  cases h with
  | ok hab hcd => exact .ok (himp _ _ hab) hcd
  | error => exact .error

/-- In contexts that correspond, both actions come to the same. -/
def Action.Coupled {α β : Type} (i : Insertion) (ix ix' : LinkIndex) (R : α → β → Prop)
    (x : Action α) (y : Action β) : Prop :=
  ∀ c d, Context.Mirrors i ix ix' c d → Match (Context.Mirrors i ix ix') R (x c) (y d)

variable {ix ix' : LinkIndex} {o o' : Occurrence}

namespace Insertion.Pairs

theorem info (h : i.Pairs o o') : o'.node.info = o.node.info := h.twins.info

theorem element (h : i.Pairs o o') : o'.node.element = o.node.element := h.twins.element

theorem kind (h : i.Pairs o o') : o'.node.kind = o.node.kind := h.twins.kind

theorem loose? (h : i.Pairs o o') (field : String) :
    o'.node.loose? field = o.node.loose? field := by rw [Node.loose?, Node.loose?, h.info]

theorem origin (h : i.Pairs o o') : o'.node.origin = o.node.origin := by
  rw [Node.origin, Node.origin, h.info]

theorem attributes (h : i.Pairs o o') : o'.node.attributes = o.node.attributes := by
  rw [Node.attributes, Node.attributes, h.info]

theorem zone (h : i.Pairs o o') : o'.node.zone = o.node.zone := by
  rw [Node.zone, Node.zone, h.element]

theorem explicitKey (h : i.Pairs o o') : o'.node.explicitKey = o.node.explicitKey := by
  rw [Node.explicitKey, Node.explicitKey, h.element, h.info, h.loose?]

/-- A figure holds no blocks. -/
theorem isFigure (h : i.Pairs o o') : o'.node.isFigure = o.node.isFigure := by
  by_cases hkind : o.node.kind.mayHoldBlocks
  · have hne : o.node.kind ≠ .paragraph := by
      intro heq
      rw [heq] at hkind
      rcases hkind with h | h <;> cases h
    have hne' : o'.node.kind ≠ .paragraph := h.kind ▸ hne
    rw [Node.isFigure, Node.isFigure, beq_eq_false_iff_ne.mpr hne, beq_eq_false_iff_ne.mpr hne']
    rfl
  · rw [h.twins.eq_of_not_mayHoldBlocks hkind]

theorem labelPrefix (h : i.Pairs o o') : o'.node.labelPrefix = o.node.labelPrefix := by
  rw [Node.labelPrefix, Node.labelPrefix, h.element, h.isFigure]

theorem printsCaption (h : i.Pairs o o') :
    Render.printsCaption o'.node = Render.printsCaption o.node := by
  rw [Render.printsCaption, Render.printsCaption, h.isFigure, h.kind]

/-- A node that may hold no blocks is the same in another place. -/
theorem eq_of_kind (h : i.Pairs o o') {k : Kind} (hk : o.node.kind = k)
    (hholds : ¬ k.mayHoldBlocks) : o' = ⟨i.move o.place, o.node⟩ := by
  obtain ⟨p', n'⟩ := o'
  obtain rfl : p' = _ := h.place
  obtain rfl : n' = o.node := h.twins.eq_of_not_mayHoldBlocks (hk ▸ hholds)
  rfl

end Insertion.Pairs

theorem Context.labelWith_eq (ho : o.node.isProper = true) (force : Bool) :
    labelWith force o = labelFromKey force o := by
  rw [labelWith_eq_steps, Node.labelFault?_eq_none ho, check_none_eq_pure, pure_bind]

namespace Action.Coupled

variable {α β γ δ : Type} {R : α → β → Prop} {T : γ → δ → Prop} {x : Action α} {y : Action β}

theorem read {f g : Context → Except Failure α}
    (h : ∀ c d, Context.Mirrors i ix ix' c d → g d = f c) :
    Coupled i ix ix' (· = ·) (fun c ↦ (f c, c)) fun d ↦ (g d, d) := by
  intro c d hcd
  have heq := h c d hcd
  dsimp only
  rw [heq]
  cases f c with
  | error e => exact .error
  | ok a => exact .ok rfl hcd

theorem pureOf {a : α} {b : β} (h : R a b) :
    Coupled i ix ix' R (Pure.pure a : Action α) (Pure.pure b : Action β) :=
  fun _ _ hcd ↦ .ok h hcd

theorem pure (a : α) : Coupled i ix ix' (· = ·) (Pure.pure a : Action α) (Pure.pure a) := pureOf rfl

theorem fail (e : Failure) : Coupled i ix ix' R (Action.fail e) (Action.fail e) :=
  fun _ _ _ ↦ .error

theorem ofExcept (r : Except Failure α) :
    Coupled i ix ix' (· = ·) (Action.ofExcept r) (Action.ofExcept r) := read fun _ _ _ ↦ rfl

theorem ask {f g : Context → α} (h : ∀ c d, Context.Mirrors i ix ix' c d → g d = f c) :
    Coupled i ix ix' (· = ·) (Action.ask f) (Action.ask g) :=
  read (f := fun c ↦ .ok (f c)) fun c d hcd ↦ congrArg _ (h c d hcd)

theorem check (fault : Option Failure) :
    Coupled i ix ix' (· = ·) (Action.check fault) (Action.check fault) := by
  cases fault with
  | none => exact pure ()
  | some e => exact fail e

theorem bindOf {k : α → Action γ} {l : β → Action δ} (hx : Coupled i ix ix' R x y)
    (hk : ∀ a b, R a b → Coupled i ix ix' T (k a) (l b)) :
    Coupled i ix ix' T (x >>= k) (y >>= l) := by
  intro c d hcd
  have hfirst := hx c d hcd
  rw [bind_apply, bind_apply]
  generalize x c = r at hfirst ⊢
  generalize y d = s at hfirst ⊢
  cases hfirst with
  | ok hab hcd => exact hk _ _ hab _ _ hcd
  | error => exact .error

theorem bind {x y : Action α} {k : α → Action γ} {l : α → Action δ}
    (hx : Coupled i ix ix' (· = ·) x y) (hk : ∀ a, Coupled i ix ix' T (k a) (l a)) :
    Coupled i ix ix' T (x >>= k) (y >>= l) :=
  hx.bindOf fun a b hab ↦ (show a = b from hab) ▸ hk a

theorem map {x y : Action α} (f : α → γ) (hx : Coupled i ix ix' (· = ·) x y) :
    Coupled i ix ix' (· = ·) (f <$> x) (f <$> y) := by
  rw [map_eq_pure_bind, map_eq_pure_bind]
  exact hx.bind fun a ↦ pure (f a)

theorem ite {c : Prop} [Decidable c] {x x' : Action α} {y y' : Action β}
    (hx : Coupled i ix ix' R x y) (hy : Coupled i ix ix' R x' y') :
    Coupled i ix ix' R (if c then x else x') (if c then y else y') := by
  split
  · exact hx
  · exact hy

/-! ## Changes of the context -/

theorem warn (message : String) :
    Coupled i ix ix' (· = ·) (Context.warn message) (Context.warn message) :=
  fun _ _ h ↦ .ok rfl { h with warnings := congrArg (· ++ [message]) h.warnings }

theorem nameOfLanguage (config : Config) (language : String) :
    Coupled i ix ix' (· = ·) (Context.nameOfLanguage config language)
      (Context.nameOfLanguage config language) := by
  intro c d h
  rw [Context.nameOfLanguage, Context.nameOfLanguage, h.languages]
  split
  · exact .ok rfl h
  · exact .ok rfl { h with languages := rfl }

theorem nextFootnote (label : Datum) :
    Coupled i ix ix' (· = ·) (Context.nextFootnote label) (Context.nextFootnote label) := by
  intro c d h
  rw [Context.nextFootnote, Context.nextFootnote, h.footnotes, h.footnoteCount]
  split
  · exact .ok rfl h
  · exact .ok rfl { h with footnotes := rfl, footnoteCount := rfl }

theorem idxOf?_map_move (ps : List Place) (p : Place) :
    (ps.map i.move).idxOf? (i.move p) = ps.idxOf? p := by
  rw [List.idxOf?, List.idxOf?, List.findIdx?_map]
  refine congrFun (congrArg _ (funext fun q ↦ ?_)) ps
  exact decide_eq_decide.mpr Insertion.move_injective.eq_iff

theorem reference (p : Place) :
    Coupled i ix ix' (· = ·) (Context.reference p) (Context.reference (i.move p)) := by
  intro c d h
  rw [Context.reference, Context.reference, References.reference, References.reference, h.places,
    idxOf?_map_move]
  cases c.references.places.idxOf? p with
  | some k => exact .ok rfl { h with }
  | none =>
    dsimp only
    rw [List.length_map]
    exact .ok rfl { h with places := by simp }

/-- Corresponding nodes have the same label. -/
theorem labelWith (force : Bool) (h : i.Pairs o o') (ho : o.node.isProper = true)
    (ho' : o'.node.isProper = true) :
    Coupled i ix ix' (· = ·) (Context.labelWith force o) (Context.labelWith force o') := by
  have hreferred : Coupled i ix ix' (· = ·)
      (do return some (References.labelOf o.node (← Context.reference o.place)))
      (do return some (References.labelOf o'.node (← Context.reference o'.place))) := by
    rw [h.place]
    refine (reference o.place).bind fun token ↦ pureOf ?_
    rw [References.labelOf, References.labelOf, h.labelPrefix]
  rw [labelWith_eq ho, labelWith_eq ho', labelFromKey, labelFromKey, h.explicitKey,
    h.twins.hasCaption]
  cases o.node.explicitKey with
  | none => exact ite hreferred (pure none)
  | some key =>
    refine ite hreferred (pureOf ?_)
    rw [References.labelOf, References.labelOf, h.labelPrefix]

theorem label? (h : i.Pairs o o') (ho : o.node.isProper = true) (ho' : o'.node.isProper = true) :
    Coupled i ix ix' (· = ·) (Context.label? o) (Context.label? o') := labelWith false h ho ho'

theorem label (h : i.Pairs o o') (ho : o.node.isProper = true) (ho' : o'.node.isProper = true) :
    Coupled i ix ix' (· = ·) (Context.label o) (Context.label o') :=
  (labelWith true h ho ho').bind fun _ ↦ pure _

theorem hold (p : Place) (row : String) :
    Coupled i ix ix' (· = ·) (Context.hold p row) (Context.hold (i.move p) row) := by
  intro c d h
  rw [Context.hold, Context.hold, change_apply, change_apply, h.heldRows.lookup]
  exact .ok rfl { h with heldRows := h.heldRows.put p _ }

theorem release (p : Place) :
    Coupled i ix ix' (· = ·) (Context.release p) (Context.release (i.move p)) := by
  intro c d h
  rw [Context.release, Context.release, h.heldRows.lookup]
  exact .ok rfl { h with heldRows := h.heldRows.remove p }

theorem reserve (z : Zone) (p : Place) :
    Coupled i ix ix' (· = ·) (Context.reserve z p) (Context.reserve z (i.move p)) := by
  intro c d h
  rw [Context.reserve, Context.reserve, h.buffers]
  split
  · exact .error
  · exact .ok rfl { h with buffers := rfl, reservations := h.reservations.put p _ }

theorem route (z : Zone) (text : String) (p : Place) :
    Coupled i ix ix' (· = ·) (Context.route z text (some p))
      (Context.route z text (some (i.move p))) := by
  intro c d h
  rw [Context.route, Context.route, h.buffers, Option.bind_some, Option.bind_some,
    h.reservations.lookup]
  split
  · exact .error
  · cases c.reservations.lookup p with
    | none => exact .ok rfl { h with buffers := rfl }
    | some slot =>
      dsimp only [Option.map_some]
      split
      · exact .ok rfl { h with buffers := rfl, reservations := h.reservations.remove p }
      · exact .error

theorem reserveSlot (h : i.Pairs o o') :
    Coupled i ix ix' (· = ·) (Render.reserveSlot o) (Render.reserveSlot o') := by
  rw [Render.reserveSlot, Render.reserveSlot, h.zone, h.place]
  exact ite (pure ()) (reserve _ _)

/-- Corresponding nodes stay so below corresponding ones. -/
theorem within {x : Action α} {y : Action β} (h : i.Pairs o o') (hx : Coupled i ix ix' R x y) :
    Coupled i ix ix' R (Context.within o x) (Context.within o' y) := by
  intro c d hcd
  have hbelow := hx { c with ancestors := o :: c.ancestors } { d with ancestors := o' :: d.ancestors }
    { hcd with ancestors := .cons h hcd.ancestors }
  rw [Context.within, Context.within, bind_of_ok (x := push o) rfl, bind_of_ok (x := push o') rfl,
    bind_apply, bind_apply]
  generalize x { c with ancestors := o :: c.ancestors } = r at hbelow ⊢
  generalize y { d with ancestors := o' :: d.ancestors } = s at hbelow ⊢
  cases hbelow with
  | error => exact .error
  | @ok a b c d hab hcd =>
    have hancestors := hcd.ancestors
    dsimp only
    rw [bind_apply, bind_apply, pop, pop]
    generalize c.ancestors = above at hancestors ⊢
    generalize d.ancestors = above' at hancestors ⊢
    cases hancestors with
    | nil => exact .error
    | cons _ hrest => exact .ok hab { hcd with ancestors := hrest }

end Action.Coupled

/-! ## Nodes around -/

namespace Insertion

variable {above above' : List Occurrence}

theorem any_of_pairs (h : List.Forall₂ i.Pairs above above') {f g : Occurrence → Bool}
    (hf : ∀ o o', i.Pairs o o' → g o' = f o) : above'.any g = above.any f := by
  induction h with
  | nil => rfl
  | cons hpair _ ih => rw [List.any_cons, List.any_cons, hf _ _ hpair, ih]

theorem countP_of_pairs (h : List.Forall₂ i.Pairs above above') {f g : Occurrence → Bool}
    (hf : ∀ o o', i.Pairs o o' → g o' = f o) : above'.countP g = above.countP f := by
  induction h with
  | nil => rfl
  | cons hpair _ ih => rw [List.countP_cons, List.countP_cons, hf _ _ hpair, ih]

theorem head?_of_pairs (h : List.Forall₂ i.Pairs above above') :
    Option.Rel i.Pairs above.head? above'.head? := by
  cases h with
  | nil => exact .none
  | cons hpair _ => exact .some hpair

theorem find?_of_pairs (h : List.Forall₂ i.Pairs above above') {f g : Occurrence → Bool}
    (hf : ∀ o o', i.Pairs o o' → g o' = f o) :
    Option.Rel i.Pairs (above.find? f) (above'.find? g) := by
  induction h with
  | nil => exact .none
  | @cons o o' _ _ hpair _ ih =>
    rw [List.find?_cons, List.find?_cons, hf o o' hpair]
    cases f o
    · exact ih
    · exact .some hpair

end Insertion

namespace Context.Mirrors

open Insertion

variable {c d : Context} (h : Context.Mirrors i ix ix' c d)

include h

theorem inMath : d.inMath = c.inMath :=
  any_of_pairs h.ancestors fun _ _ hpair ↦ by rw [hpair.kind]

theorem orderedDepth : d.orderedDepth = c.orderedDepth :=
  countP_of_pairs h.ancestors fun _ _ hpair ↦ by
    rw [Node.isOrderedList, Node.isOrderedList, hpair.element]

theorem parent? : Option.Rel i.Pairs c.parent? d.parent? := head?_of_pairs h.ancestors

theorem table? : Option.Rel i.Pairs c.table? d.table? :=
  find?_of_pairs h.ancestors fun _ _ hpair ↦ by rw [hpair.kind]

theorem itemDepth? : Render.itemDepth? d = Render.itemDepth? c := by
  have hparent := h.parent?
  rw [Render.itemDepth?, Render.itemDepth?, h.orderedDepth]
  generalize c.parent? = r at hparent ⊢
  generalize d.parent? = s at hparent ⊢
  cases hparent with
  | none => rfl
  | some hpair =>
    rw [Option.any_some, Option.any_some, Node.isOrderedList, Node.isOrderedList, hpair.element]

theorem imageAttributes : Render.imageAttributes d = Render.imageAttributes c := by
  have hparent := h.parent?
  rw [Render.imageAttributes, Render.imageAttributes]
  generalize c.parent? = r at hparent ⊢
  generalize d.parent? = s at hparent ⊢
  cases hparent with
  | none => rfl
  | some hpair =>
    dsimp only
    rw [hpair.kind, hpair.attributes]

end Context.Mirrors

/-! ## Indexes -/

/-- No footnote of the tree has the label. -/
def Node.Spares (label : String) (n : Node) : Prop :=
  ∀ m ∈ n.visit, m.element ≠ .footnoteReference (some label)

/-- Corresponding nodes of two well-typed trees, none of which uses the label. -/
structure Insertion.Couples (i : Insertion) (label : String) (o o' : Occurrence) : Prop
    extends i.Pairs o o' where
  isWellTyped : o.node.isWellTyped = true
  isWellTyped' : o'.node.isWellTyped = true
  spares : o.node.Spares label

/-- What is found in the second index corresponds to what is found in the first one, but for the
label. -/
structure Insertion.Reindexes (i : Insertion) (label : String) (ix ix' : LinkIndex) : Prop where
  target : ∀ kind path, Option.Rel (i.Couples label) (ix.target? kind path) (ix'.target? kind path)
  footnote : ∀ l ≠ label, Option.Rel (i.Couples label) (ix.footnotes.lookup (.str l))
    (ix'.footnotes.lookup (.str l))
  codeLine : ∀ l origin, ix'.codeLine l origin = ix.codeLine l origin
  firstLine : ∀ p, ix'.firstLine? (i.move p) = ix.firstLine? p

namespace Action.Coupled

variable {α : Type} {config : Config} {label : String} {expand expand' : Occurrence → Action String}

/-- Both contexts are asked for what corresponds. -/
theorem askOf {γ δ : Type} {R : γ → δ → Prop} {f : Context → γ} {g : Context → δ}
    (h : ∀ c d, Context.Mirrors i ix ix' c d → R (f c) (g d)) :
    Coupled i ix ix' R (Action.ask f) (Action.ask g) := fun c d hcd ↦ .ok (h c d hcd) hcd

theorem resolve {kind path : String} {origin : Option Origin} (hix : i.Reindexes label ix ix') :
    Coupled i ix ix' (i.Couples label)
      (fun c ↦ (c.references.index.resolveDatum kind (.str path) origin, c))
      fun c ↦ (c.references.index.resolveDatum kind (.str path) origin, c) := by
  intro c d hcd
  have htarget := hix.target kind path
  dsimp only
  rw [hcd.index, hcd.index']
  show Match _ _ (LinkIndex.orUnresolved kind (.str path) origin (ix.target? kind path), c)
    (LinkIndex.orUnresolved kind (.str path) origin (ix'.target? kind path), d)
  generalize ix.target? kind path = r at htarget ⊢
  generalize ix'.target? kind path = s at htarget ⊢
  cases htarget with
  | none => exact .error
  | some htarget => exact .ok htarget hcd

theorem definition {l : String} {origin : Option Origin} (hix : i.Reindexes label ix ix')
    (hl : l ≠ label) :
    Coupled i ix ix' (i.Couples label)
      (fun c ↦ (c.references.index.footnote (.str l) origin, c))
      fun c ↦ (c.references.index.footnote (.str l) origin, c) := by
  intro c d hcd
  have hdefinition := hix.footnote l hl
  dsimp only
  rw [hcd.index, hcd.index']
  show Match _ _ (LinkIndex.orUnresolved "footnote" (.str l) origin
      (ix.footnotes.lookup (.str l)), c)
    (LinkIndex.orUnresolved "footnote" (.str l) origin (ix'.footnotes.lookup (.str l)), d)
  generalize ix.footnotes.lookup (.str l) = r at hdefinition ⊢
  generalize ix'.footnotes.lookup (.str l) = s at hdefinition ⊢
  cases hdefinition with
  | none => exact .error
  | some hdefinition => exact .ok hdefinition hcd

/-! ## Blocks -/

section

variable (h : i.Couples label o o')

include h

theorem properLabel :
    Coupled i ix ix' (· = ·) (Context.label o) (Context.label o') :=
  Coupled.label h.toPairs (isProper_of_isWellTyped h.isWellTyped)
    (isProper_of_isWellTyped h.isWellTyped')

theorem properLabel? :
    Coupled i ix ix' (· = ·) (Context.label? o) (Context.label? o') :=
  Coupled.label? h.toPairs (isProper_of_isWellTyped h.isWellTyped)
    (isProper_of_isWellTyped h.isWellTyped')

theorem heading (g : Heading) (parts : Parts) :
    Coupled i ix ix' (· = ·) (Render.heading config o g parts) (Render.heading config o' g parts) := by
  rw [Render.heading, Render.heading, h.loose?, h.zone, h.place]
  refine (properLabel h).bind fun _ ↦ (check _).bind fun _ ↦ (ofExcept _).bind fun text ↦ ?_
  exact ite (pure _) ((route _ _ _).bind fun _ ↦ pure _)

theorem paragraph (parts : Parts) :
    Coupled i ix ix' (· = ·) (Render.paragraph config o parts)
      (Render.paragraph config o' parts) := by
  rw [Render.paragraph, Render.paragraph, Node.figureFault?_eq_none
    (isProper_of_isWellTyped h.isWellTyped), Node.figureFault?_eq_none
    (isProper_of_isWellTyped h.isWellTyped'), h.isFigure, h.attributes]
  refine (check _).bind fun _ ↦ ite ?_ (pure _)
  exact (properLabel? h).bind fun _ ↦ (check _).bind fun _ ↦ pure _

theorem plainList (kind : ListKind) (contents : String) :
    Coupled i ix ix' (· = ·) (Render.plainList o kind contents)
      (Render.plainList o' kind contents) := by
  rw [Render.plainList, Render.plainList, Node.listKindFault?, Node.listKindFault?, h.loose?,
    h.attributes]
  exact (check _).bind fun _ ↦ ofExcept _

theorem item (checkbox : Option Checkbox) (counter : Option Int) (parts : Parts) :
    Coupled i ix ix' (· = ·) (Render.item o checkbox counter parts)
      (Render.item o' checkbox counter parts) := by
  rw [Render.item, Render.item, Node.counterFault?, Node.counterFault?, Node.keyFieldFault?,
    Node.keyFieldFault?, h.loose?, h.loose?]
  refine (ask fun _ _ hcd ↦ hcd.itemDepth?).bind fun depth ↦ (check _).bind fun _ ↦ ?_
  exact (check _).bind fun _ ↦ pure _

omit h in
theorem languageOf (b : CodeBlock) :
    Coupled i ix ix' (· = ·) (Render.languageOf config b) (Render.languageOf config b) := by
  unfold Render.languageOf
  split
  · exact pure _
  · exact pure _
  · exact (nameOfLanguage config _).bind fun _ ↦ pure _

omit h in
/-- Where a block of code stands makes no difference for the labels in it. -/
theorem checkLabels_congr {origin : Origin} {e e' : CodeEntry}
    (he : ∀ l, e'.lineOf? l = e.lineOf? l) (labels : List Datum) :
    checkLabels origin e' labels = checkLabels origin e labels := by
  induction labels with
  | nil => rfl
  | cons l labels ih => rw [checkLabels, checkLabels, he, ih]

theorem codeBlock (hix : i.Reindexes label ix ix') (hkind : o.node.kind = .codeBlock)
    (b : CodeBlock) (caption : String) :
    Coupled i ix ix' (· = ·) (Render.codeBlock config o b caption)
      (Render.codeBlock config o' b caption) := by
  have hlabel : Coupled i ix ix' (· = ·) (Context.label? o) (Context.label? o') := properLabel? h
  obtain rfl := h.eq_of_kind hkind (by decide)
  have hlabels : ∀ origin labels,
      checkLabels origin (.ofOccurrence ⟨i.move o.place, o.node⟩ b) labels =
        checkLabels origin (.ofOccurrence o b) labels :=
    fun _ ↦ checkLabels_congr fun _ ↦ rfl
  rw [Render.codeBlock, Render.codeBlock]
  refine (check _).bind fun _ ↦ ?_
  rw [hlabels]
  refine (ofExcept _).bind fun _ ↦ (ask fun c d hcd ↦ ?_).bind fun firstLine ↦ ?_
  · rw [hcd.index, hcd.index']
    exact hix.firstLine _
  · refine (check _).bind fun _ ↦ (languageOf b).bind fun _ ↦ hlabel.bind fun _ ↦ ?_
    exact (check _).bind fun _ ↦ pure _

theorem table (hkind : o.node.kind = .table) (parts : Parts) :
    Coupled i ix ix' (· = ·) (Render.table config o parts) (Render.table config o' parts) := by
  have hlabel : Coupled i ix ix' (· = ·) (Context.label? o) (Context.label? o') := properLabel? h
  obtain rfl := h.eq_of_kind hkind (by decide)
  rw [Render.table, Render.table]
  refine (ofExcept _).bind fun _ ↦ (check _).bind fun _ ↦ (check _).bind fun _ ↦ ?_
  exact hlabel.bind fun _ ↦ ite ((release _).bind fun _ ↦ pure _) (pure _)

end

end Action.Coupled

end Typeset

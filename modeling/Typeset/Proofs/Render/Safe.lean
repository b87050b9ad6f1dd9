import Typeset.Proofs.CodeLabels
import Typeset.Proofs.CrossReferences
import Typeset.Proofs.Latex.Faultless
import Typeset.Proofs.References

/-!
# What printing can fail with

Some failures are documented: a node that is never printed, a row or a cell outside of a table, and
links and labels that resolve to nothing. The printing of a well-typed document has no others, since
it knows what it stands in: the index is that of the document, every slot that is held lies in its
buffer, and the nodes around are those of the document.
-/

namespace Typeset

open Action Context Latex Render Text

/-! ## Documented failures -/

/-- Printing is documented to fail this way: a node cannot be printed where it stands, or a link or a
label in code resolves to nothing. What counts is what the failure ends in. -/
def Failure.isDocumented (e : Failure) : Bool :=
  match e.settled with
  | .unprintableKind _ _ | .strayRow _ | .strayCell _ | .unresolvedLink _ _ _
  | .unresolvedCode _ _ => true
  | _ => false

theorem Node.lineFault?_eq_none {n : Node} (h : n.isWellTyped = true) :
    n.origin.lineFault? = none := by
  have hinfo := info_isWellTyped h
  simp only [NodeInfo.isWellTyped, Bool.and_eq_true] at hinfo
  have horigin := hinfo.1.1.1.2
  cases hn : n.origin with
  | position p => rfl
  | other d =>
    rw [show n.info.origin = .other d from hn] at horigin
    cases horigin

/-- A failure that tells where a well-typed node comes from is documented. -/
theorem Failure.isDocumented_of_origin? {n : Node} (hn : n.isWellTyped = true) {e : Failure}
    (horigin : e.origin? = some n.origin) : e.isDocumented = true := by
  have hsettled : e.settled = e := by
    rw [settled, horigin, Option.bind_some, Node.lineFault?_eq_none hn]
  rw [isDocumented, hsettled]
  cases e with
  | unprintableKind | strayRow | strayCell | unresolvedLink | unresolvedCode => rfl
  | _ => cases horigin

/-! ## Documents that can be printed -/

/-- The heading that an element is. -/
def Element.heading? : Element → Option Heading
  | .heading h => some h
  | _ => none

theorem Element.heading?_eq_some_iff {e : Element} {h : Heading} :
    e.heading? = some h ↔ e = .heading h := by
  cases e <;> simp [heading?]

instance (e : Element) (P : Heading → Prop) [DecidablePred P] :
    Decidable (∀ h, e = .heading h → P h) :=
  decidable_of_iff (∀ h ∈ e.heading?, P h)
    (forall_congr' fun _ ↦ imp_congr_left Element.heading?_eq_some_iff)

/-- The values of a document are of the types that are declared, headings have levels from one on,
and each label format is a percent sign and an `s` for the label and has no other percent sign. -/
structure Node.IsPrintable (doc : Node) : Prop where
  isWellTyped : doc.isWellTyped = true
  levels : ∀ n ∈ doc.visit, ∀ h, n.element = .heading h → 1 ≤ h.level
  formats : ∀ n ∈ doc.visit, ∀ b, n.element = .codeBlock b →
    LabelFormat.isPlain b.labelFormat = true

instance (doc : Node) : Decidable doc.IsPrintable :=
  decidable_of_iff (doc.isWellTyped = true ∧
      (∀ n ∈ doc.visit, ∀ h, n.element = .heading h → 1 ≤ h.level) ∧
        ∀ n ∈ doc.visit, ∀ b, n.element = .codeBlock b →
          LabelFormat.isPlain b.labelFormat = true)
    ⟨fun h ↦ ⟨h.1, h.2.1, h.2.2⟩, fun h ↦ ⟨h.isWellTyped, h.levels, h.formats⟩⟩

variable {config : Config} {doc : Node} {above : List Occurrence} {o : Occurrence} {c : Context}

namespace Node.IsPrintable

variable (hdoc : doc.IsPrintable)

include hdoc

theorem isProper : doc.isProper = true := isProper_of_isWellTyped hdoc.isWellTyped

variable (ho : o ∈ doc.occurrences (.ofRoot 0))

include ho

theorem isWellTyped_node : o.node.isWellTyped = true :=
  isWellTyped_of_mem_occurrences hdoc.isWellTyped ho

theorem isProper_node : o.node.isProper = true :=
  isProper_of_isWellTyped (hdoc.isWellTyped_node ho)

theorem areTexts_attributes : o.node.attributes.areTexts = true :=
  NodeInfo.areTexts_attributes (info_isWellTyped (hdoc.isWellTyped_node ho))

theorem isWellTyped_element : o.node.element.isWellTyped = true :=
  NodeInfo.isWellTyped_element (info_isWellTyped (hdoc.isWellTyped_node ho))

end Node.IsPrintable

/-! ## Safe actions -/

/-- The printing of a document can be in the context below some of its nodes, the innermost first. -/
structure Context.StandsIn (doc : Node) (above : List Occurrence) (c : Context) : Prop where
  index : c.references.index = doc.index
  sound : c.slots.IsSound doc.zoneAt
  ancestors : c.ancestors = above

/-- Below some nodes of a document the action has no failures but documented ones, and what comes
next stands in the same place. -/
def Action.IsSafe {α : Type} (doc : Node) (above : List Occurrence) (x : Action α) : Prop :=
  ∀ c, c.StandsIn doc above → (∀ e, (x c).1 = .error e → e.isDocumented = true) ∧
    ∀ a, (x c).1 = .ok a → (x c).2.StandsIn doc above

namespace Action.IsSafe

variable {α β : Type} {x : Action α}

theorem bindOfResult {k : α → Action β} (hx : IsSafe doc above x)
    (hk : ∀ c a, c.StandsIn doc above → (x c).1 = .ok a → IsSafe doc above (k a)) :
    IsSafe doc above (x >>= k) := by
  intro c hc
  obtain ⟨herror, hok⟩ := hx c hc
  cases hr : x c with
  | mk r d =>
    rw [hr] at herror hok
    cases r with
    | error e =>
      rw [bind_of_error hr]
      refine ⟨fun e' he ↦ ?_, fun b hb ↦ by cases hb⟩
      obtain rfl := Except.error.inj he
      exact herror e rfl
    | ok a =>
      rw [bind_of_ok hr]
      exact hk c a hc (by rw [hr]) d (hok a rfl)

theorem bind {k : α → Action β} (hx : IsSafe doc above x) (hk : ∀ a, IsSafe doc above (k a)) :
    IsSafe doc above (x >>= k) := hx.bindOfResult fun _ a _ _ ↦ hk a

theorem read {f : Context → Except Failure α}
    (h : ∀ c, c.StandsIn doc above → ∀ e, f c = .error e → e.isDocumented = true) :
    IsSafe doc above fun c ↦ (f c, c) := fun c hc ↦ ⟨h c hc, fun _ _ ↦ hc⟩

theorem pure (a : α) : IsSafe doc above (Pure.pure a : Action α) :=
  read (f := fun _ ↦ .ok a) fun _ _ _ he ↦ nomatch he

theorem ask (f : Context → α) : IsSafe doc above (Action.ask f) :=
  read (f := fun c ↦ .ok (f c)) fun _ _ _ he ↦ nomatch he

theorem fail {e : Failure} (h : e.isDocumented = true) :
    IsSafe doc above (Action.fail e : Action α) :=
  read (f := fun _ ↦ .error e) fun _ _ e' he ↦ by
    obtain rfl := Except.error.inj he
    exact h

theorem check {fault : Option Failure} (h : fault = none) : IsSafe doc above (Action.check fault) := by
  subst h
  exact pure ()

theorem ofExcept {r : Except Failure α} (h : ∃ a, r = .ok a) :
    IsSafe doc above (Action.ofExcept r) := by
  obtain ⟨a, rfl⟩ := h
  exact pure a

/-- Documented failures and sound contexts last from one action to the next. -/
theorem lasting (doc : Node) (above : List Occurrence) :
    Lasting fun _ x ↦ IsSafe doc above x where
  pure := pure
  bind := bind

theorem map (f : α → β) (hx : IsSafe doc above x) : IsSafe doc above (f <$> x) :=
  (lasting doc above).map f hx

theorem ite {p : Prop} [Decidable p] {x y : Action α} (hx : p → IsSafe doc above x)
    (hy : ¬ p → IsSafe doc above y) : IsSafe doc above (if p then x else y) := by
  split
  · next h => exact hx h
  · next h => exact hy h

/-- What passes through the scope of a document is safe if it has no failures but documented
ones. -/
theorem of_passing (hx : Passing (doc.scope fun _ ↦ True) doc.index x)
    (h : ∀ c, c.StandsIn doc above → ∀ e, (x c).1 = .error e → e.isDocumented = true) :
    IsSafe doc above x := by
  intro c hc
  obtain ⟨hpassage, hancestors⟩ := hx c hc.index
  refine ⟨h c hc, fun a ha ↦ ⟨hpassage.index.trans hc.index, hpassage.sound hc.sound, ?_⟩⟩
  exact (hancestors a ha).trans hc.ancestors

theorem of_ok (hx : Passing (doc.scope fun _ ↦ True) doc.index x)
    (h : ∀ c, c.StandsIn doc above → ∃ a, (x c).1 = .ok a) : IsSafe doc above x := by
  refine of_passing hx fun c hc e he ↦ ?_
  obtain ⟨a, ha⟩ := h c hc
  rw [ha] at he
  cases he

/-- What is done below a node is safe in its own place. -/
theorem within (o : Occurrence) (hx : IsSafe doc (o :: above) x) :
    IsSafe doc above (Context.within o x) := by
  intro c hc
  obtain ⟨herror, hok⟩ := hx { c with ancestors := o :: c.ancestors }
    ⟨hc.index, hc.sound, congrArg (o :: ·) hc.ancestors⟩
  rw [Context.within, bind_of_ok (x := push o) rfl]
  cases hr : x { c with ancestors := o :: c.ancestors } with
  | mk r d =>
    rw [hr] at herror hok
    cases r with
    | error e =>
      rw [bind_of_error hr]
      exact ⟨herror, fun a ha ↦ by cases ha⟩
    | ok a =>
      have hd := hok a rfl
      have hpop : pop d = (.ok o, { d with ancestors := above }) := by
        rw [pop, hd.ancestors]
      rw [bind_of_ok hr, bind_of_ok hpop]
      exact ⟨fun e he ↦ (by cases he), fun _ _ ↦ ⟨hd.index, hd.sound, rfl⟩⟩

/-! ## Changes of the context -/

theorem warn (message : String) : IsSafe doc above (Context.warn message) :=
  of_ok ((Passing.closed _ _).warn message) fun _ _ ↦ ⟨(), rfl⟩

theorem nameOfLanguage (config : Config) (language : String) :
    IsSafe doc above (Context.nameOfLanguage config language) := by
  refine of_ok ((Passing.closed _ _).nameOfLanguage config language) fun c _ ↦ ?_
  obtain ⟨name, languages, hname⟩ := exists_nameOfLanguage_eq config language c
  rw [hname]
  exact ⟨name, rfl⟩

theorem nextFootnote (label : Datum) : IsSafe doc above (Context.nextFootnote label) := by
  refine of_ok ((Passing.closed _ _).nextFootnote label) fun c _ ↦ ?_
  unfold Context.nextFootnote
  split <;> exact ⟨_, rfl⟩

theorem reference (p : Place) : IsSafe doc above (Context.reference p) :=
  of_ok ((Passing.closed _ _).reference p) fun _ _ ↦ ⟨_, rfl⟩

theorem labelWith (force : Bool) (ho : o.node.isProper = true) :
    IsSafe doc above (Context.labelWith force o) := by
  refine of_ok (.labelWith force o) fun c _ ↦ ?_
  rw [labelWith_of_sound (Node.labelFault?_eq_none ho)]
  exact ⟨_, rfl⟩

theorem label? (ho : o.node.isProper = true) : IsSafe doc above (Context.label? o) :=
  labelWith false ho

theorem label (ho : o.node.isProper = true) : IsSafe doc above (Context.label o) :=
  (labelWith true ho).bind fun _ ↦ pure _

theorem hold (table : Place) (row : String) : IsSafe doc above (Context.hold table row) :=
  of_ok (.hold table row) fun _ _ ↦ ⟨(), rfl⟩

section

variable (ho : o ∈ doc.occurrences (.ofRoot 0))

include ho

theorem release : IsSafe doc above (Context.release o.place) :=
  of_ok (Passing.admits (Node.scope_admits ho trivial)).release fun _ _ ↦ ⟨_, rfl⟩

theorem reserveSlot : IsSafe doc above (Render.reserveSlot o) := by
  unfold Render.reserveSlot
  refine ite (fun _ ↦ pure ()) fun hzone ↦ ?_
  refine of_ok ((Passing.admits (Node.scope_admits ho trivial)).reserve hzone) fun c _ ↦ ⟨(), ?_⟩
  rw [reserve, Buffers.get?_eq_chunks _ hzone]

theorem route (hzone : o.node.zone ≠ .body) (text : String) :
    IsSafe doc above (Context.route o.node.zone text (some o.place)) := by
  refine of_ok ((Passing.admits (Node.scope_admits ho trivial)).route hzone text) fun c hc ↦ ?_
  exact exists_ok_route hc.sound hzone (Node.zoneAt_of_mem_occurrences ho) text

end

end Action.IsSafe

end Typeset

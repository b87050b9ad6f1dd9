import Typeset.Proofs.Render.Frame
import Typeset.Proofs.Renderer
import Typeset.Proofs.Resolution

/-!
# The frame of printing a node, wherever it is printed

The contexts in which a node may be printed are those that come up when trees are indexed and
printed one after the other in a context that was fresh in the beginning, also in the middle of a
walk. In all of them the footnotes that have been used are numbered without gaps, and the
definitions of footnotes are those of the trees, so that each node is printed within its frame.
-/

namespace Typeset

open Action Context Render

variable {α β : Type} {ix : LinkIndex}

/-! ## The numbers of footnotes -/

namespace Context

/-- The footnotes that have been used have the numbers from one to their count, in the order in
which they were used first. -/
structure IsNumbering (footnotes : List (Datum × Nat)) (count : Nat) : Prop where
  numbers : footnotes.map (·.2) = List.range' 1 count
  keys : (footnotes.map (·.1)).Nodup

namespace IsNumbering

theorem nil : IsNumbering [] 0 := ⟨rfl, List.nodup_nil⟩

/-- The next number goes to a footnote without one. -/
theorem next {footnotes : List (Datum × Nat)} {count : Nat} (h : IsNumbering footnotes count)
    {key : Datum} (hkey : footnotes.lookup key = none) :
    IsNumbering (footnotes ++ [(key, count + 1)]) (count + 1) where
  numbers := by
    rw [List.map_append, h.numbers, ← List.range'_append_1, Nat.add_comm count 1]
    rfl
  keys := by
    rw [List.map_append, List.nodup_append]
    refine ⟨h.keys, List.nodup_singleton _, ?_⟩
    rintro k hk _ hk' rfl
    obtain ⟨e, he, rfl⟩ := List.mem_map.mp hk
    have hself : e.1 = key := List.mem_singleton.mp hk'
    rw [← hself, Assoc.lookup_of_mem h.keys he] at hkey
    cases hkey

end IsNumbering

end Context

/-- Whether the action ends or not, it leaves the index as it is and numbers footnotes as they
come. -/
def Action.Numbers (ix : LinkIndex) (x : Action α) : Prop :=
  ∀ c, c.references.index = ix → (x c).2.references.index = ix ∧
    (IsNumbering c.footnotes c.footnoteCount →
      IsNumbering (x c).2.footnotes (x c).2.footnoteCount)

namespace Action.Numbers

theorem bindOfResult {x : Action α} {k : α → Action β} (hx : Numbers ix x)
    (hk : ∀ c a, c.references.index = ix → (x c).1 = .ok a → Numbers ix (k a)) :
    Numbers ix (x >>= k) := by
  intro c hc
  obtain ⟨hindex, hnumbers⟩ := hx c hc
  cases hr : x c with
  | mk r c' =>
    rw [hr] at hindex hnumbers
    cases r with
    | error e =>
      rw [bind_of_error hr]
      exact ⟨hindex, hnumbers⟩
    | ok a =>
      rw [bind_of_ok hr]
      obtain ⟨hindex', hnumbers'⟩ := hk c a hc (by rw [hr]) c' hindex
      exact ⟨hindex', fun h ↦ hnumbers' (hnumbers h)⟩

/-- An action that leaves the footnotes alone, and the index. -/
theorem of_unnumbered {x : Action α}
    (h : ∀ c, (x c).2.references.index = c.references.index ∧
      (x c).2.footnotes = c.footnotes ∧ (x c).2.footnoteCount = c.footnoteCount) :
    Numbers ix x := by
  intro c hc
  obtain ⟨hindex, hfootnotes, hcount⟩ := h c
  refine ⟨hindex.trans hc, fun hnumbers ↦ ?_⟩
  rwa [hfootnotes, hcount]

theorem nextFootnote (label : Datum) : Numbers ix (nextFootnote label) := by
  intro c hc
  cases h : c.footnotes.lookup label.key with
  | some number =>
    simp only [Context.nextFootnote, h]
    exact ⟨hc, id⟩
  | none =>
    simp only [Context.nextFootnote, h]
    exact ⟨hc, fun hnumbers ↦ hnumbers.next h⟩

theorem nameOfLanguage (config : Config) (language : String) :
    Numbers ix (nameOfLanguage config language) := by
  refine of_unnumbered fun c ↦ ?_
  obtain ⟨name, languages, hname⟩ := exists_nameOfLanguage_eq config language c
  simp [hname]

theorem labelWith (force : Bool) (o : Occurrence) : Numbers ix (labelWith force o) := by
  refine of_unnumbered fun c ↦ ?_
  have hlabel := References.index_label c.references o force
  cases h : o.node.labelFault? with
  | some e => simp [labelWith_of_fault h]
  | none => simp [labelWith_of_sound h, hlabel]

theorem pop : Numbers ix pop := by
  refine of_unnumbered fun c ↦ ?_
  cases h : c.ancestors <;> simp [Context.pop, h]

/-- Numbering footnotes as they come is closed under what printing is made of. -/
theorem closed (ix : LinkIndex) : Closed ix fun _ x ↦ Numbers ix x where
  read _ := of_unnumbered fun _ ↦ ⟨rfl, rfl, rfl⟩
  bindOfResult := bindOfResult
  within := by
    intro α o x hx
    refine (of_unnumbered fun _ ↦ ⟨rfl, rfl, rfl⟩).bindOfResult fun _ _ _ _ ↦ ?_
    refine hx.bindOfResult fun _ a _ _ ↦ pop.bindOfResult fun _ _ _ _ ↦ ?_
    exact of_unnumbered fun _ ↦ ⟨rfl, rfl, rfl⟩
  warn _ := of_unnumbered fun _ ↦ ⟨rfl, rfl, rfl⟩
  hold _ _ := of_unnumbered fun _ ↦ ⟨rfl, rfl, rfl⟩
  nameOfLanguage := nameOfLanguage
  nextFootnote := nextFootnote
  reference p := of_unnumbered fun c ↦ ⟨References.index_reference c.references p, rfl, rfl⟩
  labelWith := labelWith

theorem reserve (z : Zone) (p : Place) : Numbers ix (reserve z p) := by
  refine of_unnumbered fun c ↦ ?_
  cases h : c.buffers.get? z <;> simp [Context.reserve, h]

theorem route (z : Zone) (text : String) (p : Option Place) : Numbers ix (route z text p) := by
  refine of_unnumbered fun c ↦ ?_
  unfold Context.route
  split
  · exact ⟨rfl, rfl, rfl⟩
  · split
    · exact ⟨rfl, rfl, rfl⟩
    · dsimp only
      split <;> exact ⟨rfl, rfl, rfl⟩

theorem admits (o : Occurrence) : o.Admits fun _ x ↦ Numbers ix x where
  reserve _ := reserve _ _
  route _ text := route _ text _
  release := of_unnumbered fun _ ↦ ⟨rfl, rfl, rfl⟩

end Action.Numbers

/-! ## Contexts that come up -/

/-- The contexts that come up, from a fresh one on, as some trees are indexed and nodes of them are
printed: a heading holds its slot, a node has its children printed, a footnote is given its number,
and a node is printed as a whole. -/
inductive Context.ComesUp (config : Config) (roots : List Occurrence) : Context → Prop
  | fresh : ComesUp config roots .empty
  | indexed {c : Context} {o : Occurrence} {r : References} (h : ComesUp config roots c)
    (ho : o ∈ roots) (hr : c.references.add? o.place o.node = .ok r) :
    ComesUp config roots { c with references := r }
  | held {c d : Context} {o : Occurrence} (h : ComesUp config roots c) (ho : o ∈ visitsOf roots)
    (hrun : reserve o.node.zone o.place c = (.ok (), d)) : ComesUp config roots d
  | entered {c : Context} {o : Occurrence} (h : ComesUp config roots c) (ho : o ∈ visitsOf roots) :
    ComesUp config roots { c with ancestors := o :: c.ancestors }
  | numbered {c : Context} (h : ComesUp config roots c) (label : Datum) :
    ComesUp config roots (nextFootnote label c).2
  | printed {c d : Context} {o : Occurrence} {output : Option String}
    (h : ComesUp config roots c) (ho : o ∈ visitsOf roots)
    (hrun : occurrence config o c = (.ok output, d)) : ComesUp config roots d

/-- The footnotes of a context are numbered without gaps, and its index knows no definitions but
those that visits of some trees come to. -/
structure Context.IsSteady (roots : List Occurrence) (c : Context) : Prop where
  numbering : IsNumbering c.footnotes c.footnoteCount
  offsets : c.references.index.HasOffsets
  notes : ∀ e ∈ c.references.index.footnotes,
    e.2 ∈ visitsOf roots ∧ e.2.node.kind = .footnoteDefinition

namespace Context.IsSteady

variable {roots : List Occurrence} {c d : Context}

theorem empty (roots : List Occurrence) : IsSteady roots .empty where
  numbering := .nil
  offsets _ h := absurd h List.not_mem_nil
  notes _ h := absurd h List.not_mem_nil

theorem indexed (h : c.IsSteady roots) {o : Occurrence} (ho : o ∈ roots)
    (hproper : o.node.isProper = true) {r : References}
    (hr : c.references.add? o.place o.node = .ok r) : IsSteady roots { c with references := r } := by
  obtain ⟨hadd, hoffsets⟩ := References.add?_of_isProper h.offsets hproper o.place
  obtain rfl := Except.ok.inj (hadd.symm.trans hr)
  refine ⟨h.numbering, hoffsets, fun e he ↦ ?_⟩
  have he : e ∈ (c.references.index.add o.place o.node).footnotes := he
  rcases LinkIndex.mem_footnotes_add he with he | ⟨hmem, hkind⟩
  · exact h.notes e he
  · exact ⟨List.mem_flatMap.mpr ⟨o, ho, hmem⟩, hkind⟩

/-- Actions that number footnotes as they come keep a context steady. -/
theorem after (h : c.IsSteady roots) {x : Action α} (hx : Numbers c.references.index x) :
    IsSteady roots (x c).2 := by
  obtain ⟨hindex, hnumbers⟩ := hx c rfl
  exact ⟨hnumbers h.numbering, hindex ▸ h.offsets, hindex ▸ h.notes⟩

end Context.IsSteady

theorem Context.ComesUp.isSteady {config : Config} {roots : List Occurrence}
    (hroots : ∀ o ∈ roots, o.node.isProper = true) {c : Context} (h : c.ComesUp config roots) :
    c.IsSteady roots := by
  induction h with
  | fresh => exact .empty roots
  | indexed _ ho hr ih => exact ih.indexed ho (hroots _ ho) hr
  | @held c d o _ _ hrun ih =>
    have hd := ih.after (Numbers.reserve o.node.zone o.place)
    rwa [hrun] at hd
  | entered _ _ ih => exact { ih with }
  | @numbered c _ label ih => exact ih.after (Numbers.nextFootnote label)
  | @printed c d o output _ _ hrun ih =>
    have hd := ih.after ((Numbers.closed _).occurrence Numbers.admits config o)
    rwa [hrun] at hd

/-! ## The frame -/

/-- However far trees without headings of zones in their footnotes have been indexed and printed: a
node of them that is printed, while none of the nodes of its own tree holds a slot, leaves the nodes
around and the held slots as they were, and only adds to the buffers, to the warnings, to the
references and to the footnotes. Footnotes and places keep the numbers and references they have, and
the footnotes are numbered without gaps again. -/
theorem printing_keeps_the_frame (config : Config) {roots : List Occurrence}
    (hroots : ∀ o ∈ roots, o.node.isWellTyped = true)
    (hnotes : ∀ o ∈ visitsOf roots, o.node.kind = .footnoteDefinition →
      ∀ m ∈ o.node.visit, m.zone = .body)
    {c d : Context} (hc : c.ComesUp config roots) {o : Occurrence} (ho : o ∈ visitsOf roots)
    (hfree : ∀ e ∈ c.reservations, ∀ o' ∈ o.node.occurrences o.place, o'.place ≠ e.1)
    {output : Option String} (hrun : occurrence config o c = (.ok output, d)) :
    (d.ancestors = c.ancestors ∧ d.reservations = c.reservations ∧
      (∀ z, c.buffers.chunks z <+: d.buffers.chunks z) ∧ c.warnings <+: d.warnings) ∧
    (∀ key number, c.footnotes.lookup key = some number →
      d.footnotes.lookup key = some number) ∧
    (∀ p ∈ c.references.places,
      (d.references.reference p).1 = (c.references.reference p).1) ∧
    d.footnotes.map (·.2) = List.range' 1 d.footnoteCount ∧ (d.footnotes.map (·.1)).Nodup := by
  have hvisits : ∀ o ∈ visitsOf roots, o.node.isWellTyped = true := by
    intro o ho
    obtain ⟨root, hroot, ho⟩ := List.mem_flatMap.mp ho
    exact Node.isWellTyped_of_mem_occurrences (hroots root hroot) ho
  have hsteady := hc.isSteady fun o ho ↦ Node.isProper_of_isWellTyped (hroots o ho)
  have hd := hsteady.after ((Numbers.closed _).occurrence Numbers.admits config o)
  rw [hrun] at hd
  -- the definitions of the index are nodes of the trees
  have hdefinitions := fun P ↦ KeepsFrame.definitionText config
    (fun e he ↦ Node.isProper_of_isWellTyped (hvisits e.2 (hsteady.notes e he).1))
    (fun e he ↦ hnotes e.2 (hsteady.notes e he).1 (hsteady.notes e he).2)
    c.references.index.footnotes.length P
  have hframe := KeepsFrame.node config hdefinitions (hvisits o ho) o.place c d output rfl
    (fun e he ⟨o', ho', hplace⟩ ↦ hfree e he o' ho' hplace) hrun
  exact ⟨⟨hframe.ancestors, hframe.reservations, hframe.chunks, hframe.warnings⟩,
    fun _ _ ↦ hframe.number, fun _ ↦ hframe.token, hd.numbering.numbers, hd.numbering.keys⟩

/-- A heading of the appendix above a note, whose definition comes first. -/
def notedAppendix : Node :=
  ⟨⟨.unknown, 0, none, [], .document [], []⟩, [definition, appendix], [], none, none⟩
where
  definition : Node :=
    ⟨⟨.unknown, 1, none, [], .footnoteDefinition "a", []⟩, [], [], none, none⟩
  appendix : Node :=
    ⟨⟨.unknown, 2, none, [], .heading ⟨1, some .appendix, some "h", none, false, []⟩, []⟩, [paragraph],
      [], none, none⟩
  paragraph : Node := ⟨⟨.unknown, 3, none, [], .paragraph, []⟩, [note], [], none, none⟩
  note : Node :=
    ⟨⟨.unknown, 4, none, [], .footnoteReference "a", []⟩, [], [], none, none⟩

namespace notedAppendix

def root : Occurrence := ⟨.ofRoot 0, notedAppendix⟩

def heading : Occurrence := ⟨root.place.down .children 1, appendix⟩

def text : Occurrence := ⟨heading.place.down .children 0, paragraph⟩

/-- The context in which the paragraph of the note is printed, while the heading holds its slot. -/
def context : Context :=
  { Context.ofReferences (References.empty.add root.place root.node) with
    buffers := { Buffers.empty with appendix := [""] }
    reservations := [(heading.place, 0)]
    ancestors := [heading, root] }

theorem visitsOf_root : visitsOf [root] =
    [root, ⟨root.place.down .children 0, definition⟩, heading, text,
      ⟨text.place.down .children 0, note⟩] := rfl

theorem comesUp_context : context.ComesUp .default [root] := by
  have hproper : root.node.isProper = true := by decide
  obtain ⟨hadd, -⟩ := References.add?_of_isProper (r := .empty)
    (fun _ h ↦ absurd h List.not_mem_nil) hproper root.place
  have hroot : root ∈ visitsOf [root] := by rw [visitsOf_root]; simp
  have hheading : heading ∈ visitsOf [root] := by rw [visitsOf_root]; simp
  have hfresh : Context.ComesUp .default [root] .empty := .fresh
  have hindexed := hfresh.indexed (List.mem_singleton_self root) hadd
  exact .entered (.held (.entered hindexed hroot) hheading rfl) hheading

end notedAppendix

theorem notedAppendix_keeps_the_frame :
    ∃ output d, occurrence .default notedAppendix.text notedAppendix.context =
        (.ok output, d) ∧
      d.ancestors = [notedAppendix.heading, notedAppendix.root] ∧
      d.reservations = [(notedAppendix.heading.place, 0)] ∧
      d.footnotes.map (·.2) = List.range' 1 d.footnoteCount := by
  have hok : (occurrence .default notedAppendix.text notedAppendix.context).1.isOk = true := by
    decide +kernel
  rcases hrun : occurrence .default notedAppendix.text notedAppendix.context with
    ⟨_ | output, d⟩
  · rw [hrun] at hok
    cases hok
  · have hroots : ∀ o ∈ [notedAppendix.root], o.node.isWellTyped = true := by decide
    obtain ⟨⟨hancestors, hreservations, -⟩, -, -, hnumbers, -⟩ :=
      printing_keeps_the_frame .default hroots
        (by simp only [notedAppendix.visitsOf_root]; decide) notedAppendix.comesUp_context
        (by rw [notedAppendix.visitsOf_root]; simp) (by decide) hrun
    exact ⟨output, d, rfl, hancestors, hreservations, hnumbers⟩

end Typeset

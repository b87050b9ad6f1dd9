import Typeset.Proofs.Notes.Settling

/-!
# The account of a walk

Whatever is printed with notes leaves the account right: the notes that it gives stand in its text
in their order, and together with the ledger they account for all numbers that have been given.
-/

namespace Typeset

open Action Context Latex Render Text

variable {α β : Type} {config : Config} {doc : Node} {around above : List Occurrence}
  {o : Occurrence} {c d : Context} {l l' : Ledger} {us : List Use} {notes : Branch → List Note}
  {parts : Parts}

namespace Noting

/-! ## Runs with a ledger -/

theorem ok_of_bind {y : Noting α} {k : α → Noting β} {b : β}
    (h : (y >>= k) l c = (.ok (b, l'), d)) :
    ∃ a l₁ c₁, y l c = (.ok (a, l₁), c₁) ∧ k a l₁ c₁ = (.ok (b, l'), d) := by
  obtain ⟨⟨a, l₁⟩, c₁, hy, hk⟩ := Action.ok_of_bind h
  exact ⟨a, l₁, c₁, hy, hk⟩

/-- What a walk without notes does, the ledger does not see. -/
theorem ok_of_lift_bind {x : Action α} {k : α → Noting β} {b : β}
    (h : (liftM x >>= k) l c = (.ok (b, l'), d)) :
    ∃ a c₁, x c = (.ok a, c₁) ∧ k a l c₁ = (.ok (b, l'), d) := by
  obtain ⟨a, l₁, c₁, hlift, hk⟩ := Noting.ok_of_bind h
  obtain ⟨a', hx, heq⟩ := ok_of_map (f := fun a ↦ (a, l)) (x := x) hlift
  obtain ⟨rfl, rfl⟩ := Prod.mk.inj heq
  exact ⟨_, c₁, hx, hk⟩

theorem modify_bind (f : Ledger → Ledger) (k : PUnit → Noting β) (l : Ledger) (c : Context) :
    (modify f >>= k) l c = k ⟨⟩ (f l) c :=
  rfl

/-- What the action prints leaves the account right, given what stands around it in the document, and
has no notes if no reference is printed in a document that leaves them where they stand. -/
def Reckons (config : Config) (doc : Node) (around : List Occurrence) (cites : Bool)
    (text : α → String) (y : Noting (α × List Note)) : Prop :=
  ∀ above us c l, Surrounds around above → Account config doc above us c l →
    ∀ r ns l' d, y l c = (.ok ((r, ns), l'), d) →
      StandIn ns (text r) ∧ Account config doc above (us ++ ns.map Note.toUse) d l' ∧
        (doc.keepsPlace config = true → cites = false → ns = [])

end Noting

open Noting

/-! ## References -/

theorem Note.stand_cons {n : Note} {below : List Note} (hn : n.printsText = true)
    (h : StandIn below n.text) : StandIn (n :: below) n.command := by
  have hcommand : n.command.toList =
      '\\' :: ("footnote\x7b".toList ++ (strip n.text).toList ++ ['\x7d']) := by
    rw [command, if_pos hn]
    simp [footnoteText, Latex.command, braced]
  have hstrip : Carries (below.map command) (strip n.text).toList :=
    Carries.strip (areCompact_commands below) h
  exact .cons hcommand ((hstrip.append_left _).append_right _)

namespace Account

/-- A note with others in its text stands before them. -/
theorem cons {n : Note} {below : List Note}
    (h : Account config doc above (us ++ below.map Note.toUse ++ [n.toUse]) c l)
    (hnone : doc.keepsOrder config = true → below = []) :
    Account config doc above (us ++ (n :: below).map Note.toUse) c l := by
  have h : Account config doc above (us ++ (below ++ [n]).map Note.toUse) c l := by simpa using h
  have hself : Account config doc above (us ++ (n :: below).map Note.toUse) c (l.lose []) := by
    refine h.rearrange ?_ (fun hkeeps _ ↦ ?_) fun _ ↦ rfl
    · rw [List.append_nil]
      exact List.perm_append_comm
    · rw [hnone hkeeps, List.nil_append]
  rwa [Ledger.lose_nil] at hself

/-- The contents of a reference that prints something else are lost. -/
theorem lose_below {n : Note} {below : List Note}
    (h : Account config doc above (us ++ below.map Note.toUse ++ [n.toUse]) c l)
    (hnone : doc.keepsOrder config = true → below = [])
    (hwhole : doc.keepsNotes config = true → below = []) :
    Account config doc above (us ++ [n].map Note.toUse) c (l.lose below) := by
  have h : Account config doc above (us ++ (below ++ [n]).map Note.toUse) c l := by simpa using h
  refine h.rearrange List.perm_append_comm (fun hkeeps _ ↦ ?_) hwhole
  rw [hnone hkeeps, List.nil_append]

end Account

/-- A node other than a reference leaves the account right, given the notes in its parts. -/
theorem account_of_settled (h : o.Bears config doc above parts notes)
    (haccount : Account config doc above (us ++ (Branch.printOrder.flatMap notes).map Note.toUse)
      c l) (hreference : o.node.kind ≠ .footnoteReference) {output : Option String} {ns : List Note}
    (hrun : Noting.settled config o parts notes l c = (.ok ((output, ns), l'), d)) :
    StandIn ns (output.getD "") ∧ Account config doc above (us ++ ns.map Note.toUse) d l' ∧
      (doc.keepsPlace config = true → o.node.cites = false → ns = []) := by
  obtain ⟨_, _, hask, hrun⟩ := ok_of_lift_bind hrun
  cases hask
  obtain ⟨output', c₁, hprinted, hrun⟩ := ok_of_lift_bind hrun
  cases hrun
  obtain ⟨hstand, hself⟩ := account_of_settle h haccount hreference hprinted
  refine ⟨hstand, hself, fun hkeeps hcites ↦ ?_⟩
  exact settle_eq_nil (h.eq_nil_of_cites hkeeps hcites) (haccount.still hkeeps) _

/-- A heading of a zone has no notes yet when it holds its slot. -/
theorem account_of_reserveSlot (h : Account config doc above us c l)
    (hrun : Noting.reserveSlot o l c = (.ok (⟨⟩, l'), d)) : Account config doc above us d l' := by
  obtain ⟨_, c₁, hslot, hrun⟩ := ok_of_lift_bind hrun
  cases hrun
  unfold Render.reserveSlot at hslot
  split
  · next hbody =>
    rw [if_pos hbody] at hslot
    cases hslot
    exact h
  · next hzone =>
    rw [if_neg hzone, show reserve o.node.zone o.place c = _ from
      reserve_withSlots (s := c.slots) hzone] at hslot
    cases hslot
    have hmirrors : (l.reserve o.node.zone).Mirrors
        (c.withSlots (c.slots.hold o.node.zone o.place)) :=
      h.mirrors.setChunks ((h.mirrors.chunks _).append (.cons (.nil "") .nil)) fun z ↦
        Buffers.chunks_set _ _ _ z hzone
    refine h.exchange rfl rfl rfl rfl hmirrors (fun _ hp ↦ .inl hp) ?_ fun hkeeps ↦
      ⟨?_, le_rfl, fun hlost ↦ ⟨hlost, rfl⟩⟩
    · exact ((l.perm_kept_reserve _).symm.map _).append_left _
    · exact (h.still hkeeps).setChunks fun ns hns ↦
        (List.mem_append.mp hns).elim ((h.still hkeeps).chunks _ ns) List.mem_singleton.mp

section

variable {expand : Occurrence → Noting (String × List Note)}
  (hexpand : ∀ e ∈ doc.index.footnotes, ∀ around, Reckons config doc around true id (expand e.2))

include hexpand

/-- A reference to a footnote leaves the account right. -/
theorem account_of_reference {label : Option String} {contents t : String} {below ns : List Note}
    (habove : Surrounds around above)
    (h : Account config doc above (us ++ below.map Note.toUse) c l) (hbelow : StandIn below contents)
    (hnone : doc.keepsOrder config = true → below = [])
    (hwhole : doc.keepsNotes config = true → label.isSome = true → below = [])
    (hrun : Noting.reference expand o label contents below l c = (.ok ((t, ns), l'), d)) :
    StandIn ns t ∧ Account config doc above (us ++ ns.map Note.toUse) d l' := by
  cases label with
  | none =>
    obtain ⟨token, c₁, htoken, hrun⟩ := ok_of_lift_bind hrun
    obtain ⟨⟨number, isNew⟩, c₂, hnumber, hrun⟩ := ok_of_lift_bind hrun
    cases hrun
    have hsame : SameNotes c c₁ :=
      (KeepsNotes.plain doc.index).reference o.place c h.index token c₁ htoken
    have hnumbered : Account config doc above
        (us ++ below.map Note.toUse ++ [⟨.anonymous token, number, isNew⟩]) d l :=
      (h.same hsame).number hnumber
    exact ⟨Note.stand_cons rfl hbelow, hnumbered.cons hnone⟩
  | some name =>
    obtain ⟨⟨number, isNew⟩, c₁, hnumber, hrun⟩ := ok_of_lift_bind hrun
    have hnumbered : Account config doc above
        (us ++ below.map Note.toUse ++ [⟨.label name, number, isNew⟩]) c₁ l :=
      h.number hnumber
    cases isNew with
    | false =>
      cases hrun
      refine ⟨?_, hnumbered.lose_below hnone fun hkeeps ↦ hwhole hkeeps rfl⟩
      exact .of_inside (c := '\\') (by simp [Note.command, Use.printsText]; rfl) List.infix_rfl
    | true =>
      simp only [Bool.not_true, Bool.false_eq_true, if_false] at hrun
      split at hrun
      · have hlost : Account config doc above (us ++ [⟨.label name, number, true⟩]) c₁
            (l.lose below) :=
          hnumbered.lose_below (n := ⟨⟨.label name, number, true⟩, ""⟩) hnone fun hkeeps ↦
            hwhole hkeeps rfl
        rw [modify_bind] at hrun
        obtain ⟨definition, c₂, hdefinition, hrun⟩ := ok_of_lift_bind hrun
        obtain ⟨⟨text, inner⟩, l₃, c₃, htext, hrun⟩ := Noting.ok_of_bind hrun
        cases hrun
        obtain ⟨hfound, rfl⟩ := Prod.mk.inj hdefinition
        rw [hnumbered.index] at hfound
        have hmem := LinkIndex.mem_footnotes_of_footnote hfound
        obtain ⟨hstand, haccount, -⟩ := hexpand _ hmem _ _ _ _ _ habove hlost _ _ _ _ htext
        exact ⟨Note.stand_cons rfl hstand, by simpa using haccount⟩
      · cases hrun
        exact ⟨Note.stand_cons rfl hbelow, hnumbered.cons hnone⟩

/-! ## Nodes -/

/-- A node leaves the account right, given the notes in its parts. -/
theorem account_of_element (habove : Surrounds around above)
    (h : o.Bears config doc above parts notes)
    (haccount : Account config doc above (us ++ (Branch.printOrder.flatMap notes).map Note.toUse)
      c l) {output : Option String} {ns : List Note}
    (hrun : Noting.element config expand o parts notes l c = (.ok ((output, ns), l'), d)) :
    StandIn ns (output.getD "") ∧ Account config doc above (us ++ ns.map Note.toUse) d l' ∧
      (doc.keepsPlace config = true → o.node.cites = false → ns = []) := by
  cases he : o.node.element with
  | footnoteReference label =>
    have hkind : o.node.kind = .footnoteReference := by rw [Node.kind, he, Element.kind]
    simp only [Noting.element, he] at hrun
    rw [modify_bind] at hrun
    obtain ⟨⟨t, ns'⟩, l₁, c₁, hreference, hrun⟩ := Noting.ok_of_bind hrun
    cases hrun
    have hothers : doc.keepsNotes config = true → ∀ b, b ≠ .children → notes b = [] :=
      fun hkeeps b ↦ h.eq_nil_of_ne_children hkeeps (by simp [hkind]) (by simp [hkind])
        fun _ ↦ by simp [printsCaption, Node.isFigure, hkind]
    have hnone : doc.keepsOrder config = true → notes .children = [] := fun hkeeps ↦
      h.citing (Node.keepsPlace_of_keepsOrder hkeeps) _
        (Node.citesOn_of_reference hkeeps h.mem hkind)
    have hwhole : doc.keepsNotes config = true → label.isSome = true → notes .children = [] := by
      intro hkeeps hlabel
      obtain ⟨name, rfl⟩ := Option.isSome_iff_exists.mp hlabel
      exact h.citing (Node.keepsPlace_of_keepsNotes hkeeps) _
        (Node.citesOn_of_label hkeeps h.mem he)
    obtain ⟨hstand, hself⟩ := account_of_reference hexpand habove
      (account_of_contents haccount hothers) (h.stand .children) hnone hwhole hreference
    refine ⟨hstand, hself, fun _ hcites ↦ ?_⟩
    rw [Node.cites_of_kind hkind] at hcites
    cases hcites
  | _ =>
    simp only [Noting.element, he] at hrun
    exact account_of_settled h haccount (by simp [Node.kind, he, Element.kind]) hrun

/-! ## Walks -/

namespace Noting.Reckons

variable {cites : Bool} {text : α → String} {y : Noting (α × List Note)} {n : Node}
  {ns : List Node} {p : Place} {b : Branch}

omit hexpand in
theorem none (a : α) : Reckons config doc around cites text (pure (a, [])) := by
  intro above us c l _ h r ns l' d hrun
  cases hrun
  exact ⟨.nil _, by simpa using h, fun _ _ ↦ rfl⟩

omit hexpand in
theorem within (h : Reckons config doc (o :: around) cites text y)
    (ho : o ∈ doc.occurrences (.ofRoot 0)) :
    Reckons config doc around cites text (Noting.within o y) := by
  intro above us c l habove haccount r ns l' d hrun
  obtain ⟨d', hy, rfl⟩ := ok_of_within hrun
  rw [haccount.ancestors] at hy
  obtain ⟨hstand, hself, hnone⟩ := h (o :: above) us _ l (.within o habove)
    (haccount.of_above (List.forall_mem_cons.mpr ⟨ho, haccount.above⟩)) r ns l' d' hy
  rw [hself.ancestors, List.tail_cons]
  exact ⟨hstand, hself.of_above haccount.above, hnone⟩

omit hexpand in
/-- Trees in a row: each has its own notes in its own part of the text. -/
theorem all {i : Nat} (hnode : ∀ k m, ns[k]? = some m →
      Reckons config doc around m.cites (·.getD "")
        (Noting.node config expand (p.down b (i + k)) m)) :
    Reckons config doc around (ns.any Node.cites) (spaced ns)
      (Noting.all config expand p b i ns) := by
  induction ns generalizing i with
  | nil => exact .none []
  | cons m ms ih =>
    intro above us c l habove h r notes l' d hrun
    obtain ⟨⟨output, first⟩, l₁, c₁, hfirst, hrun⟩ := Noting.ok_of_bind hrun
    obtain ⟨⟨outputs, rest⟩, l₂, c₂, hrest, hrun⟩ := Noting.ok_of_bind hrun
    cases hrun
    obtain ⟨hstand, hself, hnone⟩ :=
      hnode 0 m rfl above us c l habove h output first l₁ c₁ hfirst
    have hms : Reckons config doc around (ms.any Node.cites) (spaced ms)
        (Noting.all config expand p b (i + 1) ms) := by
      refine ih fun k m hk ↦ ?_
      rw [show i + 1 + k = i + (k + 1) by omega]
      exact hnode (k + 1) m hk
    obtain ⟨hstand', hself', hnone'⟩ := hms above _ c₁ l₁ habove hself outputs rest l' d hrest
    refine ⟨?_, by simpa using hself', fun hkeeps hcites ↦ ?_⟩
    · unfold StandIn
      rw [List.map_append]
      cases output with
      | none =>
        rw [hstand.eq_nil]
        exact hstand'
      | some t =>
        rw [spaced, String.toList_append, String.toList_append]
        exact (hstand.append_right _).append hstand'
    · rw [List.any_cons, Bool.or_eq_false_iff] at hcites
      rw [hnone hkeeps hcites.1, hnone' hkeeps hcites.2, List.append_nil]

omit hexpand in
/-- What is printed on one branch. -/
theorem onBranch (ho : o ∈ doc.occurrences (.ofRoot 0))
    (hnode : ∀ b i m, (o.node.branch b)[i]? = some m →
      Reckons config doc (doc.around (o.place.down b i)) m.cites (·.getD "")
        (Noting.node config expand (o.place.down b i) m)) (b : Branch) :
    Reckons config doc (doc.around o.place) (o.node.citesOn b) (spaced (o.node.branch b))
      (Noting.onBranch config expand o b) := by
  have hall : ∀ b, Reckons config doc
      (if b = .children then o :: doc.around o.place else doc.around o.place)
      ((o.node.branch b).any Node.cites) (spaced (o.node.branch b))
      (Noting.all config expand o.place b 0 (o.node.branch b)) := by
    refine fun b ↦ .all fun k m hk ↦ ?_
    rw [Nat.zero_add, ← Node.around_down ho b k]
    exact hnode b k m hk
  cases b with
  | title => exact hall .title
  | tag => exact hall .tag
  | caption =>
    rw [Noting.onBranch]
    split
    · next hcaption => simpa [Node.citesOn, hcaption] using hall .caption
    · exact .none []
  | children => exact (hall .children).within ho

end Noting.Reckons

omit hexpand in
/-- Branches, one after the other: each has its own notes. -/
theorem account_of_onBranches {bs : List Branch} (hbs : bs.Nodup)
    (habove : Surrounds around above)
    (hon : ∀ b ∈ bs, Reckons config doc around (o.node.citesOn b) (spaced (o.node.branch b))
      (Noting.onBranch config expand o b))
    (haccount : Account config doc above us c l) {on : Branch → List (Option String) × List Note}
    (hrun : Noting.onBranches config expand o bs l c = (.ok (on, l'), d)) :
    (∀ b ∈ bs, StandIn (on b).2 (spaced (o.node.branch b) (on b).1) ∧
      (doc.keepsPlace config = true → o.node.citesOn b = false → (on b).2 = [])) ∧
    Account config doc above (us ++ (bs.flatMap fun b ↦ (on b).2).map Note.toUse) d l' := by
  induction bs generalizing us c l on with
  | nil =>
    cases hrun
    exact ⟨nofun, by simpa using haccount⟩
  | cons b bs ih =>
    obtain ⟨hb, hbs⟩ := List.nodup_cons.mp hbs
    obtain ⟨⟨outputs, first⟩, l₁, c₁, hfirst, hrun⟩ := Noting.ok_of_bind hrun
    obtain ⟨rest, l₂, c₂, hrest, hrun⟩ := Noting.ok_of_bind hrun
    cases hrun
    obtain ⟨hstand, hself, hnone⟩ :=
      hon b List.mem_cons_self above us c l habove haccount outputs first l₁ c₁ hfirst
    obtain ⟨hothers, hself⟩ := ih hbs (fun b' hb' ↦ hon b' (.tail _ hb')) hself hrest
    have hne : ∀ b' ∈ bs, b' ≠ b := fun b' hb' heq ↦ hb (heq ▸ hb')
    constructor
    · intro b' hb'
      dsimp only
      rcases List.mem_cons.mp hb' with rfl | hb'
      · rw [if_pos rfl]
        exact ⟨hstand, hnone⟩
      · rw [if_neg (hne b' hb')]
        exact hothers b' hb'
    · have hmap : (bs.flatMap fun b' ↦ (if b' = b then (outputs, first) else rest b').2) =
          bs.flatMap fun b' ↦ (rest b').2 :=
        List.flatMap_congr fun b' hb' ↦ by rw [if_neg (hne b' hb')]
      rw [List.flatMap_cons, hmap]
      simpa using hself

omit hexpand in
/-- What is printed on the branches of an occurrence becomes its parts. -/
theorem Occurrence.bears_of_onBranches (ho : o ∈ doc.occurrences (.ofRoot 0))
    (habove : Surrounds (doc.around o.place) above)
    {on : Branch → List (Option String) × List Note}
    (h : ∀ b ∈ Branch.printOrder, StandIn (on b).2 (spaced (o.node.branch b) (on b).1) ∧
      (doc.keepsPlace config = true → o.node.citesOn b = false → (on b).2 = [])) :
    o.Bears config doc above (.ofOutputs o.node fun b ↦ (on b).1) fun b ↦ (on b).2 where
  mem := ho
  stand := by
    intro b
    have hstand := (h b (Branch.mem_printOrder b)).1
    cases b with
    | children => exact hstand
    | title | tag | caption => exact Carries.strip (Note.areCompact_commands _) hstand
  childless := by
    intro hchildren
    have hstand := (h .children (Branch.mem_printOrder _)).1
    rw [Node.branch_children, hchildren] at hstand
    exact List.map_eq_nil_iff.mp hstand.eq_nil
  citing hkeeps b := (h b (Branch.mem_printOrder b)).2 hkeeps
  passing := by
    rintro hkeeps c rfl b hpass
    exact (h b (Branch.mem_printOrder b)).2 (Node.keepsPlace_of_keepsNotes hkeeps)
      (Node.citesOn_of_passes hkeeps ho habove hpass)

/-- A tree leaves the account right. -/
theorem Noting.Reckons.node {n : Node} {p : Place} (hn : ⟨p, n⟩ ∈ doc.occurrences (.ofRoot 0)) :
    Reckons config doc (doc.around p) n.cites (·.getD "") (Noting.node config expand p n) := by
  induction n using Node.induction generalizing p with
  | step n ih =>
    have hnode : ∀ b i m, (n.branch b)[i]? = some m →
        Reckons config doc (doc.around (p.down b i)) m.cites (·.getD "")
          (Noting.node config expand (p.down b i) m) := fun b i m hm ↦
      ih b m (List.mem_of_getElem? hm) (Node.mem_occurrences_of_getElem? hn hm)
    intro above us c l habove haccount output ns l' d hrun
    rw [node_eq] at hrun
    obtain ⟨⟨⟩, l₁, c₁, hslot, hrun⟩ := Noting.ok_of_bind hrun
    obtain ⟨on, l₂, c₂, hon, hrun⟩ := Noting.ok_of_bind hrun
    obtain ⟨hbears, hself⟩ := account_of_onBranches Branch.nodup_printOrder habove
      (fun b _ ↦ .onBranch hn hnode b) (account_of_reserveSlot haccount hslot) hon
    exact account_of_element hexpand habove (Occurrence.bears_of_onBranches hn habove hbears) hself
      hrun

end

/-- The text of a footnote's definition leaves the account right. -/
theorem Noting.Reckons.definitionText (hdoc : doc.isProper = true) (depth : Nat) :
    ∀ e ∈ doc.index.footnotes, ∀ around,
      Reckons config doc around true id (Noting.definitionText config depth e.2) := by
  induction depth with
  | zero =>
    intro e _ _
    exact .none ""
  | succ depth ih =>
    intro e he _ above us c l _ haccount text ns l' d hrun
    obtain ⟨hmem, -, hkind⟩ := Node.footnotes_index hdoc he
    obtain ⟨⟨outputs, notes⟩, l₁, c₁, hall, hrun⟩ := Noting.ok_of_bind hrun
    cases hrun
    have hchildren : Reckons config doc (e.2 :: doc.around e.2.place)
        (e.2.node.children.any Node.cites) (spaced e.2.node.children)
        (Noting.all config (Noting.definitionText config depth) e.2.place .children 0
          e.2.node.children) := by
      refine .all fun k m hk ↦ ?_
      have haround := Node.around_down hmem .children k
      rw [if_pos rfl] at haround
      rw [Nat.zero_add, ← haround]
      exact .node ih (Node.mem_occurrences_of_getElem? hmem hk)
    obtain ⟨hstand, hself, -⟩ :=
      hchildren above us c l (.note above hkind) haccount outputs ns l' d hall
    exact ⟨hstand, hself, nofun⟩

end Typeset

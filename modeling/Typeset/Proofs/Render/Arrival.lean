import Typeset.Document
import Typeset.Proofs.Render.Delivery

/-!
# What is shown gets into the document

The printing of a document comes to an occurrence with the index of the document and sound slots.
What comes out of the occurrence comes out of each node above it that passes it on, and out of the
document in the end.
-/

namespace Typeset

open Action Context Latex Render Text

variable {config : Config} {doc : Node} {depth : Nat} {o : Occurrence} {c d : Context}

/-- The printing of a document can come to an occurrence in the context. -/
structure Arrives (doc : Node) (o : Occurrence) (c : Context) : Prop where
  mem : o ∈ doc.occurrences (.ofRoot 0)
  above : ∀ u ∈ c.ancestors, u ∈ doc.occurrences (.ofRoot 0)
  index : c.references.index = doc.index
  sound : c.slots.IsSound doc.zoneAt

theorem arrives_ofRoot (doc : Node) : Arrives doc ⟨.ofRoot 0, doc⟩ doc.start where
  mem := Node.self_mem_occurrences _ _
  above _ hu := absurd hu List.not_mem_nil
  index := rfl
  sound :=
    ⟨List.nodup_nil, by simp [ofReferences, empty, slots], by simp [ofReferences, empty, slots]⟩

section

variable (hdoc : doc.isProper = true)

include hdoc

/-- What is printed of a document is in its scope. -/
theorem passage_of_leads {os : List Occurrence} {done : Place → Prop}
    (h : Leads doc.zoneAt doc.index os c d) (hindex : c.references.index = doc.index)
    (hos : ∀ u ∈ os, u ∈ doc.occurrences (.ofRoot 0) ∧ done u.place)
    (hdone : ∀ p, doc.isInNote p = true → done p) : Passage (doc.scope done) c d :=
  h _ rfl (Node.scope_admitsNotes hdoc hdone)
    (fun u hu ↦ Node.scope_admits (hos u hu).1 (hos u hu).2) hindex

end

namespace Arrives

variable (h : Arrives doc o c) (hdoc : doc.isProper = true)

include h

theorem mem_of_mem_printed {u : Occurrence} (hu : u ∈ o.node.printed o.place) :
    u ∈ doc.occurrences (.ofRoot 0) :=
  Node.mem_occurrences_trans h.mem (Node.mem_occurrences_of_mem_printed hu)

theorem scope_admits : ∀ u ∈ o.node.printed o.place, (doc.scope fun _ ↦ True).Admits u :=
  fun _ hu ↦ Node.scope_admits (h.mem_of_mem_printed hu) trivial

include hdoc

theorem isProper : o.node.isProper = true := Node.isProper_of_mem_occurrences hdoc h.mem

theorem passage {below : List Occurrence} (hleads : Leads doc.zoneAt doc.index below c d)
    (hbelow : ∀ u ∈ below, u ∈ o.node.printed o.place) : Passage (doc.scope fun _ ↦ True) c d :=
  passage_of_leads hdoc hleads h.index (fun u hu ↦ ⟨h.mem_of_mem_printed (hbelow u hu), trivial⟩)
    fun _ _ ↦ trivial

/-- What the printing of an occurrence comes to before the occurrence itself is printed. -/
theorem ok_of_node {output : Option String}
    (hrun : node config (definitionText config depth) o.place o.node c = (.ok output, d)) :
    ∃ outputs e, Passage (doc.scope fun _ ↦ True) c e ∧ e.ancestors = c.ancestors ∧
      e = departure config (definitionText config depth) o c ∧
        transcribeElement config (definitionText config depth) o (.ofOutputs o.node outputs) e =
          (.ok output, d) := by
  have hproper := h.isProper hdoc
  obtain ⟨outputs, c₀, e, hreserve, hslot, -, hancestors, hbranches, hself⟩ :=
    Render.ok_of_node (Node.scope_admitsNotes hdoc fun _ _ ↦ trivial) hproper h.scope_admits h.index
      hrun
  refine ⟨outputs, e, ?_, hancestors, ?_, hself⟩
  · refine h.passage hdoc (hslot.trans (.onBranches hproper hbranches)) fun u hu ↦ ?_
    rw [Node.printed_eq]
    exact List.mem_append_left _ hu
  · rw [departure, hreserve, hbranches]

section

variable {b : Branch} {i : Nat} {m : Node} {output output' : Option String}
  {before after : List Occurrence} {c' d' e : Context} {outputs : Branch → List (Option String)}
  (hrun : ChildRun config depth doc.zoneAt doc.index o.place o.node b i m c d output before after
    c' d' e output' outputs)

include hrun

/-- The printing comes to what stands one step below. -/
theorem child (hm : (o.node.branch b)[i]? = some m) : Arrives doc ⟨o.place.down b i, m⟩ c' := by
  have hpassage := h.passage hdoc hrun.before fun u hu ↦ by
    rw [hrun.printed]
    exact List.mem_append_left _ (List.mem_append_left _ hu)
  refine ⟨Node.mem_occurrences_of_getElem? h.mem hm, fun u hu ↦ ?_, hpassage.index.trans h.index,
    hpassage.sound h.sound⟩
  rw [hrun.above] at hu
  split at hu
  · rcases List.mem_cons.mp hu with rfl | hu
    · exact h.mem
    · exact h.above u hu
  · exact h.above u hu

/-- When the node around is about to be printed, everything below it has been. -/
theorem leads_of_childRun (hm : (o.node.branch b)[i]? = some m) :
    Leads doc.zoneAt doc.index (before ++ m.printed (o.place.down b i) ++ after) c e :=
  (hrun.before.trans (.node (Node.isProper_of_mem_occurrences hdoc (h.child hdoc hrun hm).mem)
    hrun.run)).trans hrun.after

end

end Arrives

/-! ## One step up -/

section

variable (hdoc : doc.isProper = true) (h : Arrives doc o c) {b : Branch} {i : Nat}
  {m : Node} {output output' : Option String} {before after : List Occurrence} {c' d' e : Context}
  {outputs : Branch → List (Option String)}
  (hrun : ChildRun config depth doc.zoneAt doc.index o.place o.node b i m c d output before after
    c' d' e output' outputs)
  (hm : (o.node.branch b)[i]? = some m) {s : String}

include hdoc h hrun hm

/-- The contexts of a run below a node, with the index of the document and sound slots. -/
theorem sound_of_childRun :
    (d'.references.index = doc.index ∧ d'.slots.IsSound doc.zoneAt) ∧
      e.references.index = doc.index ∧ e.slots.IsSound doc.zoneAt := by
  have harrives := h.child hdoc hrun hm
  have hself := harrives.passage hdoc (.node (harrives.isProper hdoc) hrun.run) fun _ hu ↦ hu
  have hall := h.passage hdoc (h.leads_of_childRun hdoc hrun hm) fun u hu ↦ by
    rw [hrun.printed, ← List.append_assoc]
    exact List.mem_append_left _ hu
  exact ⟨⟨hself.index.trans harrives.index, hself.sound harrives.sound⟩,
    hall.index.trans h.index, hall.sound h.sound⟩

/-- What is printed after a tree leaves alone what is no place of its own. -/
theorem passage_after {done : Place → Prop} (hafter : ∀ u ∈ after, done u.place)
    (hnote : ∀ p, doc.isInNote p = true → done p) : Passage (doc.scope done) d' e := by
  have hindex := (sound_of_childRun hdoc h hrun hm).1.1
  refine passage_of_leads hdoc hrun.after hindex (fun u hu ↦ ?_) hnote
  refine ⟨h.mem_of_mem_printed ?_, hafter u hu⟩
  rw [hrun.printed]
  exact List.mem_append_right _ (List.mem_append_left _ hu)

theorem passage_self : Passage (doc.scope fun _ ↦ True) e d := by
  have hnotes : (doc.scope fun _ ↦ True).AdmitsNotes doc.index :=
    Node.scope_admitsNotes hdoc fun _ _ ↦ trivial
  have hadmits : (doc.scope fun _ ↦ True).Admits o := Node.scope_admits h.mem trivial
  refine passage_of_passing ?_ (sound_of_childRun hdoc h hrun hm).2.1 hrun.transcribed
  exact (Passing.closed _ _).transcribeElement config o (.definitionText config hnotes depth)
    (Passing.admits hadmits) _

/-- A table that keeps its rows still has them when it is printed. -/
theorem mem_rowsOf_of_keepsRows (hlong : isLong config o.node = true)
    (hkeeps : o.keepsRows config doc d' e = true) {row : String} (hrow : row ∈ d'.rowsOf o.place) :
    row ∈ e.rowsOf o.place := by
  simp only [Occurrence.keepsRows, hlong, Bool.not_true, Bool.false_or, Bool.or_eq_true,
    Bool.not_eq_true', List.all_eq_true, List.contains_iff_mem] at hkeeps
  rcases hkeeps with hnote | hkeeps
  · have hafter : Passage (doc.scope (· ≠ o.place)) d' e := by
      refine passage_after hdoc h hrun hm (fun u hu ↦ ?_) fun p hp ↦ ?_
      · have hnodup := Node.nodup_printed o.node o.place
        rw [hrun.printed, ← List.append_assoc, List.map_append, List.nodup_append] at hnodup
        refine hnodup.2.2 u.place (List.mem_map_of_mem (List.mem_append_right _ hu)) o.place ?_
        exact List.mem_singleton.mpr rfl
      · rintro rfl
        rw [hnote] at hp
        cases hp
    exact hafter.rows o.place (fun hne ↦ hne rfl) row hrow
  · exact hkeeps row hrow

/-- A row that is held back comes out of its table. -/
theorem cameOut_of_held (hs : IsWhole s) (htable : o.node.kind = .table)
    (hlong : isLong config o.node = true) (hkeeps : o.keepsRows config doc d' e = true)
    (hrow : ∃ row ∈ d'.rowsOf o.place, Occurs s row) :
    CameOut config doc s c.ancestors o.place output d (o.node.zone != .body) := by
  obtain ⟨row, hrow, hoccurs⟩ := hrow
  have hrow := mem_rowsOf_of_keepsRows hdoc h hrun hm hlong hkeeps hrow
  have hself := hrun.transcribed
  cases he : o.node.element with
  | table =>
    simp only [transcribeElement, he] at hself
    rw [Node.zone_bne_body (by simp [he])]
    exact .of_map hself fun t ht ↦ occurs_of_longTable hs hlong (.inr (.inr ⟨row, hrow, hoccurs⟩)) ht
  | _ => simp [Node.kind, he, Element.kind] at htable

/-- What came out of a tree comes out of the node above, if the node passes it on. -/
theorem cameOut_of_child {routed : Bool} (hs : IsWhole s)
    (hpass : (routed || (o.passes config e b && o.keepsRows config doc d' e)) = true)
    (hcame : CameOut config doc s c'.ancestors (o.place.down b i) output' d' routed) :
    CameOut config doc s c.ancestors o.place output d (routed || o.node.zone != .body) := by
  obtain ⟨⟨hindex', hsound'⟩, hindex, hsound⟩ := sound_of_childRun hdoc h hrun hm
  cases hcame with
  | routed hrests hz hoccurs =>
    have hafter : Passage (doc.scope fun _ ↦ True) d' e :=
      passage_after hdoc h hrun hm (fun _ _ ↦ trivial) fun _ _ ↦ trivial
    have hself := passage_self hdoc h hrun hm
    exact .routed (hself.rests hsound _ _ _ (hafter.rests hsound' _ _ _ hrests)) hz hoccurs
  | @printed t hout hoccurs =>
    subst hout
    rw [Bool.false_or, Bool.and_eq_true] at hpass
    rw [Bool.false_or, ← hrun.ancestors]
    have hbranch : o.node.branch b ≠ [] := List.ne_nil_of_mem (List.mem_of_getElem? hm)
    refine cameOut_of_passes hs h.mem (h.isProper hdoc) hindex hsound hpass.1 hbranch ?_
      hrun.transcribed
    exact Parts.occurs_on_ofOutputs hs.toIsCompact (occurs_spaced hm hrun.output hoccurs)
  | held htable hkind hchild hlong hrow hoccurs =>
    rw [Bool.false_or, Bool.and_eq_true] at hpass
    obtain rfl := (Place.eq_of_isSome_childIndex? hchild).1
    rw [hrun.above, if_pos rfl] at htable
    obtain ⟨rfl, rfl⟩ := List.cons.inj htable
    exact cameOut_of_held hdoc h hrun hm hs hkind hlong hpass.2 ⟨_, hrow, hoccurs⟩

end

/-! ## Into a footnote -/

/-- The definition that a label of a document finds is one of its occurrences. -/
theorem find?_of_footnote (hdoc : doc.isProper = true) {label : String} {origin : Option Origin}
    {definition : Occurrence} (h : doc.index.footnote (.str label) origin = .ok definition) :
    ((doc.occurrences (.ofRoot 0)).find? fun d ↦ d.node.definesFootnote label) =
      some definition := by
  have hfind : doc.index.footnotes.lookup (.str label) =
      none.or ((doc.occurrences (.ofRoot 0)).find? fun d ↦ d.node.definesFootnote label) :=
    (LinkIndex.finds_footnotes label).add .empty hdoc (.ofRoot 0)
  have hlookup : doc.index.footnotes.lookup (.str label) = some definition :=
    LinkIndex.lookup_of_footnote h
  rwa [hlookup, Option.none_or, eq_comm] at hfind

/-- What becomes of a tree in the definition of a footnote when the definition is printed: the
context in which its printing begins, its run, and what is printed after it. -/
structure NoteRun (config : Config) (doc : Node) (depth : Nat) (definition : Occurrence) (i : Nat)
    (m : Node) (c c' d' d : Context) (output : Option String) : Prop where
  arrival : c' = arrivalInNote config (definitionText config depth) definition i c
  arrives : Arrives doc ⟨definition.place.down .children i, m⟩ c'
  above : c'.ancestors = c.ancestors
  run : node config (definitionText config depth) (definition.place.down .children i) m c' =
    (.ok output, d')
  self : Passage (doc.scope fun _ ↦ True) c' d'
  after : Passage (doc.scope fun _ ↦ True) d' d

section

variable (hdoc : doc.isProper = true) {definition : Occurrence}
  (hmem : definition ∈ doc.occurrences (.ofRoot 0)) {text : String}
  (hrun : definitionText config (depth + 1) definition c = (.ok text, d))
  (habove : ∀ u ∈ c.ancestors, u ∈ doc.occurrences (.ofRoot 0))
  (hindex : c.references.index = doc.index) (hsound : c.slots.IsSound doc.zoneAt)

include hdoc hmem hrun habove hindex hsound

/-- The trees in the definition of a footnote are printed with the definition. -/
theorem exists_runs_of_definitionText :
    ∃ outputs, text = spaced definition.node.children outputs ∧
      ∀ i m, definition.node.children[i]? = some m → ∃ c' d' output,
        NoteRun config doc depth definition i m c c' d' d output ∧
          outputs[i]? = some output := by
  have hproper := Node.isProper_of_mem_occurrences hdoc hmem
  have hbelow := ((Node.isProper_iff definition.node).mp hproper).2 .children
  have hnotes : (doc.scope fun _ ↦ True).AdmitsNotes doc.index :=
    Node.scope_admitsNotes hdoc fun _ _ ↦ trivial
  have hadmits : ∀ u ∈ Node.printedIn definition.place .children 0 definition.node.children,
      (doc.scope fun _ ↦ True).Admits u := by
    intro u hu
    have hu : u ∈ definition.node.occurrences definition.place :=
      Node.mem_occurrences_of_mem_printed (Node.mem_printed_iff.mpr (.inr ⟨.children, hu⟩))
    exact Node.scope_admits (Node.mem_occurrences_trans hmem hu) trivial
  rw [definitionText_succ hproper] at hrun
  obtain ⟨outputs, d₀, hall, hrun⟩ := ok_of_bind hrun
  cases hrun
  refine ⟨outputs, rfl, fun i m hm ↦ ?_⟩
  obtain ⟨first, c', output, d', last, hfirst, hnode, hlast, houtput⟩ := ok_of_all hbelow hm hall
  rw [Node.printedIn_eq_of_getElem? hm] at hadmits
  rw [Nat.zero_add] at hnode hlast hadmits
  have hbefore : Passing (doc.scope fun _ ↦ True) doc.index
      (all config (definitionText config depth) definition.place .children 0
        (definition.node.children.take i)) :=
    .all config hnotes (fun k hk ↦ hbelow k (List.mem_of_mem_take hk))
      (fun u hu ↦ hadmits u (List.mem_append_left _ (List.mem_append_left _ hu))) depth
  have hself : Passing (doc.scope fun _ ↦ True) doc.index
      (node config (definitionText config depth) (definition.place.down .children i) m) :=
    .node config hnotes (hbelow m (List.mem_of_getElem? hm))
      (fun u hu ↦ hadmits u (List.mem_append_left _ (List.mem_append_right _ hu))) depth
  have hafter : Passing (doc.scope fun _ ↦ True) doc.index
      (all config (definitionText config depth) definition.place .children (i + 1)
        (definition.node.children.drop (i + 1))) :=
    .all config hnotes (fun k hk ↦ hbelow k (List.mem_of_mem_drop hk))
      (fun u hu ↦ hadmits u (List.mem_append_right _ hu)) depth
  have hc' := passage_of_passing hbefore hindex hfirst
  have hd' := passage_of_passing hself (hc'.index.trans hindex) hnode
  have hd := passage_of_passing hafter (hd'.index.trans (hc'.index.trans hindex)) hlast
  have hancestors := ancestors_of_passing hbefore hindex hfirst
  have harrives : Arrives doc ⟨definition.place.down .children i, m⟩ c' :=
    ⟨Node.mem_occurrences_of_getElem? (b := .children) hmem hm, hancestors ▸ habove,
      hc'.index.trans hindex, hc'.sound hsound⟩
  refine ⟨c', d', output, ?_, houtput⟩
  exact
    { arrival := (congrArg Prod.snd hfirst).symm
      arrives := harrives
      above := hancestors
      run := hnode
      self := hd'
      after := hd }

/-- A tree in the definition of a footnote is printed with the definition. -/
theorem exists_run_of_definitionText {i : Nat} {m : Node}
    (hm : definition.node.children[i]? = some m) :
    ∃ c' d' output, NoteRun config doc depth definition i m c c' d' d output ∧
      ∀ s t, output = some t → Occurs s t → Occurs s text := by
  obtain ⟨outputs, rfl, hruns⟩ :=
    exists_runs_of_definitionText hdoc hmem hrun habove hindex hsound
  obtain ⟨c', d', output, hnote, houtput⟩ := hruns i m hm
  refine ⟨c', d', output, hnote, fun s t ht h ↦ ?_⟩
  subst ht
  exact occurs_spaced hm houtput h

end

theorem kind_of_definesFootnote {label : String} {n : Node} (h : n.definesFootnote label = true) :
    n.kind = .footnoteDefinition := by
  unfold Node.definesFootnote at h
  split at h
  · next l he => rw [Node.kind, he, Element.kind]
  · cases h

/-- Where a footnote without a text of its own is used first, the trees in its definition are
printed. -/
theorem exists_run_of_footnote (hdoc : doc.isProper = true) (h : Arrives doc o c)
    {number : Nat} {label : String} {definition : Occurrence} {e : Context}
    (helement : o.node.element = .footnoteReference (some label)) (hempty : o.node.children = [])
    (hnext : nextFootnote (.str label) (departure config (definitionText config (depth + 1)) o c) =
      (.ok (number, true), e))
    (hfound : doc.index.footnote (.str label) (some o.node.origin) = .ok definition) {i : Nat}
    {m : Node} (hm : definition.node.children[i]? = some m) {output : Option String}
    (hrun : node config (definitionText config (depth + 1)) o.place o.node c = (.ok output, d)) :
    ∃ c' d' output', NoteRun config doc depth definition i m e c' d' d output' ∧
      e.ancestors = c.ancestors ∧ ∃ text, output = some (footnoteText text) ∧
        ∀ s t, output' = some t → Occurs s t → Occurs s text := by
  have hproper := h.isProper hdoc
  obtain ⟨outputs, e₀, hpassage, hancestors, heq, hself⟩ := h.ok_of_node hdoc hrun
  rw [← heq] at hnext
  simp only [transcribeElement, helement] at hself
  obtain ⟨t, hnote, rfl⟩ := ok_of_map hself
  obtain ⟨found, text, hfound', hexpand, rfl⟩ :=
    ok_of_footnoteReference hproper hempty hnext hnote
  obtain rfl := eq_of_nextFootnote hnext
  rw [hpassage.index.trans h.index, hfound] at hfound'
  obtain rfl := Except.ok.inj hfound'
  have hmem := List.mem_of_find?_eq_some (find?_of_footnote hdoc hfound)
  obtain ⟨c', d', output', hrun', hout⟩ :=
    exists_run_of_definitionText hdoc hmem hexpand (hancestors ▸ h.above)
      (hpassage.index.trans h.index) (hpassage.sound h.sound) hm
  exact ⟨c', d', output', hrun', hancestors, text, rfl, hout⟩

/-! ## The way of a label -/

section

variable (hdoc : doc.isProper = true) {target : Occurrence} {r : References}
  (hlabel : target.node.printsLabel = true)
  (hkey : target.node.forcesLabel = true ∨ target.node.explicitKey.isSome = true)
  (hne : r.labelText target ≠ "")

include hdoc hlabel hkey hne

theorem cameOut_self {output : Option String} (harrives : Arrives doc target c)
    (hrun : node config (definitionText config depth) target.place target.node c = (.ok output, d))
    (hd : d.references.places <+: r.places) :
    CameOut config doc (target.definition config r) c.ancestors target.place output d
      (target.node.zone != .body) := by
  obtain ⟨outputs, e, hpassage, hancestors, -, hself⟩ := harrives.ok_of_node hdoc hrun
  rw [← hancestors]
  exact cameOut_of_printsLabel harrives.mem (hpassage.index.trans harrives.index)
    (hpassage.sound harrives.sound) hlabel hkey hne hd hself

/-- Where the target is shown, the definition of its label comes out. -/
theorem cameOut_of_isShown {routed : Bool} (h : target.IsShown config doc depth o c routed)
    {output : Option String} (harrives : Arrives doc o c)
    (hrun : node config (definitionText config depth) o.place o.node c = (.ok output, d))
    (hd : d.references.places <+: r.places) :
    CameOut config doc (target.definition config r) c.ancestors o.place output d routed := by
  have hwhole := Occurrence.isWhole_definition config r target
  induction h generalizing d output with
  | self => exact cameOut_self hdoc hlabel hkey hne harrives hrun hd
  | @child depth o c b i m routed hm hvisit _ hpass ih =>
    obtain ⟨before, after, c', d', e, output', outputs, hchild⟩ := exists_childRun
      (Node.scope_admitsNotes hdoc fun _ _ ↦ trivial) (harrives.isProper hdoc)
      harrives.scope_admits harrives.index hrun hvisit hm
    have hafter : Passage (doc.scope fun _ ↦ True) d' e :=
      passage_after hdoc harrives hchild hm (fun _ _ ↦ trivial) fun _ _ ↦ trivial
    have hself := passage_self hdoc harrives hchild hm
    rw [← hchild.arrival] at ih hpass
    rw [← hchild.departure, hchild.run] at hpass
    have hcame := ih (harrives.child hdoc hchild hm) hchild.run
      ((hafter.places.trans hself.places).trans hd)
    exact cameOut_of_child hdoc harrives hchild hm hwhole hpass hcame
  | @note depth number o definition c e label i m routed helement hempty hnext hfound hm _ ih =>
    obtain ⟨c', d', output', hnote, habove, text, rfl, hout⟩ :=
      exists_run_of_footnote hdoc harrives helement hempty hnext hfound hm hrun
    have habove := hnote.above.trans habove
    rw [← hnote.arrival] at ih
    have hcame := ih hnote.arrives hnote.run (hnote.after.places.trans hd)
    cases hcame with
    | routed hrests hz hoccurs =>
      have hsound := hnote.self.sound hnote.arrives.sound
      exact .routed (hnote.after.rests hsound _ _ _ hrests) hz hoccurs
    | printed ht hoccurs =>
      exact .printed rfl (occurs_footnoteText hwhole.toIsCompact (hout _ _ ht hoccurs))
    | @held table rest row htable hkind hchild hlong hrow hoccurs =>
      -- The definition stands in no table, for it is none itself.
      have hmem : table ∈ c.ancestors := by
        rw [← habove, htable]
        exact List.mem_cons_self
      have hfind := find?_of_footnote hdoc hfound
      have hdefinition := Node.at?_of_mem_occurrences rfl (List.mem_of_find?_eq_some hfind)
      rw [(Place.eq_of_isSome_childIndex? hchild).2,
        Node.at?_of_mem_occurrences rfl (harrives.above table hmem)] at hdefinition
      have hdefines := kind_of_definesFootnote (by simpa using List.find?_some hfind)
      rw [← Option.some.inj hdefinition, hkind] at hdefines
      cases hdefines

end

/-! ## What a printing comes to

The printing of a document comes to the document itself and from a node to what is printed below
it. Where a footnote is used first, it goes on to what stands below the definition. Each time the
context is the one that the actions before have left.
-/

/-- The printing of a document comes to an occurrence in a context, where no more than some number
of footnotes can follow inside each other. -/
inductive Reaches (config : Config) (doc : Node) : Nat → Occurrence → Context → Prop
  | root :
    Reaches config doc doc.index.footnotes.length ⟨.ofRoot 0, doc⟩ doc.start
  | child {depth : Nat} {o : Occurrence} {c : Context} {b : Branch} {i : Nat} {m : Node} :
    Reaches config doc depth o c → (o.node.branch b)[i]? = some m →
      (b = .caption → printsCaption o.node = true) →
        Reaches config doc depth ⟨o.place.down b i, m⟩
          (arrival config (definitionText config depth) o b i c)
  | note {depth number : Nat} {o definition : Occurrence} {c e : Context} {label : String}
      {i : Nat} {m : Node} :
    Reaches config doc (depth + 1) o c → o.node.element = .footnoteReference (some label) →
      o.node.children = [] →
        nextFootnote (.str label) (departure config (definitionText config (depth + 1)) o c) =
            (.ok (number, true), e) →
          doc.index.footnote (.str label) (some o.node.origin) = .ok definition →
            definition.node.children[i]? = some m →
              Reaches config doc depth ⟨definition.place.down .children i, m⟩
                (arrivalInNote config (definitionText config depth) definition i e)

namespace Reaches

variable (hdoc : doc.isProper = true) {body : Option String} {depth : Nat} {o : Occurrence}
  {c r : Context}
  (hrun : occurrence config ⟨.ofRoot 0, doc⟩ doc.start = (.ok body, r))

include hdoc hrun

/-- What a printing comes to is printed from there, and the references that are given on the way
stay. -/
theorem exists_run (h : Reaches config doc depth o c) :
    Arrives doc o c ∧ ∃ output d,
      node config (definitionText config depth) o.place o.node c = (.ok output, d) ∧
        d.references.places <+: r.references.places := by
  induction h with
  | root => exact ⟨arrives_ofRoot doc, body, r, hrun, List.prefix_rfl⟩
  | @child depth o c b i m _ hm hvisit ih =>
    obtain ⟨harrives, output, d, hnode, hplaces⟩ := ih
    obtain ⟨before, after, c', d', e, output', outputs, hchild⟩ := exists_childRun
      (Node.scope_admitsNotes hdoc fun _ _ ↦ trivial) (harrives.isProper hdoc)
      harrives.scope_admits harrives.index hnode hvisit hm
    have hafter : Passage (doc.scope fun _ ↦ True) d' e :=
      passage_after hdoc harrives hchild hm (fun _ _ ↦ trivial) fun _ _ ↦ trivial
    have hself := passage_self hdoc harrives hchild hm
    rw [← hchild.arrival]
    exact ⟨harrives.child hdoc hchild hm, output', d', hchild.run,
      (hafter.places.trans hself.places).trans hplaces⟩
  | note _ helement hempty hnext hfound hm ih =>
    obtain ⟨harrives, output, d, hnode, hplaces⟩ := ih
    obtain ⟨c', d', output', hnote, -⟩ :=
      exists_run_of_footnote hdoc harrives helement hempty hnext hfound hm hnode
    rw [← hnote.arrival]
    exact ⟨hnote.arrives, output', d', hnote.run, hnote.after.places.trans hplaces⟩

end Reaches

end Typeset

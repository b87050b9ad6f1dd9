import Typeset.Proofs.Notes.Stage
import Typeset.Proofs.Notes.Tally

/-!
# Printing ends

Footnotes may refer to one another, so the printing of a definition may come to the definition
again. It does not print it again: a definition is printed only for a label that has just got its
number, and a label keeps its number. So there are never more definitions to print than footnotes
without a number, whatever refers to what.
-/

namespace Typeset

open Action Context Render

variable {α β : Type} {c c' d : Context}

/-! ## Actions -/

/-- The action keeps what has been numbered in a document, even if it fails. -/
def Action.KeepsNumbers (ix : LinkIndex) (x : Action α) : Prop :=
  ∀ c : Context, c.references.index = ix → c.Keeps (x c).2

namespace Action.KeepsNumbers

variable (ix : LinkIndex)

theorem of_eq {x : Action α} (h : ∀ c, (x c).2.references.index = c.references.index ∧
    (x c).2.footnotes = c.footnotes) : KeepsNumbers ix x := fun c _ ↦ .of_eq (h c).1 (h c).2

theorem bindOfResult {x : Action α} {k : α → Action β} (hx : KeepsNumbers ix x)
    (hk : ∀ c a, c.references.index = ix → (x c).1 = .ok a → KeepsNumbers ix (k a)) :
    KeepsNumbers ix (x >>= k) := by
  intro c hc
  have hkeeps := hx c hc
  have hk := hk c
  rw [bind_apply]
  cases h : x c with
  | mk r c' =>
    rw [h] at hkeeps hk
    cases r with
    | error e => exact hkeeps
    | ok a => exact hkeeps.trans (hk a hc rfl c' (hkeeps.index.trans hc))

theorem plain : Plain ix fun _ x ↦ KeepsNumbers ix x where
  read _ := of_eq ix fun _ ↦ ⟨rfl, rfl⟩
  bindOfResult := bindOfResult ix
  warn _ := of_eq ix fun _ ↦ ⟨rfl, rfl⟩
  nameOfLanguage config language := by
    refine of_eq ix fun c ↦ ?_
    obtain ⟨name, languages, hname⟩ := exists_nameOfLanguage_eq config language c
    rw [hname]
    exact ⟨rfl, rfl⟩
  reference p := of_eq ix fun c ↦ ⟨References.index_reference c.references p, rfl⟩
  labelWith force o := by
    refine of_eq ix fun c ↦ ?_
    cases hfault : o.node.labelFault? with
    | some e =>
      rw [labelWith_of_fault hfault]
      exact ⟨rfl, rfl⟩
    | none =>
      rw [labelWith_of_sound hfault]
      exact ⟨References.index_label c.references o force, rfl⟩

theorem nextFootnote (label : Datum) : KeepsNumbers ix (nextFootnote label) := by
  intro c _
  unfold Context.nextFootnote
  split
  · exact .refl c
  · exact ⟨rfl, List.prefix_append _ _⟩

theorem pop : KeepsNumbers ix pop := by
  refine of_eq ix fun c ↦ ?_
  unfold Context.pop
  split <;> exact ⟨rfl, rfl⟩

/-- Keeping numbers is closed under what printing is made of. -/
theorem closed : Closed ix fun _ x ↦ KeepsNumbers ix x where
  toPlain := plain ix
  within _ _ hx := by
    refine (plain ix).bind (of_eq ix fun _ ↦ ⟨rfl, rfl⟩) fun _ ↦ (plain ix).bind hx fun a ↦ ?_
    exact (plain ix).bind (pop ix) fun _ ↦ (plain ix).pure a
  hold _ _ := of_eq ix fun _ ↦ ⟨rfl, rfl⟩
  nextFootnote := nextFootnote ix

theorem reserve (z : Zone) (p : Place) : KeepsNumbers ix (reserve z p) := by
  refine of_eq ix fun c ↦ ?_
  unfold Context.reserve
  split <;> exact ⟨rfl, rfl⟩

theorem route (z : Zone) (t : String) (p : Option Place) : KeepsNumbers ix (route z t p) := by
  refine of_eq ix fun c ↦ ?_
  unfold Context.route
  split
  · exact ⟨rfl, rfl⟩
  · split
    · exact ⟨rfl, rfl⟩
    · dsimp only
      split <;> exact ⟨rfl, rfl⟩

theorem enter (o : Occurrence) : KeepsNumbers ix (enter o) := by
  refine (plain ix).bind ((plain ix).check _) fun _ ↦ ?_
  split
  · exact (plain ix).pure ()
  · exact reserve ix _ _

theorem checkOutputs (ns : List Node) (outputs : List (Option String)) :
    KeepsNumbers ix (checkOutputs ns outputs) :=
  (plain ix).bind ((plain ix).ask fun _ _ ↦ rfl) fun _ ↦ (plain ix).check _

/-- What a node other than a reference to a footnote prints of its parts. -/
theorem transcribeElement (config : Config) {o : Occurrence}
    (ho : ∀ label, o.node.element ≠ .footnoteReference label)
    (expand : Occurrence → Action String) (parts : Parts) :
    KeepsNumbers ix (transcribeElement config expand o parts) :=
  (plain ix).transcribeElement config o parts (fun _ t ↦ route ix _ t _)
    (fun _ _ ↦ of_eq ix fun _ ↦ ⟨rfl, rfl⟩) (fun _ ↦ (closed ix).tableRow config o _)
    fun label he ↦ absurd he (ho label)

end Action.KeepsNumbers

/-! ## Walks -/

/-- However the walk goes on from there, what has been numbered stays so, and it waits only for the
definitions of footnotes that have got their numbers since. -/
inductive Stage.IsOrderly : Context → Stage α → Prop
  | ended {c d : Context} {r : Except Failure α} : c.Keeps d → IsOrderly c (.ended r d)
  | waiting {c d : Context} {label : Datum} {definition : Occurrence}
    {resume : String → Context → Stage α} : c.Keeps d → c.footnotes.lookup label.key = none →
      (d.footnotes.lookup label.key).isSome = true →
        (label.key, definition) ∈ d.references.index.footnotes →
          (∀ t d', d.Keeps d' → IsOrderly d' (resume t d')) →
            IsOrderly c (.waiting label definition d resume)

namespace Stage.IsOrderly

theorem mono {s : Stage α} (hc : c.Keeps c') (h : IsOrderly c' s) : IsOrderly c s := by
  cases h with
  | ended hd => exact .ended (hc.trans hd)
  | waiting hd hnew hnumbered hmem hresume =>
    exact .waiting (hc.trans hd) (hc.lookup_eq_none hnew) hnumbered hmem hresume

theorem bind {s : Stage α} {k : α → Context → Stage β} (h : IsOrderly c s)
    (hk : ∀ a d, c.Keeps d → IsOrderly d (k a d)) : IsOrderly c (s.bind k) := by
  induction h with
  | ended hd =>
    next r =>
    cases r with
    | error e => exact .ended hd
    | ok a => exact (hk a _ hd).mono hd
  | waiting hd hnew hnumbered hmem _ ih =>
    refine .waiting hd hnew hnumbered hmem fun t d' hd' ↦ ih t d' hd' fun a e he ↦ ?_
    exact hk a e ((hd.trans hd').trans he)

end Stage.IsOrderly

/-- From any context on, the walk is orderly. -/
def Staged.IsOrderly (x : Staged α) : Prop := ∀ c, (x c).IsOrderly c

namespace Staged.IsOrderly

theorem pure (a : α) : IsOrderly (Pure.pure a : Staged α) := fun c ↦ .ended (.refl c)

theorem bind {x : Staged α} {k : α → Staged β} (hx : IsOrderly x) (hk : ∀ a, IsOrderly (k a)) :
    IsOrderly (x >>= k) := fun c ↦ (hx c).bind fun a d _ ↦ hk a d

theorem lift {x : Action α} (h : ∀ ix, KeepsNumbers ix x) : IsOrderly (liftM x : Staged α) :=
  fun c ↦ .ended (h _ c rfl)

theorem check (fault : Option Failure) : IsOrderly (liftM (Action.check fault) : Staged Unit) :=
  lift fun ix ↦ (KeepsNumbers.plain ix).check fault

/-- A definition is waited for only where the label is used first, which numbers it. -/
theorem footnoteReference (o : Occurrence) (label : Option String) (contents : String) :
    IsOrderly (footnoteReference o label contents) := by
  unfold Staged.footnoteReference
  cases (o.node.loose? "label").or (label.map .str) with
  | none =>
    refine (lift fun ix ↦ (KeepsNumbers.plain ix).reference _).bind fun _ ↦ ?_
    exact (lift fun ix ↦ KeepsNumbers.nextFootnote ix _).bind fun _ ↦ pure _
  | some label =>
    refine (check _).bind fun _ c ↦ ?_
    cases hlookup : c.footnotes.lookup label.key with
    | some number =>
      have hnext : nextFootnote label c = (.ok (number, false), c) := by
        rw [nextFootnote, hlookup]
      rw [bind_apply, liftM_apply, hnext]
      exact .ended (.refl c)
    | none =>
      let c' : Context := { c with
        footnotes := c.footnotes ++ [(label.key, c.footnoteCount + 1)]
        footnoteCount := c.footnoteCount + 1 }
      have hnext : nextFootnote label c = (.ok (c.footnoteCount + 1, true), c') := by
        rw [nextFootnote, hlookup]
      have hkeeps : c.Keeps c' := ⟨rfl, List.prefix_append _ _⟩
      have hnumbered : (c'.footnotes.lookup label.key).isSome = true := by
        simp [c', Assoc.lookup_append]
      rw [bind_apply, liftM_apply, hnext]
      show Stage.IsOrderly c ((if o.node.children.isEmpty then _ else _ : Staged String) c')
      split
      · rw [bind_apply, liftM_apply]
        cases hdefinition : c.references.index.footnote label (some o.node.origin) with
        | error e =>
          rw [definitionOf, hdefinition]
          exact .ended hkeeps
        | ok definition =>
          rw [definitionOf, hdefinition]
          exact .waiting hkeeps hlookup hnumbered (LinkIndex.mem_footnotes_of_footnote hdefinition)
            fun t d' hd' ↦ .ended (.refl d')
      · exact .ended hkeeps

/-! ## Trees -/

variable (config : Config)

theorem transcribe (o : Occurrence) (parts : Parts) : IsOrderly (transcribe config o parts) := by
  refine (lift fun ix ↦ (KeepsNumbers.plain ix).ask fun _ _ ↦ rfl).bind fun inMath ↦ ?_
  refine (check _).bind fun _ ↦ ?_
  split
  · exact pure _
  · exact pure _
  · unfold Staged.transcribeElement
    split
    · exact (footnoteReference o _ _).bind fun _ ↦ pure _
    · next hne => exact lift fun ix ↦ KeepsNumbers.transcribeElement ix config hne _ parts

theorem all {ns : List Node} (h : ∀ n ∈ ns, ∀ p, IsOrderly (node config p n)) (p : Place)
    (b : Branch) (i : Nat) : IsOrderly (all config p b i ns) := by
  induction ns generalizing i with
  | nil => exact pure []
  | cons n ns ih =>
    refine (h n List.mem_cons_self _).bind fun _ ↦ (check _).bind fun _ ↦ ?_
    exact (ih (fun m hm ↦ h m (.tail _ hm)) (i + 1)).bind fun _ ↦ pure _

theorem checkOutputs (ns : List Node) (outputs : List (Option String)) :
    IsOrderly (liftM (Render.checkOutputs ns outputs) : Staged Unit) :=
  lift fun ix ↦ KeepsNumbers.checkOutputs ix ns outputs

theorem node (p : Place) (n : Node) : IsOrderly (node config p n) := by
  induction n using Node.induction generalizing p with
  | step n ih =>
    have hall : ∀ b, IsOrderly (Staged.all config p b 0 (n.branch b)) :=
      fun b ↦ all config (fun m hm q ↦ ih b m hm q) p b 0
    rw [node_eq]
    refine (lift fun ix ↦ KeepsNumbers.enter ix _).bind fun _ ↦ (check _).bind fun _ ↦ ?_
    refine (hall .title).bind fun _ ↦ (checkOutputs _ _).bind fun _ ↦ (check _).bind fun _ ↦ ?_
    refine (hall .tag).bind fun _ ↦ (checkOutputs _ _).bind fun _ ↦ (check _).bind fun _ ↦ ?_
    have hcaption : IsOrderly (if printsCaption n then
        Staged.all config p .caption 0 (n.caption.getD []) else Pure.pure []) := by
      split
      · exact hall .caption
      · exact pure []
    refine hcaption.bind fun _ ↦ (checkOutputs _ _).bind fun _ ↦ ?_
    refine (lift fun ix ↦ KeepsNumbers.of_eq ix fun _ ↦ ⟨rfl, rfl⟩).bind fun _ ↦ ?_
    refine (check _).bind fun _ ↦ (hall .children).bind fun _ ↦ (checkOutputs _ _).bind fun _ ↦ ?_
    exact (lift fun ix ↦ KeepsNumbers.pop ix).bind fun _ ↦ transcribe config _ _

theorem definitionText (d : Occurrence) : IsOrderly (definitionText config d) := by
  refine (check _).bind fun _ ↦ ?_
  refine (all config (fun n _ p ↦ node config p n) _ _ _).bind fun _ ↦ ?_
  exact (checkOutputs _ _).bind fun _ ↦ pure _

end Staged.IsOrderly

/-! ## Definitions printed one after the other -/

namespace Stage

/-- A walk goes on from one stage to another by printing one definition after the other, each where
its text is waited for; these are their labels. Nothing bounds how many there are, or how many are
printed inside each other. -/
inductive GoesOn (config : Config) : Stage α → List Datum → Stage α → Prop
  | stay (s : Stage α) : GoesOn config s [] s
  | expand {label : Datum} {definition : Occurrence} {c : Context}
    {resume : String → Context → Stage α} {labels : List Datum} {s : Stage α} :
      GoesOn config ((Staged.definitionText config definition c).bind resume) labels s →
        GoesOn config (.waiting label definition c resume) (label :: labels) s

/-- From an orderly stage on, a walk ends after no more definitions than footnotes have no number,
and each of the labels is used once and has not been used before. What it ends with is what comes of
printing the definitions on the way, as many inside each other as there are footnotes without a
number. -/
theorem IsOrderly.exists_goesOn (config : Config) {s : Stage α} (h : s.IsOrderly c) :
    ∃ labels r d, GoesOn config s labels (.ended r d) ∧ (labels.map Datum.key).Nodup ∧
      (∀ label ∈ labels, c.footnotes.lookup label.key = none) ∧ labels.length ≤ c.unusedNotes ∧
        ∀ depth ≥ c.unusedNotes, s.run (definitionText config depth) = (r, d) := by
  induction hnotes : c.unusedNotes using Nat.strong_induction_on generalizing α s c with
  | _ notes ih =>
    subst hnotes
    cases h with
    | ended _ => exact ⟨[], _, _, .stay _, List.nodup_nil, by simp, Nat.zero_le _, fun _ _ ↦ rfl⟩
    | @waiting _ e label definition resume hkeeps hnew hnumbered hmem hresume =>
      have hlt : e.unusedNotes < c.unusedNotes :=
        hkeeps.unusedNotes_lt (hkeeps.index ▸ hmem) hnew hnumbered
      have htext := Staged.IsOrderly.definitionText config definition e
      obtain ⟨-, rt, dt, -, -, -, -, hruntext⟩ := ih _ hlt htext rfl
      obtain ⟨labels, r, d, hgoes, hnodup, hfresh, hlength, hrun⟩ :=
        ih _ hlt (htext.bind hresume) rfl
      refine ⟨label :: labels, r, d, .expand hgoes, ?_, ?_, ?_, fun depth hdepth ↦ ?_⟩
      · rw [List.map_cons, List.nodup_cons]
        refine ⟨fun hused ↦ ?_, hnodup⟩
        obtain ⟨label', hlabel', hkey⟩ := List.mem_map.mp hused
        rw [← hkey, hfresh label' hlabel'] at hnumbered
        cases hnumbered
      · exact List.forall_mem_cons.mpr ⟨hnew, fun l hl ↦ hkeeps.lookup_eq_none (hfresh l hl)⟩
      · rw [List.length_cons]
        omega
      · -- one definition is inside of this depth already, and the rest is deep enough without it
        obtain ⟨depth, rfl⟩ : ∃ k, depth = k + 1 := ⟨depth - 1, by omega⟩
        rw [← hrun (depth + 1) (by omega), run_bind, hruntext (depth + 1) (by omega), run,
          ← Staged.run_definitionText config depth definition, Staged.run,
          hruntext depth (by omega)]
        cases rt <;> rfl

end Stage

/-- Whatever is printed in whatever context, the walk ends, with an output or a failure. On the way
it prints the definitions of some labels where they are referred to: no more than there are
definitions, each label once, and none that had a number before. The walk does nothing else than to
print the tree with texts of definitions put in as they are needed, and what it ends with is what is
printed of the occurrence. -/
theorem walks_end (config : Config) (o : Occurrence) (c : Context) :
    ∃ labels r d,
      (Staged.node config o.place o.node c).GoesOn config labels (.ended r d) ∧
        (labels.map Datum.key).Nodup ∧
          (∀ label ∈ labels, c.footnotes.lookup label.key = none) ∧
            labels.length ≤ c.references.index.footnotes.length ∧
              (∀ expand, (Staged.node config o.place o.node c).run expand =
                Render.node config expand o.place o.node c) ∧
                Render.occurrence config o c = (r, d) := by
  obtain ⟨labels, r, d, hgoes, hnodup, hfresh, hlength, hrun⟩ :=
    (Staged.IsOrderly.node config o.place o.node c).exists_goesOn config
  have hunused : c.unusedNotes ≤ c.references.index.footnotes.length := List.countP_le_length
  have hsame : ∀ expand, (Staged.node config o.place o.node c).run expand =
      Render.node config expand o.place o.node c :=
    fun expand ↦ congrFun (Staged.run_node expand config o.place o.node) c
  refine ⟨labels, r, d, hgoes, hnodup, hfresh, Nat.le_trans hlength hunused, hsame, ?_⟩
  rw [← hrun c.references.index.footnotes.length hunused, hsame]
  rfl

end Typeset

import Typeset.Proofs.Notes.Walk

/-!
# The ledger changes nothing

A walk with notes prints what the walk without notes prints, whatever the ledger is, and leaves the
same context behind.
-/

namespace Typeset

open Action Context Render

variable {α β γ δ : Type} {S : Scope} {ix : LinkIndex}

/-- Without its ledger, the one action is the other one. -/
structure Noting.Erases (S : Scope) (ix : LinkIndex) (f : β → α) (y : Noting β) (x : Action α) :
    Prop where
  passing : Passing S ix x
  eq : ∀ c l, c.references.index = ix → ((fun r ↦ f r.1) <$> y l) c = x c

namespace Noting.Erases

variable {f : β → α} {g : δ → γ} {x : Action α} {y : Noting β} {k : α → Action γ} {h : β → Noting δ}

/-- What is printed can be printed with notes. -/
theorem exists_run (hy : Erases S ix f y x) {c d : Context} (hc : c.references.index = ix)
    (l : Ledger) {a : α} (hrun : x c = (.ok a, d)) :
    ∃ b l', y l c = (.ok (b, l'), d) ∧ f b = a := by
  rw [← hy.eq c l hc] at hrun
  obtain ⟨⟨b, l'⟩, hb, rfl⟩ := ok_of_map hrun
  exact ⟨b, l', hb, rfl⟩

theorem pure (b : β) : Erases S ix f (Pure.pure b) (Pure.pure (f b)) :=
  ⟨(Passing.closed S ix).pure _, fun _ _ _ ↦ rfl⟩

theorem lift (hx : Passing S ix x) : Erases S ix id (liftM x) x := by
  refine ⟨hx, fun c l _ ↦ ?_⟩
  show ((fun r ↦ r.1) <$> (x >>= fun a ↦ Pure.pure (a, l))) c = x c
  rw [map_bind]
  simp only [map_pure, bind_pure]

/-- Changes of the ledger alone are nothing. -/
theorem modifyGet (f : Ledger → β × Ledger) :
    Erases S ix (fun _ ↦ ()) (modifyGet f : Noting β) (Pure.pure ()) :=
  ⟨(Passing.closed S ix).pure _, fun _ _ _ ↦ rfl⟩

/-- Nor is a look at the context. -/
theorem ask (f : Context → β) :
    Erases S ix (fun _ ↦ ()) (liftM (Action.ask f)) (Pure.pure ()) :=
  ⟨(Passing.closed S ix).pure _, fun _ _ _ ↦ rfl⟩

theorem bindOfResult (hy : Erases S ix f y x)
    (hk : ∀ c l b l' d, c.references.index = ix → y l c = (.ok (b, l'), d) →
      Erases S ix g (h b) (k (f b))) : Erases S ix g (y >>= h) (x >>= k) where
  passing := by
    refine hy.passing.bindOfResult fun c a hc ha ↦ ?_
    obtain ⟨b, l', hb, rfl⟩ := hy.exists_run hc Ledger.empty (d := (x c).2) (by rw [← ha])
    exact (hk c _ b l' _ hc hb).passing
  eq := by
    intro c l hc
    show ((fun r ↦ g r.1) <$> (y l >>= fun r ↦ h r.1 r.2)) c = _
    have heq := hy.eq c l hc
    rw [map_bind]
    cases hr : y l c with
    | mk r d =>
      cases r with
      | error e =>
        have hx : x c = (.error e, d) := by rw [← heq, map_eq_pure_bind, bind_of_error hr]
        rw [bind_of_error hr, bind_of_error hx]
      | ok r =>
        have hx : x c = (.ok (f r.1), d) := by
          rw [← heq, map_eq_pure_bind, bind_of_ok hr]
          rfl
        have hd : d.references.index = ix := by
          have hpassage := (hy.passing c hc).1
          rw [hx] at hpassage
          exact hpassage.index.trans hc
        rw [bind_of_ok hr, bind_of_ok hx]
        exact (hk c l r.1 r.2 d hc hr).eq d r.2 hd

theorem bind (hy : Erases S ix f y x) (hk : ∀ b, Erases S ix g (h b) (k (f b))) :
    Erases S ix g (y >>= h) (x >>= k) :=
  hy.bindOfResult fun _ _ b _ _ _ _ ↦ hk b

/-- What is done to the ledger alone can stand before an action. -/
theorem silent_bind {x : Action γ} (hy : Erases S ix (fun _ ↦ ()) y (Pure.pure ()))
    (hk : ∀ b, Erases S ix g (h b) x) : Erases S ix g (y >>= h) x := by
  simpa using hy.bind (k := fun _ ↦ x) hk

theorem within (o : Occurrence) (hy : Erases S ix f y x) :
    Erases S ix f (Noting.within o y) (Context.within o x) where
  passing := hy.passing.within o
  eq := by
    intro c l hc
    have heq := hy.eq { c with ancestors := o :: c.ancestors } l hc
    show ((fun r ↦ f r.1) <$> Context.within o (y l)) c = Context.within o x c
    rw [Context.within, Context.within, map_bind, bind_of_ok (x := push o) rfl,
      bind_of_ok (x := push o) rfl, map_bind]
    cases hr : y l { c with ancestors := o :: c.ancestors } with
    | mk r d =>
      rw [map_eq_pure_bind] at heq
      cases r with
      | error e =>
        rw [bind_of_error hr] at heq ⊢
        rw [bind_of_error heq.symm]
      | ok r =>
        rw [bind_of_ok hr] at heq ⊢
        rw [bind_of_ok heq.symm]
        simp only [map_bind, map_pure]

end Noting.Erases

/-! ## The walk -/

namespace Noting

variable {config : Config} {expand : Occurrence → Action String}
  {expand' : Occurrence → Noting (String × List Note)} {o : Occurrence}

/-- Only references to footnotes have to do with definitions. -/
theorem transcribeElement_eq_of_ne (h : o.node.kind ≠ .footnoteReference) (parts : Parts)
    (expand' : Occurrence → Action String) :
    transcribeElement config expand o parts = transcribeElement config expand' o parts := by
  cases he : o.node.element with
  | footnoteReference label => exact absurd (by rw [Node.kind, he, Element.kind]) h
  | _ => simp only [transcribeElement, he]

theorem erases_reserveSlot (ho : S.Admits o) :
    Erases S ix (fun _ ↦ ()) (reserveSlot o) (Render.reserveSlot o) := by
  rw [← bind_pure (Render.reserveSlot o)]
  refine Erases.bind (.lift ?_) fun _ ↦ .modifyGet _
  exact (Passing.closed S ix).reserveSlot o (Passing.admits ho)

variable (hexpand : ∀ e ∈ ix.footnotes, Erases S ix Prod.fst (expand' e.2) (expand e.2))

include hexpand

theorem erases_expand (name : String) :
    Erases S ix Prod.fst (do expand' (← definition o name))
      (do expand (← definition o name)) := by
  refine Erases.bindOfResult (.lift ?_) fun c l d l' c' hc hrun ↦ ?_
  · exact (Passing.closed S ix).read fun _ _ ↦ rfl
  · obtain ⟨d', hd', heq⟩ := ok_of_map (x := definition o name) hrun
    obtain ⟨rfl, -⟩ := Prod.mk.inj heq
    subst hc
    exact hexpand _ (LinkIndex.mem_footnotes_of_footnote (Prod.mk.inj hd').1)

/-- A reference of a proper tree is printed with notes as it is without. -/
theorem erases_reference (hproper : o.node.isProper = true) (label : Option String)
    (contents : String) (below : List Note) :
    Erases S ix Prod.fst (reference expand' o label contents below)
      (footnoteReference expand o label contents) := by
  have hnext : ∀ key, Passing S ix (nextFootnote key) := (Passing.closed S ix).nextFootnote
  unfold footnoteReference
  rw [Node.loose?_eq_none hproper, Option.none_or]
  cases label with
  | none =>
    refine Erases.bind (.lift ((Passing.closed S ix).reference o.place)) fun token ↦ ?_
    exact Erases.bind (.lift (hnext _)) fun _ ↦ .pure _
  | some name =>
    have hkey : (Datum.str name).keyFault? = none := rfl
    simp only [Option.map_some, hkey, check_none_eq_pure, pure_bind]
    refine Erases.bind (.lift (hnext _)) fun ⟨number, isNew⟩ ↦ ?_
    cases isNew with
    | false => exact .silent_bind (.modifyGet _) fun _ ↦ .pure _
    | true =>
      simp only [id, Bool.not_true, Bool.false_eq_true, if_false]
      split
      · refine .silent_bind (.modifyGet _) fun _ ↦ ?_
        have htext := erases_expand (o := o) hexpand name
        change Erases _ _ _ _ (do return footnoteText (← expand (← definition o name)))
        rw [← bind_assoc, ← bind_assoc]
        exact htext.bind fun _ ↦ .pure _
      · exact .pure _

omit hexpand in
theorem erases_settled (ho : S.Admits o) (parts : Parts) (notes : Branch → List Note) :
    Erases S ix Prod.fst (settled config o parts notes)
      (transcribeElement config (fun _ ↦ pure "") o parts) := by
  have hplain : Passing S ix (transcribeElement config (fun _ ↦ pure "") o parts) := by
    refine (Passing.closed S ix).transcribeElement config o (fun _ _ ↦ ?_) (Passing.admits ho) parts
    exact (Passing.closed S ix).pure ""
  refine .silent_bind (.ask id) fun c ↦ ?_
  have hself := (Erases.lift hplain).bind (k := pure) (g := Prod.fst)
    (h := fun output ↦ do
      let passed ← modifyGet (Ledger.settle config c o parts.contents notes)
      return (output, passed)) fun _ ↦ .silent_bind (.modifyGet _) fun _ ↦ .pure _
  rwa [bind_pure] at hself

theorem erases_element (ho : S.Admits o) (hproper : o.node.isProper = true) (parts : Parts)
    (notes : Branch → List Note) :
    Erases S ix Prod.fst (element config expand' o parts notes)
      (transcribeElement config expand o parts) := by
  cases he : o.node.element with
  | footnoteReference label =>
    simp only [element, transcribeElement, he, map_eq_pure_bind]
    refine .silent_bind (.modifyGet _) fun _ ↦ ?_
    exact (erases_reference hexpand hproper label _ _).bind fun _ ↦ .pure _
  | _ =>
    have hne : o.node.kind ≠ .footnoteReference := by simp [Node.kind, he, Element.kind]
    rw [transcribeElement_eq_of_ne hne parts fun _ ↦ pure ""]
    simp only [element, he]
    exact erases_settled ho parts notes

omit hexpand in
theorem erases_all {ns : List Node} (hns : ∀ n ∈ ns, n.isProper = true) {p : Place} {b : Branch}
    {i : Nat}
    (hnode : ∀ k n, ns[k]? = some n → Erases S ix Prod.fst
      (node config expand' (p.down b (i + k)) n) (Render.node config expand (p.down b (i + k)) n)) :
    Erases S ix Prod.fst (all config expand' p b i ns) (Render.all config expand p b i ns) := by
  induction ns generalizing i with
  | nil => exact .pure _
  | cons n ns ih =>
    rw [all_cons (hns n List.mem_cons_self), all]
    refine (hnode 0 n rfl).bind fun _ ↦ Erases.bind ?_ fun _ ↦ .pure _
    refine ih (fun m hm ↦ hns m (.tail _ hm)) fun k m hk ↦ ?_
    rw [show i + 1 + k = i + (k + 1) by omega]
    exact hnode (k + 1) m hk

omit hexpand in
theorem erases_onBranches {bs : List Branch}
    (hon : ∀ b ∈ bs, Erases S ix Prod.fst (onBranch config expand' o b)
      (Render.onBranch config expand o b)) :
    Erases S ix (fun on b ↦ (on b).1) (onBranches config expand' o bs)
      (Render.onBranches config expand o bs) := by
  induction bs with
  | nil => exact .pure _
  | cons b bs ih =>
    refine (hon b List.mem_cons_self).bind fun first ↦ ?_
    refine (ih fun b' hb' ↦ hon b' (.tail _ hb')).bind fun rest ↦ ?_
    have heq : (fun b' ↦ if b' = b then first.1 else (rest b').1) =
        fun b' ↦ (if b' = b then first else rest b').1 := by
      funext b'
      split <;> rfl
    rw [heq]
    exact .pure _

/-- A proper tree is printed with notes as it is without. -/
theorem erases_node {n : Node} (hn : n.isProper = true) {p : Place}
    (hadmits : ∀ o ∈ n.printed p, S.Admits o) :
    Erases S ix Prod.fst (node config expand' p n) (Render.node config expand p n) := by
  induction n using Node.induction generalizing p with
  | step n ih =>
    have hbelow := ((Node.isProper_iff n).mp hn).2
    have hall : ∀ b, (b = .caption → printsCaption n = true) → Erases S ix Prod.fst
        (all config expand' p b 0 (n.branch b)) (Render.all config expand p b 0 (n.branch b)) := by
      intro b hb
      refine erases_all (hbelow b) fun k m hk ↦ ?_
      rw [Nat.zero_add]
      refine ih b m (List.mem_of_getElem? hk) (hbelow b m (List.mem_of_getElem? hk)) fun o ho ↦ ?_
      exact hadmits o (Node.mem_printed_iff.mpr
        (.inr ⟨b, Node.mem_printedOn_iff.mpr ⟨hb, k, m, hk, ho⟩⟩))
    have hself := hadmits ⟨p, n⟩ (Node.mem_printed_iff.mpr (.inl rfl))
    rw [node_eq, node_eq_branches hn]
    refine (erases_reserveSlot hself).bind fun _ ↦ ?_
    refine Erases.bind (erases_onBranches fun b _ ↦ ?_) fun on ↦ ?_
    · cases b with
      | title => exact hall .title fun hb ↦ by cases hb
      | tag => exact hall .tag fun hb ↦ by cases hb
      | caption =>
        rw [onBranch, Render.onBranch]
        split
        · next hcaption => exact hall .caption fun _ ↦ hcaption
        · exact .pure _
      | children => exact (hall .children fun hb ↦ by cases hb).within _
    · exact erases_element hexpand hself hn _ _

omit hexpand in
/-- The definitions of footnotes are printed with notes as they are without. -/
theorem erases_definitionText (h : S.AdmitsNotes ix) (depth : Nat) :
    ∀ e ∈ ix.footnotes, Erases S ix Prod.fst (definitionText config depth e.2)
      (Render.definitionText config depth e.2) := by
  induction depth with
  | zero => exact fun _ _ ↦ .pure _
  | succ depth ih =>
    intro e he
    obtain ⟨hproper, hadmits⟩ := h e he
    have hbelow := ((Node.isProper_iff e.2.node).mp hproper).2 .children
    rw [definitionText_succ hproper, definitionText]
    refine Erases.bind (erases_all hbelow fun k m hk ↦ ?_) fun _ ↦ .pure _
    rw [Nat.zero_add]
    refine erases_node ih (hbelow m (List.mem_of_getElem? hk)) fun o ho ↦ hadmits o ?_
    exact Node.mem_printedOn_iff.mpr ⟨nofun, k, m, hk, ho⟩

end Noting

end Typeset

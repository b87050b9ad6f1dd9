import Typeset.Proofs.Render.Coupled

/-!
# Printing a tree that has gained a block

The walks over the two trees go side by side, and the walk over the second one also comes to the new
block. If the block prints nothing there and changes nothing that is told of any other place, what
the walks print is the same.
-/

namespace Typeset

open Action Context Node Render

variable {i : Insertion} {ix ix' : LinkIndex} {o o' : Occurrence} {config : Config}
  {label : String} {expand expand' : Occurrence → Action String}

namespace Insertion

/-- The second occurrence is of the same node in another place, and the new block is no child of
it. -/
structure Carries (i : Insertion) (o o' : Occurrence) : Prop where
  eq : o' = ⟨i.move o.place, o.node⟩
  steps_ne_host : o.place.steps ≠ i.host

theorem Pairs.carries (h : i.Pairs o o') {k : Kind} (hk : o.node.kind = k)
    (hholds : ¬ k.mayHoldBlocks) : i.Carries o o' where
  eq := h.eq_of_kind hk hholds
  steps_ne_host := h.twins.steps_ne_host (hk ▸ hholds)

/-- Children of a node that is carried along keep their indices. -/
theorem Carries.childIndex? (h : i.Carries o o') (p : Place) :
    (i.move p).childIndex? o'.place = p.childIndex? o.place := by
  obtain rfl := h.eq
  exact childIndex?_move h.steps_ne_host

end Insertion

namespace Context.Mirrors

variable {c d : Context} (h : Context.Mirrors i ix ix' c d)

include h

theorem carries_table? : Option.Rel i.Carries c.table? d.table? := by
  have htable := h.table?
  have hkind : ∀ o ∈ c.table?, o.node.kind = .table := fun o ho ↦
    beq_iff_eq.mp (List.find?_some (p := fun o : Occurrence ↦ o.node.kind == .table) ho)
  generalize c.table? = r at htable hkind ⊢
  generalize d.table? = s at htable ⊢
  cases htable with
  | none => exact .none
  | some hpair => exact .some (hpair.carries (hkind _ rfl) (by decide))

end Context.Mirrors

namespace Action.Coupled

/-! ## Rows and cells -/

section

variable (h : i.Couples label o o')

include h

theorem tableRow (hkind : o.node.kind = .tableRow) (contents : String) :
    Coupled i ix ix' (· = ·) (Render.tableRow config o contents)
      (Render.tableRow config o' contents) := by
  obtain rfl := h.eq_of_kind hkind (by decide)
  rw [Render.tableRow, Render.tableRow]
  refine (askOf fun _ _ hcd ↦ hcd.carries_table?).bindOf fun r s htable ↦ ?_
  cases htable with
  | none => exact fail _
  | @some table table' htable =>
    obtain rfl := htable.eq
    have hindex := htable.childIndex? o.place
    dsimp only at hindex ⊢
    refine (ofExcept _).bind fun g ↦ ?_
    rw [hindex]
    cases (o.place.childIndex? table.place).bind g.indexOf? with
    | none => exact pure _
    | some index => exact ite ((hold _ _).bind fun _ ↦ pure _) (pure _)

theorem tableCell (hkind : o.node.kind = .tableCell) (contents : String) :
    Coupled i ix ix' (· = ·) (Render.tableCell config o contents)
      (Render.tableCell config o' contents) := by
  obtain rfl := h.eq_of_kind hkind (by decide)
  rw [Render.tableCell, Render.tableCell]
  refine (askOf fun _ _ hcd ↦ hcd.parent?).bindOf fun r s hrow ↦ ?_
  refine (askOf fun _ _ hcd ↦ hcd.carries_table?).bindOf fun t u htable ↦ ?_
  cases hrow with
  | none => exact fail _
  | @some row row' hrow =>
    cases htable with
    | none => exact fail _
    | @some table table' htable =>
      dsimp only
      rw [hrow.kind]
      by_cases hkind : row.node.kind = .tableRow
      · have hrow := hrow.carries hkind (by decide)
        have hindex := htable.childIndex? row.place
        have hcolumn := hrow.childIndex? o.place
        obtain rfl := hrow.eq
        obtain rfl := htable.eq
        dsimp only at hindex hcolumn ⊢
        rw [if_neg (not_not_intro hkind), if_neg (not_not_intro hkind), hindex, hcolumn]
        refine (ofExcept _).bind fun g ↦ ?_
        cases (row.place.childIndex? table.place).bind g.indexOf? with
        | none => exact pure _
        | some index =>
          cases o.place.childIndex? row.place with
          | none => exact fail _
          | some column => exact (check _).bind fun _ ↦ pure _
      · rw [if_pos hkind, if_pos hkind]
        exact fail _

end

/-! ## Inline objects -/

theorem markup (kind text : String) :
    Coupled i ix ix' (· = ·) (Render.markup config kind text) (Render.markup config kind text) := by
  refine (check _).bind fun _ ↦ ?_
  split
  · exact pure _
  · exact fail _

theorem quotes (origin : Origin) (text : String) :
    Coupled i ix ix' (· = ·) (Render.quotes config origin text)
      (Render.quotes config origin text) := by
  unfold Render.quotes
  split
  · exact pure _
  · exact (warn _).bind fun _ ↦ pure _
  · exact fail _

theorem byMode (inside outside : String) :
    Coupled i ix ix' (· = ·) (Render.byMode inside outside) (Render.byMode inside outside) :=
  ask fun _ _ hcd ↦ by rw [hcd.inMath]

theorem image (path : String) (attributes : Attributes) :
    Coupled i ix ix' (· = ·) (Render.image config path attributes)
      (Render.image config path attributes) :=
  (check _).bind fun _ ↦ pure _

section

variable (h : i.Couples label o o')

include h

theorem code (kind value : String) :
    Coupled i ix ix' (· = ·) (Render.code config o kind value)
      (Render.code config o' kind value) := by
  rw [Render.code, Render.code, Node.textFieldFault?, Node.textFieldFault?, h.loose?]
  exact (check _).bind fun _ ↦ markup _ _

theorem text (content : String) :
    Coupled i ix ix' (· = ·) (Render.text config o content) (Render.text config o' content) := by
  rw [Render.text, Render.text, Node.textFieldFault?, Node.textFieldFault?, h.loose?, h.origin]
  refine (ask fun _ _ hcd ↦ hcd.inMath).bind fun _ ↦ ite (pure _) ((check _).bind fun _ ↦ ?_)
  exact ite (quotes _ _) (pure _)

theorem labelOf : Coupled i ix ix' (· = ·) (Render.labelOf o) (Render.labelOf o') :=
  (properLabel h).bind fun _ ↦ pure _

theorem timestamp (value kind : String) :
    Coupled i ix ix' (· = ·) (Render.timestamp config o value kind)
      (Render.timestamp config o' value kind) := by
  rw [Render.timestamp, Render.timestamp, Node.textFieldFault?, Node.textFieldFault?, h.loose?]
  exact (check _).bind fun _ ↦ pure _

variable (hix : i.Reindexes label ix ix')

include hix

/-- A link finds corresponding targets, and so the same label. -/
theorem link {kind path : String} (he : o.node.element = .link kind path) (contents : String) :
    Coupled i ix ix' (· = ·) (Render.link config o kind path contents)
      (Render.link config o' kind path contents) := by
  have hloose := loose?_eq_none (isProper_of_isWellTyped h.isWellTyped) "path"
  obtain rfl := h.eq_of_kind (k := .link) (by rw [Node.kind, he, Element.kind]) (by decide)
  unfold Render.link
  simp only [hloose, Option.getD_none]
  refine ite ?_ (ite ?_ ?_)
  · refine (read fun c d hcd ↦ ?_).bind fun _ ↦ pure _
    rw [hcd.index, hcd.index']
    exact hix.codeLine _ _
  · refine (resolve hix).bindOf fun target target' htarget ↦ ?_
    refine (properLabel htarget).bind fun _ ↦ pureOf ?_
    rw [Latex.internalLink, Latex.internalLink, htarget.element]
  · refine (check _).bind fun _ ↦ ite ?_ ((check _).bind fun _ ↦ pure _)
    exact (ask fun _ _ hcd ↦ hcd.imageAttributes).bind fun _ ↦ image _ _

variable (hexpand : ∀ e e', i.Couples label e e' →
  Coupled i ix ix' (· = ·) (expand e) (expand' e'))

include hexpand

/-- A footnote is not one whose definition may be new, so that it finds the same definition. -/
theorem footnoteReference {l : Option String} (he : o.node.element = .footnoteReference l)
    (contents : String) :
    Coupled i ix ix' (· = ·) (Render.footnoteReference expand o l contents)
      (Render.footnoteReference expand' o' l contents) := by
  have hloose := loose?_eq_none (isProper_of_isWellTyped h.isWellTyped) "label"
  have hne : l ≠ some label := fun heq ↦
    h.spares o.node (mem_visit_self _) (heq ▸ he)
  obtain rfl := h.eq_of_kind (k := .footnoteReference) (by rw [Node.kind, he, Element.kind])
    (by decide)
  unfold Render.footnoteReference
  simp only [hloose, Option.none_or]
  cases l with
  | none =>
    refine (reference o.place).bind fun _ ↦ ?_
    exact (nextFootnote _).bind fun _ ↦ pure _
  | some l =>
    have hne : l ≠ label := fun heq ↦ hne (heq ▸ rfl)
    refine (check _).bind fun _ ↦ (nextFootnote _).bind fun _ ↦ ?_
    refine ite (pure _) (ite ?_ (pure _))
    refine (definition hix hne).bindOf fun e e' hpair ↦ ?_
    exact (hexpand e e' hpair).bind fun _ ↦ pure _

/-- Corresponding nodes with the same parts print the same. -/
theorem transcribeElement (parts : Parts) :
    Coupled i ix ix' (· = ·) (Render.transcribeElement config expand o parts)
      (Render.transcribeElement config expand' o' parts) := by
  have hkind : ∀ {e : Element} {k : Kind}, o.node.element = e → e.kind = k → o.node.kind = k :=
    fun he hk ↦ (congrArg Element.kind he).trans hk
  unfold Render.transcribeElement
  rw [h.attributes, h.element]
  dsimp only
  split
  · exact pure _
  · exact heading h _ _
  · exact paragraph h _
  · exact map _ (plainList h _ _)
  · exact map _ (item h _ _ _)
  · next he => exact map _ (table h (hkind he rfl) _)
  · next he => exact tableRow h (hkind he rfl) _
  · next he => exact tableCell h (hkind he rfl) _
  · exact pure _
  · exact (properLabel? h).bind fun _ ↦ pure _
  · next he => exact map _ (codeBlock h hix (hkind he rfl) _ _)
  · exact pure _
  · exact (properLabel? h).bind fun _ ↦ pure _
  · exact pure _
  · exact pure _
  · exact pure _
  · exact pure _
  · exact map _ (text h _)
  · exact map _ (markup _ _)
  · exact map _ (markup _ _)
  · exact map _ (markup _ _)
  · exact map _ (markup _ _)
  · exact map _ (code h _ _)
  · exact map _ (code h _ _)
  · next he => exact map _ (link h hix he _)
  · exact map _ (image _ _)
  · next he => exact map _ (footnoteReference h hix hexpand he _)
  · exact map _ (timestamp h _ _)
  · exact map _ (byMode _ _)
  · rw [h.loose?]
    exact map _ (byMode _ _)
  · exact map _ (byMode _ _)
  · exact map _ (byMode _ _)
  · exact map _ (byMode _ _)
  · exact pure _
  · exact map _ (labelOf h)
  · exact (labelOf h).bind fun _ ↦ pure _
  · exact pure _
  all_goals
    rw [h.kind, h.origin]
    exact fail _

end

end Action.Coupled

/-! ## Walks -/

/-- Where the new block is printed, it prints nothing, and the context still tells the same of all
other places. -/
def Insertion.IsSilent (i : Insertion) (config : Config) (ix ix' : LinkIndex) : Prop :=
  ∀ (expand : Occurrence → Action String) (p : Place), p.steps = i.host →
    ∀ c d, Context.Mirrors i ix ix' c d →
      ∃ e, Render.node config expand ((i.move p).down .children i.index) i.tree d = (.ok none, e) ∧
        Context.Mirrors i ix ix' c e

namespace Insertion.Couples

/-- What stands in a branch of corresponding nodes is well-typed and does not use the label. -/
theorem branch (h : i.Couples label o o') {b : Branch} :
    (∀ m ∈ o.node.branch b, m.isWellTyped = true ∧ m.Spares label) ∧
      ∀ m ∈ o'.node.branch b, m.isWellTyped = true :=
  ⟨fun _ hm ↦ ⟨(isWellTyped_of_mem_branch h.isWellTyped hm).2, fun m' hm' ↦
    h.spares m' (mem_visit_of_mem_branch hm hm')⟩,
    fun _ hm ↦ (isWellTyped_of_mem_branch h.isWellTyped' hm).2⟩

end Insertion.Couples

namespace Action.Coupled

variable {p : Place} {b : Branch} {j j' : Nat} {ns ns' : List Node}

/-- The outputs of corresponding nodes make up the same text. The new block adds nothing to it. -/
theorem all (hsilent : i.IsSilent config ix ix') (h : i.TwinsIn p b j j' ns ns')
    (hns : ∀ n ∈ ns, n.isWellTyped = true ∧ n.Spares label)
    (hns' : ∀ n ∈ ns', n.isWellTyped = true)
    (hnode : ∀ n ∈ ns, ∀ q n', i.Couples label ⟨q, n⟩ ⟨i.move q, n'⟩ →
      Coupled i ix ix' (· = ·) (Render.node config expand q n)
        (Render.node config expand' (i.move q) n')) :
    Coupled i ix ix' (fun outputs outputs' ↦ spaced ns' outputs' = spaced ns outputs)
      (Render.all config expand p b j ns) (Render.all config expand' (i.move p) b j' ns') := by
  induction h with
  | nil => exact pureOf rfl
  | @cons j j' n n' ns ns' hseat htwins _ ih =>
    obtain ⟨hn, hns⟩ := List.forall_mem_cons.mp hns
    obtain ⟨hn', hns'⟩ := List.forall_mem_cons.mp hns'
    have hcouples : i.Couples label ⟨p.down b j, n⟩ ⟨i.move (p.down b j), n'⟩ :=
      ⟨⟨rfl, htwins⟩, hn.1, hn', hn.2⟩
    have hblank : blankAfter n' = blankAfter n := by
      rw [blankAfter, blankAfter, isBlock, isBlock, htwins.kind, postBlank, postBlank, htwins.info]
    rw [all_cons (isProper_of_isWellTyped hn.1), all_cons (isProper_of_isWellTyped hn'), hseat,
      ← Insertion.move_down]
    refine (hnode n List.mem_cons_self _ _ hcouples).bind fun output ↦ ?_
    rw [← hseat]
    refine (ih hns hns' fun m hm ↦ hnode m (.tail _ hm)).bindOf fun outputs outputs' heq ↦ ?_
    refine pureOf ?_
    cases output with
    | none => exact heq
    | some output => rw [spaced, spaced, hblank, heq]
  | @extra j ns ns' hp hb _ ih =>
    subst hb
    obtain ⟨htree, hns'⟩ := List.forall_mem_cons.mp hns'
    have hrest := (ih hns hns' hnode).bindOf (k := Pure.pure)
      (l := fun outputs' ↦ Pure.pure (none :: outputs'))
      (T := fun outputs outputs' ↦ spaced (i.tree :: ns') outputs' = spaced ns outputs)
      fun outputs outputs' heq ↦ pureOf heq
    rw [bind_pure] at hrest
    intro c d hcd
    obtain ⟨e, he, hce⟩ := hsilent expand' p hp c d hcd
    rw [all_cons (isProper_of_isWellTyped htree), bind_of_ok he]
    exact hrest c e hce

/-- Printing corresponding nodes comes to the same. -/
theorem node (hsilent : i.IsSilent config ix ix') (hix : i.Reindexes label ix ix')
    (hexpand : ∀ e e', i.Couples label e e' →
      Coupled i ix ix' (· = ·) (expand e) (expand' e'))
    {n n' : Node} (h : i.Couples label ⟨p, n⟩ ⟨i.move p, n'⟩) :
    Coupled i ix ix' (· = ·) (Render.node config expand p n)
      (Render.node config expand' (i.move p) n') := by
  induction n using Node.induction generalizing p n' with
  | step n ih =>
    have hall : ∀ b, Coupled i ix ix'
        (fun outputs outputs' ↦ spaced (n'.branch b) outputs' = spaced (n.branch b) outputs)
        (Render.all config expand p b 0 (n.branch b))
        (Render.all config expand' (i.move p) b 0 (n'.branch b)) := fun b ↦
      all hsilent (h.twins.branch b) h.branch.1 h.branch.2 fun m hm _ _ hpair ↦ ih b m hm hpair
    rw [node_eq (isProper_of_isWellTyped h.isWellTyped),
      node_eq (isProper_of_isWellTyped h.isWellTyped')]
    refine (reserveSlot h.toPairs).bind fun _ ↦ ?_
    have hparts : Coupled i ix ix' (· = ·) (secondaryParts config expand ⟨p, n⟩)
        (secondaryParts config expand' ⟨i.move p, n'⟩) := by
      refine (hall .title).bindOf fun titles titles' htitle ↦ ?_
      refine (hall .tag).bindOf fun tags tags' htag ↦ ?_
      rw [h.printsCaption]
      have hcaption : Coupled i ix ix'
          (fun outputs outputs' ↦ Text.strip (spaced (n'.caption.getD []) outputs') =
            Text.strip (spaced (n.caption.getD []) outputs))
          (if printsCaption n then Render.all config expand p .caption 0 (n.caption.getD [])
            else Pure.pure [])
          (if printsCaption n then
            Render.all config expand' (i.move p) .caption 0 (n'.caption.getD [])
            else Pure.pure []) := by
        refine ite ?_ (pureOf ?_)
        · intro c d hcd
          exact ((hall .caption) c d hcd).mono fun _ _ heq ↦ congrArg Text.strip heq
        · have hnil : ∀ ns, spaced ns [] = "" := by
            rintro (_ | ⟨n, ns⟩) <;> rfl
          rw [hnil, hnil]
      refine hcaption.bindOf fun captions captions' hcaption ↦ pureOf ?_
      have htitle : spaced n'.title titles' = spaced n.title titles := htitle
      have htag : spaced (n'.tag.getD []) tags' = spaced (n.tag.getD []) tags := htag
      rw [htitle, htag, hcaption]
    refine hparts.bind fun parts ↦ ?_
    refine (within h.toPairs (hall .children)).bindOf fun outputs outputs' heq ↦ ?_
    rw [show spaced n'.children outputs' = spaced n.children outputs from heq]
    exact transcribeElement h hix hexpand _

/-- The text of corresponding definitions is the same. -/
theorem definitionText (hsilent : i.IsSilent config ix ix') (hix : i.Reindexes label ix ix')
    (depth : Nat) (e e' : Occurrence) (h : i.Couples label e e') :
    Coupled i ix ix' (· = ·) (Render.definitionText config depth e)
      (Render.definitionText config depth e') := by
  induction depth generalizing e e' with
  | zero => exact pure ""
  | succ depth ih =>
    rw [definitionText_succ (isProper_of_isWellTyped h.isWellTyped),
      definitionText_succ (isProper_of_isWellTyped h.isWellTyped'), h.place]
    refine (all hsilent (h.twins.branch .children) h.branch.1 h.branch.2
      fun n _ q n' hpair ↦ node hsilent hix ih hpair).bindOf fun outputs outputs' heq ↦ ?_
    exact pureOf heq.symm

end Action.Coupled

end Typeset

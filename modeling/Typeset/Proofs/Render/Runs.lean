import Typeset.Proofs.Render.Passage
import Typeset.Proofs.Text.Carries

/-!
# Runs

When a tree has been printed, each tree below it has been printed on the way. A run is taken apart
there: what was printed before, the tree itself, what was printed after it, and the node that got
the output as one of its parts.
-/

namespace Typeset.Render

open Action Context Text

variable {config : Config} {expand : Occurrence → Action String} {p : Place} {b : Branch}
  {c d : Context}

/-! ## Trees in a row -/

/-- The output of a tree among others comes from a run of its own. -/
theorem ok_of_all {ns : List Node} (hns : ∀ n ∈ ns, n.isProper = true) {i k : Nat} {m : Node}
    (hm : ns[k]? = some m) {outputs : List (Option String)}
    (hrun : all config expand p b i ns c = (.ok outputs, d)) :
    ∃ before c' output d' after,
      all config expand p b i (ns.take k) c = (.ok before, c') ∧
        node config expand (p.down b (i + k)) m c' = (.ok output, d') ∧
          all config expand p b (i + k + 1) (ns.drop (k + 1)) d' = (.ok after, d) ∧
            outputs[k]? = some output := by
  induction ns generalizing i k c outputs with
  | nil => cases hm
  | cons n ns ih =>
    have hn := hns n List.mem_cons_self
    rw [all_cons hn] at hrun
    obtain ⟨output, c₁, hfirst, hrun⟩ := ok_of_bind hrun
    obtain ⟨rest, c₂, hrest, hrun⟩ := ok_of_bind hrun
    cases hrun
    cases k with
    | zero =>
      obtain rfl := Option.some.inj hm
      exact ⟨[], c, output, c₁, rest, rfl, hfirst, hrest, rfl⟩
    | succ k =>
      obtain ⟨before, c', output', d', after, hbefore, hnode, hafter, houtput⟩ :=
        ih (fun m hm ↦ hns m (.tail _ hm)) hm hrest
      rw [show i + 1 + k = i + (k + 1) by omega] at hnode hafter
      refine ⟨output :: before, c', output', d', after, ?_, hnode, hafter, houtput⟩
      rw [List.take_succ_cons, all_cons hn, bind_of_ok hfirst, bind_of_ok hbefore]
      rfl

/-- What a tree printed is passed on with what the others around it printed. -/
theorem occurs_spaced {ns : List Node} {outputs : List (Option String)} {k : Nat} {m : Node}
    {s t : String} (hm : ns[k]? = some m) (houtput : outputs[k]? = some (some t))
    (h : Occurs s t) : Occurs s (spaced ns outputs) := by
  induction ns generalizing outputs k with
  | nil => cases hm
  | cons n ns ih =>
    rcases outputs with _ | ⟨output, outputs⟩
    · cases houtput
    · cases k with
      | zero =>
        obtain rfl := Option.some.inj houtput
        exact (h.append_right _).append_right _
      | succ k =>
        have hrest : Occurs s (spaced ns outputs) := ih hm houtput
        cases output with
        | none => exact hrest
        | some t' => exact hrest.append_left _

/-! ## The branches of a node -/

/-- What is printed on one branch of a node. -/
def onBranch (config : Config) (expand : Occurrence → Action String) (o : Occurrence) :
    Branch → Action (List (Option String))
  | .title => all config expand o.place .title 0 o.node.title
  | .tag => all config expand o.place .tag 0 (o.node.tag.getD [])
  | .caption =>
    if printsCaption o.node then all config expand o.place .caption 0 (o.node.caption.getD [])
    else pure []
  | .children => within o (all config expand o.place .children 0 o.node.children)

namespace Parts

/-- The parts of a node, given what was printed on its branches. -/
def ofOutputs (n : Node) (outputs : Branch → List (Option String)) : Parts where
  title := strip (spaced n.title (outputs .title))
  tag := strip (spaced (n.tag.getD []) (outputs .tag))
  caption := strip (spaced (n.caption.getD []) (outputs .caption))
  contents := spaced n.children (outputs .children)

/-- The part for a branch. -/
def on (parts : Parts) : Branch → String
  | .title => parts.title
  | .tag => parts.tag
  | .caption => parts.caption
  | .children => parts.contents

theorem occurs_on_ofOutputs {n : Node} {outputs : Branch → List (Option String)} {s : String}
    (hs : IsCompact s) (h : Occurs s (spaced (n.branch b) (outputs b))) :
    Occurs s ((ofOutputs n outputs).on b) := by
  cases b with
  | children => exact h
  | title | tag | caption => exact h.strip hs

end Parts

/-- What is printed on some branches of a node, one after the other. -/
def onBranches (config : Config) (expand : Occurrence → Action String) (o : Occurrence) :
    List Branch → Action (Branch → List (Option String))
  | [] => pure fun _ ↦ []
  | b :: bs => do
    let outputs ← onBranch config expand o b
    let rest ← onBranches config expand o bs
    return fun b' ↦ if b' = b then outputs else rest b'

/-- What is printed of a proper node, branch by branch. -/
theorem node_eq_branches {n : Node} (hn : n.isProper = true) : node config expand p n = (do
    reserveSlot ⟨p, n⟩
    let outputs ← onBranches config expand ⟨p, n⟩ Branch.printOrder
    transcribeElement config expand ⟨p, n⟩ (.ofOutputs n outputs)) := by
  rw [node_eq hn]
  simp only [secondaryParts, onBranches, onBranch, Branch.printOrder, bind_assoc, pure_bind]
  rfl

/-- The context in which the printing of a branch comes to one of its trees. -/
def arrivalOnBranch (config : Config) (expand : Occurrence → Action String) (o : Occurrence)
    (b : Branch) (i : Nat) (c : Context) : Context :=
  (all config expand o.place b 0 ((o.node.branch b).take i)
    { c with ancestors := if b = .children then o :: c.ancestors else c.ancestors }).2

/-- The context in which the printing of a node comes to a tree one step below it. -/
def arrival (config : Config) (expand : Occurrence → Action String) (o : Occurrence) (b : Branch)
    (i : Nat) (c : Context) : Context :=
  arrivalOnBranch config expand o b i
    (onBranches config expand o b.earlier (reserveSlot o c).2).2

/-- The context in which a node is printed, after everything below it. -/
def departure (config : Config) (expand : Occurrence → Action String) (o : Occurrence)
    (c : Context) : Context :=
  (onBranches config expand o Branch.printOrder (reserveSlot o c).2).2

/-- The context in which the text of a footnote's definition comes to one of its trees. -/
def arrivalInNote (config : Config) (expand : Occurrence → Action String) (definition : Occurrence)
    (i : Nat) (c : Context) : Context :=
  (all config expand definition.place .children 0 (definition.node.children.take i) c).2

theorem ok_of_onBranches {o : Occurrence} {before after : List Branch} (hb : b ∉ before)
    {outputs : Branch → List (Option String)}
    (hrun : onBranches config expand o (before ++ b :: after) c = (.ok outputs, d)) :
    ∃ first c' d' last,
      onBranches config expand o before c = (.ok first, c') ∧
        onBranch config expand o b c' = (.ok (outputs b), d') ∧
          onBranches config expand o after d' = (.ok last, d) := by
  induction before generalizing c outputs with
  | nil =>
    obtain ⟨outs, d', hfirst, hrun⟩ := ok_of_bind hrun
    obtain ⟨last, d'', hlast, hrun⟩ := ok_of_bind hrun
    cases hrun
    exact ⟨fun _ ↦ [], c, d', last, rfl, by simpa using hfirst, hlast⟩
  | cons a before ih =>
    obtain ⟨hne, hb⟩ := List.ne_and_not_mem_of_not_mem_cons hb
    obtain ⟨outs, c₁, hfirst, hrun⟩ := ok_of_bind hrun
    obtain ⟨rest, c₂, hrest, hrun⟩ := ok_of_bind hrun
    cases hrun
    obtain ⟨first, c', d', last, hbefore, hself, hafter⟩ := ih hb hrest
    refine ⟨fun b' ↦ if b' = a then outs else first b', c', d', last, ?_,
      by simpa [hne] using hself, hafter⟩
    rw [onBranches, bind_of_ok hfirst, bind_of_ok hbefore]
    rfl

theorem ok_of_onBranch {n : Node} (hb : b = .caption → printsCaption n = true)
    {outputs : List (Option String)} (hrun : onBranch config expand ⟨p, n⟩ b c = (.ok outputs, d)) :
    ∃ d', all config expand p b 0 (n.branch b) { c with
        ancestors := if b = .children then ⟨p, n⟩ :: c.ancestors else c.ancestors } =
          (.ok outputs, d') ∧ ∃ above, d = { d' with ancestors := above } := by
  cases b with
  | title | tag => exact ⟨d, hrun, d.ancestors, rfl⟩
  | caption =>
    rw [onBranch, if_pos (hb rfl)] at hrun
    exact ⟨d, hrun, d.ancestors, rfl⟩
  | children =>
    obtain ⟨d', hrun, hd⟩ := ok_of_within hrun
    exact ⟨d', hrun, _, hd⟩

/-! ## Passages on the way -/

section

variable {S : Scope} {ix : LinkIndex} {depth : Nat} (hnotes : S.AdmitsNotes ix)

theorem passage_of_passing {α : Type} {x : Action α} (hx : Passing S ix x)
    (hc : c.references.index = ix) {r : Except Failure α} (hrun : x c = (r, d)) :
    Passage S c d := by
  have h := (hx c hc).1
  rwa [hrun] at h

theorem ancestors_of_passing {α : Type} {x : Action α} (hx : Passing S ix x)
    (hc : c.references.index = ix) {a : α} (hrun : x c = (.ok a, d)) :
    d.ancestors = c.ancestors := by
  have h := (hx c hc).2 a
  rw [hrun] at h
  exact h rfl

include hnotes

theorem passing_onBranch {n : Node} (hn : n.isProper = true)
    (hadmits : ∀ o ∈ n.printedOn p b, S.Admits o) :
    Passing S ix (onBranch config (definitionText config depth) ⟨p, n⟩ b) := by
  have hbelow := ((Node.isProper_iff n).mp hn).2
  cases b with
  | title => exact .all config hnotes (hbelow .title) hadmits depth
  | tag => exact .all config hnotes (hbelow .tag) hadmits depth
  | caption =>
    rw [onBranch]
    split
    · next hcaption =>
      refine .all config hnotes (hbelow .caption) (fun o ho ↦ hadmits o ?_) depth
      rwa [Node.printedOn, if_neg (by simp [hcaption])]
    · exact (Passing.closed S ix).pure []
  | children => exact (Passing.all config hnotes (hbelow .children) hadmits depth).within _

theorem passing_onBranches {n : Node} (hn : n.isProper = true) {bs : List Branch}
    (hadmits : ∀ o ∈ bs.flatMap (n.printedOn p), S.Admits o) :
    Passing S ix (onBranches config (definitionText config depth) ⟨p, n⟩ bs) := by
  induction bs with
  | nil => exact (Passing.closed S ix).pure _
  | cons b bs ih =>
    rw [List.flatMap_cons] at hadmits
    have hfirst : Passing S ix (onBranch config (definitionText config depth) ⟨p, n⟩ b) :=
      passing_onBranch hnotes hn fun o ho ↦ hadmits o (List.mem_append_left _ ho)
    refine (Passing.closed S ix).bind hfirst fun _ ↦ (Passing.closed S ix).bind ?_ fun _ ↦ ?_
    · exact ih fun o ho ↦ hadmits o (List.mem_append_right _ ho)
    · exact (Passing.closed S ix).pure _

end

/-- Printing some occurrences leads from one context to another one, whatever the scope is. -/
def Leads (zoneAt : Place → Zone) (ix : LinkIndex) (os : List Occurrence) (c d : Context) : Prop :=
  ∀ S : Scope, S.zoneAt = zoneAt → S.AdmitsNotes ix → (∀ o ∈ os, S.Admits o) →
    c.references.index = ix → Passage S c d

namespace Leads

variable {zoneAt : Place → Zone} {ix : LinkIndex} {os os' : List Occurrence} {e : Context}
  {depth : Nat}

theorem trans (h : Leads zoneAt ix os c d) (h' : Leads zoneAt ix os' d e) :
    Leads zoneAt ix (os ++ os') c e := by
  intro S hzone hnotes hadmits hc
  have hpassage := h S hzone hnotes (fun o ho ↦ hadmits o (List.mem_append_left _ ho)) hc
  exact hpassage.trans (h' S hzone hnotes (fun o ho ↦ hadmits o (List.mem_append_right _ ho))
    (hpassage.index.trans hc))

theorem of_ancestors {above : List Occurrence} (h : Leads zoneAt ix os c d) :
    Leads zoneAt ix os c { d with ancestors := above } :=
  fun S hzone hnotes hadmits hc ↦
    (h S hzone hnotes hadmits hc).trans (.of_eq rfl rfl rfl)

theorem of_above {above : List Occurrence}
    (h : Leads zoneAt ix os { c with ancestors := above } d) : Leads zoneAt ix os c d := by
  intro S hzone hnotes hadmits hc
  have hpush : Passage S c { c with ancestors := above } := .of_eq rfl rfl rfl
  exact hpush.trans (h S hzone hnotes hadmits hc)

theorem all {ns : List Node} (hns : ∀ n ∈ ns, n.isProper = true) {i : Nat}
    {r : Except Failure (List (Option String))}
    (hrun : all config (definitionText config depth) p b i ns c = (r, d)) :
    Leads zoneAt ix (Node.printedIn p b i ns) c d :=
  fun _ _ hnotes hadmits hc ↦
    passage_of_passing (.all config hnotes hns hadmits depth) hc hrun

theorem onBranches {n : Node} (hn : n.isProper = true) {bs : List Branch}
    {r : Except Failure (Branch → List (Option String))}
    (hrun : onBranches config (definitionText config depth) ⟨p, n⟩ bs c = (r, d)) :
    Leads zoneAt ix (bs.flatMap (n.printedOn p)) c d :=
  fun _ _ hnotes hadmits hc ↦ passage_of_passing (passing_onBranches hnotes hn hadmits) hc hrun

theorem node {n : Node} (hn : n.isProper = true) {r : Except Failure (Option String)}
    (hrun : node config (definitionText config depth) p n c = (r, d)) :
    Leads zoneAt ix (n.printed p) c d :=
  fun _ _ hnotes hadmits hc ↦
    passage_of_passing (.node config hnotes hn hadmits depth) hc hrun

theorem reserveSlot {o : Occurrence} (ho : zoneAt o.place = o.node.zone) {r : Except Failure Unit}
    (hrun : reserveSlot o c = (r, d)) : Leads zoneAt ix [] c d := by
  intro S hzone _ _ hc
  refine passage_of_passing (S := S) ?_ hc hrun
  unfold Render.reserveSlot
  split
  · exact (Passing.closed S ix).pure ()
  · next hbody => exact .reserve hbody (hzone ▸ ho)

end Leads

/-! ## Nodes -/

section

variable {S : Scope} {ix : LinkIndex} {depth : Nat} (hnotes : S.AdmitsNotes ix) {n : Node}
  (hn : n.isProper = true) (hadmits : ∀ o ∈ n.printed p, S.Admits o)
  (hc : c.references.index = ix)

include hnotes hn hadmits hc

/-- When a node is about to be printed, everything below it has been. -/
theorem ok_of_node {output : Option String}
    (hrun : node config (definitionText config depth) p n c = (.ok output, d)) :
    ∃ outputs c₀ e,
      reserveSlot ⟨p, n⟩ c = (.ok (), c₀) ∧ Leads S.zoneAt ix [] c c₀ ∧
        c₀.ancestors = c.ancestors ∧ e.ancestors = c.ancestors ∧
        onBranches config (definitionText config depth) ⟨p, n⟩ Branch.printOrder c₀ =
            (.ok outputs, e) ∧
          transcribeElement config (definitionText config depth) ⟨p, n⟩ (.ofOutputs n outputs) e =
            (.ok output, d) := by
  have hself : S.Admits ⟨p, n⟩ := hadmits _ (Node.mem_printed_iff.mpr (.inl rfl))
  rw [node_eq_branches hn] at hrun
  obtain ⟨⟨⟩, c₀, hslot, hrun⟩ := ok_of_bind hrun
  obtain ⟨outputs, e, hbranches, hrun⟩ := ok_of_bind hrun
  have hpassing : Passing S ix (reserveSlot ⟨p, n⟩) :=
    (Passing.closed S ix).reserveSlot ⟨p, n⟩ (Passing.admits hself)
  have hc₀ := (passage_of_passing hpassing hc hslot).index.trans hc
  have hancestors := ancestors_of_passing hpassing hc hslot
  refine ⟨outputs, c₀, e, hslot, .reserveSlot hself.zone hslot, hancestors, ?_, hbranches, hrun⟩
  rw [← hancestors]
  refine ancestors_of_passing (passing_onBranches hnotes hn fun o ho ↦ hadmits o ?_) hc₀ hbranches
  rw [Node.printed_eq]
  exact List.mem_append_left _ ho

omit hadmits in
/-- A tree on a branch is printed after some others and before the rest. -/
theorem ok_of_onBranch_child {outs : List (Option String)}
    (hb : b = .caption → printsCaption n = true)
    (hrun : onBranch config (definitionText config depth) ⟨p, n⟩ b c = (.ok outs, d))
    {i : Nat} {m : Node} (hm : (n.branch b)[i]? = some m)
    (hadmits : ∀ o ∈ n.printedOn p b, S.Admits o) :
    ∃ before c' output d' after,
      n.printedOn p b = before ++ m.printed (p.down b i) ++ after ∧
        Leads S.zoneAt ix before c c' ∧
          c' = arrivalOnBranch config (definitionText config depth) ⟨p, n⟩ b i c ∧
            c'.ancestors = (if b = .children then ⟨p, n⟩ :: c.ancestors else c.ancestors) ∧
            node config (definitionText config depth) (p.down b i) m c' = (.ok output, d') ∧
              Leads S.zoneAt ix after d' d ∧ outs[i]? = some output := by
  have hbelow := ((Node.isProper_iff n).mp hn).2 b
  have hprinted : n.printedOn p b = Node.printedIn p b 0 (n.branch b) :=
    if_neg fun ⟨hcaption, hnone⟩ ↦ by simp [hb hcaption] at hnone
  rw [hprinted] at hadmits
  obtain ⟨d₀, hall, above, rfl⟩ := ok_of_onBranch hb hrun
  obtain ⟨first, c', output, d', last, hfirst, hnode, hlast, houtput⟩ := ok_of_all hbelow hm hall
  rw [Nat.zero_add] at hnode hlast
  have hsplit := Node.printedIn_eq_of_getElem? (p := p) (b := b) (i := 0) hm
  rw [Nat.zero_add] at hsplit
  rw [hsplit] at hadmits
  have htake : ∀ k ∈ (n.branch b).take i, k.isProper = true :=
    fun k hk ↦ hbelow k (List.mem_of_mem_take hk)
  refine ⟨_, c', output, d', _, hprinted.trans hsplit, ?_, ?_, ?_, hnode, ?_, houtput⟩
  · exact (Leads.all htake hfirst).of_above
  · rw [arrivalOnBranch]
    exact (congrArg Prod.snd hfirst).symm
  · have hpassing : Passing S ix (all config (definitionText config depth) p b 0
        ((n.branch b).take i)) := by
      refine .all config hnotes htake (fun o ho ↦ hadmits o ?_) depth
      exact List.mem_append_left _ (List.mem_append_left _ ho)
    exact ancestors_of_passing (c := { c with ancestors := _ }) hpassing hc hfirst
  · exact (Leads.all (fun k hk ↦ hbelow k (List.mem_of_mem_drop hk)) hlast).of_ancestors

end

/-- What becomes of a tree one step below a node when the node is printed: what is printed before
it, the run of its own, what is printed after it, and the node with its output. -/
structure ChildRun (config : Config) (depth : Nat) (zoneAt : Place → Zone) (ix : LinkIndex)
    (p : Place) (n : Node) (b : Branch) (i : Nat) (m : Node) (c d : Context)
    (output : Option String) (before after : List Occurrence) (c' d' e : Context)
    (output' : Option String) (outputs : Branch → List (Option String)) : Prop where
  printed : n.printed p = before ++ m.printed (p.down b i) ++ (after ++ [⟨p, n⟩])
  before : Leads zoneAt ix before c c'
  arrival : c' = Render.arrival config (definitionText config depth) ⟨p, n⟩ b i c
  departure : e = Render.departure config (definitionText config depth) ⟨p, n⟩ c
  above : c'.ancestors = if b = .children then ⟨p, n⟩ :: c.ancestors else c.ancestors
  run : node config (definitionText config depth) (p.down b i) m c' = (.ok output', d')
  after : Leads zoneAt ix after d' e
  ancestors : e.ancestors = c.ancestors
  transcribed : transcribeElement config (definitionText config depth) ⟨p, n⟩
    (.ofOutputs n outputs) e = (.ok output, d)
  output : (outputs b)[i]? = some output'

section

variable {S : Scope} {ix : LinkIndex} {depth : Nat} (hnotes : S.AdmitsNotes ix) {n : Node}
  (hn : n.isProper = true) (hadmits : ∀ o ∈ n.printed p, S.Admits o)
  (hc : c.references.index = ix) {output : Option String}
  (hrun : node config (definitionText config depth) p n c = (.ok output, d))

include hnotes hn hadmits hc hrun

/-- When a node is printed, all trees one step below that it prints are printed on the way. -/
theorem exists_childRuns :
    ∃ e outputs, e = departure config (definitionText config depth) ⟨p, n⟩ c ∧
      e.ancestors = c.ancestors ∧
        transcribeElement config (definitionText config depth) ⟨p, n⟩ (.ofOutputs n outputs) e =
            (.ok output, d) ∧
          ∀ b i m, (b = .caption → printsCaption n = true) → (n.branch b)[i]? = some m →
            ∃ before after c' d' output', ChildRun config depth S.zoneAt ix p n b i m c d output
              before after c' d' e output' outputs := by
  have hon : ∀ bs : List Branch, ∀ o ∈ bs.flatMap (n.printedOn p), S.Admits o := by
    intro bs o ho
    obtain ⟨b, -, ho⟩ := List.mem_flatMap.mp ho
    exact hadmits o (Node.mem_printed_iff.mpr (.inr ⟨b, ho⟩))
  obtain ⟨outputs, c₀, e, hreserve, hslot, habove, hancestors, hbranches, hself⟩ :=
    ok_of_node hnotes hn hadmits hc hrun
  have hdeparture : e = departure config (definitionText config depth) ⟨p, n⟩ c := by
    rw [departure, hreserve, hbranches]
  refine ⟨e, outputs, hdeparture, hancestors, hself, fun b i m hb hm ↦ ?_⟩
  obtain ⟨last, horder⟩ := Branch.exists_printOrder_eq b
  rw [horder] at hbranches
  obtain ⟨_, x, y, _, hbefore, hchild, hafter⟩ := ok_of_onBranches b.notMem_earlier hbranches
  have hc₀ := (hslot S rfl hnotes (by simp) hc).index.trans hc
  have hx := (Leads.onBranches hn hbefore S rfl hnotes (hon b.earlier) hc₀).index.trans hc₀
  have hxabove := ancestors_of_passing (passing_onBranches hnotes hn (hon b.earlier)) hc₀ hbefore
  obtain ⟨before, c', output', d', after, hsplit, hto, harrival, habove', hnode, hfrom, houtput⟩ :=
    ok_of_onBranch_child hnotes hn hx hb hchild hm fun o ho ↦
      hadmits o (Node.mem_printed_iff.mpr (.inr ⟨b, ho⟩))
  refine ⟨b.earlier.flatMap (n.printedOn p) ++ before, after ++ last.flatMap (n.printedOn p), c',
    d', output', ?_, ?_, ?_, hdeparture, ?_, hnode, ?_, hancestors, hself, houtput⟩
  · rw [Node.printed_eq, horder, List.flatMap_append, List.flatMap_cons, hsplit]
    simp only [List.append_assoc]
  · exact (hslot.trans (.onBranches hn hbefore)).trans hto
  · rw [harrival, arrival, hreserve, hbefore]
  · rw [habove', hxabove, habove]
  · exact hfrom.trans (.onBranches hn hafter)

/-- When a node is printed, each tree one step below that it prints is printed on the way. -/
theorem exists_childRun (hb : b = .caption → printsCaption n = true) {i : Nat} {m : Node}
    (hm : (n.branch b)[i]? = some m) :
    ∃ before after c' d' e output' outputs,
      ChildRun config depth S.zoneAt ix p n b i m c d output before after c' d' e output'
        outputs := by
  obtain ⟨e, outputs, -, -, -, hruns⟩ := exists_childRuns hnotes hn hadmits hc hrun
  obtain ⟨before, after, c', d', output', hchild⟩ := hruns b i m hb hm
  exact ⟨before, after, c', d', e, output', outputs, hchild⟩

end

end Typeset.Render

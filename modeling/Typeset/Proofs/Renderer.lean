import Mathlib.Data.List.Induction
import Typeset.Document
import Typeset.Proofs.Render.Slots
import Typeset.Proofs.Tree.Prepared

/-!
# Renderers that are used again

A renderer prints each document in a context of its own and keeps the context only if the document
could be printed. So it is always as if only the last such document had been printed, and all others
leave no trace. Warnings are told in the order in which they came up: whatever is printed records
its warnings behind those that are there, and does nothing else with them.
-/

namespace Typeset

open Action Context Render

variable {ix : LinkIndex} {C : ∀ ⦃α : Type⦄, Action α → Prop}

/-! ## Any trees -/

/-- The outputs of the children of a node. -/
def Render.childOutputs (config : Config) (expand : Occurrence → Action String) (p : Place)
    (n : Node) : Action (List (Option String)) := do
  check n.childrenFault?
  let outputs ← all config expand p .children 0 n.children
  checkOutputs n.children outputs
  return outputs

theorem Render.node_eq_within (config : Config) (expand : Occurrence → Action String) (p : Place)
    (n : Node) : node config expand p n = (do
      enter ⟨p, n⟩
      check (n.secondaryFault? .title)
      let titles ← all config expand p .title 0 n.title
      checkOutputs n.title titles
      check (n.secondaryFault? .tag)
      let tags ← all config expand p .tag 0 (n.tag.getD [])
      checkOutputs (n.tag.getD []) tags
      check (captionFault? n)
      let captions ←
        (if printsCaption n then all config expand p .caption 0 (n.caption.getD []) else pure [])
      checkOutputs (n.caption.getD []) captions
      let outputs ← within ⟨p, n⟩ (childOutputs config expand p n)
      transcribe config expand ⟨p, n⟩
        { title := Text.strip (spaced n.title titles)
          tag := Text.strip (spaced (n.tag.getD []) tags)
          caption := Text.strip (spaced (n.caption.getD []) captions)
          contents := spaced n.children outputs }) := by
  simp only [node_eq_steps, within, childOutputs, bind_assoc, pure_bind]

namespace Action.Closed

variable (h : Closed ix C) (hadmits : ∀ o : Occurrence, o.Admits C) (config : Config)

include h

theorem checkOutputs (ns : List Node) (outputs : List (Option String)) :
    C (Render.checkOutputs ns outputs) := h.bind (h.ask fun _ _ ↦ rfl) fun _ ↦ h.check _

theorem allOfAny {expand : Occurrence → Action String} {ns : List Node}
    (hnode : ∀ n ∈ ns, ∀ p, C (Render.node config expand p n)) (p : Place) (b : Branch) (i : Nat) :
    C (Render.all config expand p b i ns) := by
  induction ns generalizing i with
  | nil => exact h.pure []
  | cons n ns ih =>
    refine h.bind (hnode n List.mem_cons_self _) fun _ ↦ h.bind (h.check _) fun _ ↦ ?_
    exact h.bind (ih (fun m hm ↦ hnode m (.tail _ hm)) (i + 1)) fun _ ↦ h.pure _

include hadmits

theorem enter (o : Occurrence) : C (Render.enter o) := by
  refine h.bind (h.check _) fun _ ↦ ?_
  split
  · exact h.pure ()
  · next hzone => exact (hadmits o).reserve hzone

variable {expand : Occurrence → Action String} (hexpand : ∀ e ∈ ix.footnotes, C (expand e.2))

include hexpand

theorem transcribe (o : Occurrence) (parts : Parts) :
    C (Render.transcribe config expand o parts) := by
  refine h.bind (h.ask fun _ _ ↦ rfl) fun inMath ↦ h.bind (h.check _) fun _ ↦ ?_
  split
  · exact h.pure none
  · exact h.pure (some "")
  · exact h.transcribeElement config o hexpand (hadmits o) parts

/-- Printing any tree has the property if all occurrences let it. -/
theorem nodeOfAny (p : Place) (n : Node) : C (Render.node config expand p n) := by
  induction n using Node.induction generalizing p with
  | step n ih =>
    have hall : ∀ b, C (Render.all config expand p b 0 (n.branch b)) :=
      fun b ↦ h.allOfAny config (fun m hm q ↦ ih b m hm q) p b 0
    have hcaption : C (if printsCaption n then
        Render.all config expand p .caption 0 (n.caption.getD []) else pure []) := by
      split
      · exact hall .caption
      · exact h.pure []
    have hchildren : C (Render.childOutputs config expand p n) :=
      h.bind (h.check _) fun _ ↦ h.bind (hall .children) fun _ ↦
        h.bind (h.checkOutputs _ _) fun _ ↦ h.pure _
    rw [node_eq_within]
    refine h.bind (h.enter hadmits _) fun _ ↦ h.bind (h.check _) fun _ ↦ ?_
    refine h.bind (hall .title) fun _ ↦ h.bind (h.checkOutputs _ _) fun _ ↦ ?_
    refine h.bind (h.check _) fun _ ↦ h.bind (hall .tag) fun _ ↦ ?_
    refine h.bind (h.checkOutputs _ _) fun _ ↦ h.bind (h.check _) fun _ ↦ ?_
    refine h.bind hcaption fun _ ↦ h.bind (h.checkOutputs _ _) fun _ ↦ ?_
    exact h.bind (h.within _ hchildren) fun _ ↦ h.transcribe hadmits config hexpand _ _

omit hexpand in
theorem definitionTextOfAny (depth : Nat) (d : Occurrence) :
    C (Render.definitionText config depth d) := by
  induction depth generalizing d with
  | zero => exact h.pure ""
  | succ depth ih =>
    refine h.bind (h.check _) fun _ ↦ h.bind ?_ fun _ ↦ h.bind (h.checkOutputs _ _) fun _ ↦ h.pure _
    exact h.allOfAny config (fun n _ p ↦ h.nodeOfAny hadmits config (fun e _ ↦ ih e.2) p n) _ _ _

omit hexpand in
/-- Printing any occurrence has the property if all occurrences let it. -/
theorem occurrence (o : Occurrence) : C (Render.occurrence config o) :=
  h.bind (h.ask fun _ _ ↦ rfl) fun depth ↦
    h.nodeOfAny hadmits config (fun e _ ↦ h.definitionTextOfAny hadmits config depth e.2) _ _

end Action.Closed

/-! ## Warnings -/

/-- The context with other warnings before its own. -/
def Context.behind (c : Context) (ws : List String) : Context :=
  { c with warnings := ws ++ c.warnings }

/-- The slots as they are, and other warnings before those that are there. -/
def Overlay.behind (ws : List String) : Overlay :=
  ⟨id, (ws ++ ·), fun _ _ ↦ (List.append_assoc ..).symm⟩

theorem Occurrence.admits_behind (ix : LinkIndex) (o : Occurrence) :
    o.Admits fun _ x ↦ Ignores Overlay.behind ix x where
  reserve _ := by
    intro c hc
    cases hget : c.buffers.get? o.node.zone <;>
      simp [Context.reserve, hget, hc, overlaid, Overlay.behind, Context.slots]
  route _ text := by
    intro c hc
    cases hget : c.buffers.get? o.node.zone with
    | none => simp [Context.route, hget, hc, overlaid, Overlay.behind, Context.slots]
    | some chunks =>
      cases hslot : c.reservations.lookup o.place with
      | none => simp [Context.route, hget, hslot, hc, overlaid, Overlay.behind, Context.slots]
      | some slot =>
        by_cases hlt : slot < chunks.length <;>
          simp [Context.route, hget, hslot, hlt, hc, overlaid, Overlay.behind, Context.slots]
  release := .release o.place

/-- What is printed of an occurrence is the same whatever warnings are there already, and its own
come behind them. -/
theorem Render.occurrence_behind (config : Config) (o : Occurrence) (c : Context)
    (ws : List String) :
    occurrence config o (c.behind ws) =
      ((occurrence config o c).1, (occurrence config o c).2.behind ws) :=
  ((Ignores.closed Overlay.behind _).occurrence (Occurrence.admits_behind _) config o c rfl).2 ws

/-! ## Calls one after the other -/

namespace Renderer

/-- The renderer when it has been called with some documents. -/
def after (r : Renderer) (docs : List Node) : Renderer :=
  docs.foldl (fun r doc ↦ (r.render doc).2) r

/-- What comes of each call with some documents, and the warnings that are told after it. -/
def calls (r : Renderer) : List Node → List (Except Failure String × List String)
  | [] => []
  | doc :: docs => ((r.render doc).1, (r.render doc).2.warnings) :: (r.render doc).2.calls docs

/-- The last one of some documents that a fresh renderer can print. -/
def lastPrinted? (config : Config) (docs : List Node) : Option Node :=
  docs.reverse.find? fun doc ↦ ((ofConfig config).render doc).1.isOk

/-- The warnings that a fresh renderer collects for the last one of some documents that it can
print. -/
def lastWarnings (config : Config) (docs : List Node) : List String :=
  match lastPrinted? config docs with
  | some doc => ((ofConfig config).render doc).2.warnings
  | none => []

variable {r : Renderer} {doc : Node}

theorem render_of_ok {text : String} {c : Context}
    (h : Render.document r.config doc = .ok (text, c)) :
    r.render doc = (.ok text, ⟨r.config, some c⟩) := by
  rw [render, h]

theorem render_of_error {e : Failure} (h : Render.document r.config doc = .error e) :
    r.render doc = (.error e, r) := by
  rw [render, h]

/-- A call gives what it gives on a fresh renderer, and leaves what it leaves there, or the renderer
as it was. -/
theorem render_cases (r : Renderer) (doc : Node) :
    (∃ text, ((ofConfig r.config).render doc).1 = .ok text ∧
      r.render doc = (ofConfig r.config).render doc) ∨
        ∃ e, ((ofConfig r.config).render doc).1 = .error e ∧ r.render doc = (.error e, r) := by
  cases h : Render.document r.config doc with
  | ok printed =>
    have hfresh := render_of_ok (r := ofConfig r.config) h
    exact .inl ⟨printed.1, by rw [hfresh], by rw [hfresh, render_of_ok h]; rfl⟩
  | error e =>
    exact .inr ⟨e, by rw [render_of_error (r := ofConfig r.config) h], render_of_error h⟩

theorem config_after (r : Renderer) (docs : List Node) : (r.after docs).config = r.config := by
  induction docs generalizing r with
  | nil => rfl
  | cons doc docs ih =>
    refine (ih (r.render doc).2).trans ?_
    cases h : Render.document r.config doc with
    | ok printed => rw [render_of_ok h]
    | error e => rw [render_of_error h]

theorem after_append (r : Renderer) (before docs : List Node) :
    r.after (before ++ docs) = (r.after before).after docs := List.foldl_append

theorem calls_append (r : Renderer) (before docs : List Node) :
    r.calls (before ++ docs) = r.calls before ++ (r.after before).calls docs := by
  induction before generalizing r with
  | nil => rfl
  | cons doc before ih => exact congrArg _ (ih (r.render doc).2)

theorem length_calls (r : Renderer) (docs : List Node) : (r.calls docs).length = docs.length := by
  induction docs generalizing r with
  | nil => rfl
  | cons doc docs ih => exact congrArg (· + 1) (ih (r.render doc).2)

/-- After any calls the renderer is as if only the last document that can be printed had been. -/
theorem after_ofConfig (config : Config) (docs : List Node) :
    (ofConfig config).after docs = match lastPrinted? config docs with
      | some doc => ((ofConfig config).render doc).2
      | none => ofConfig config := by
  induction docs using List.reverseRecOn with
  | nil => rfl
  | append_singleton docs doc ih =>
    have hlast : lastPrinted? config (docs ++ [doc]) =
        if ((ofConfig config).render doc).1.isOk then some doc else lastPrinted? config docs := by
      rw [lastPrinted?, List.reverse_append, List.reverse_singleton, List.singleton_append,
        List.find?_cons]
      split <;> simp_all [lastPrinted?]
    have hcall := render_cases ((ofConfig config).after docs) doc
    rw [show ((ofConfig config).after docs).config = config from config_after _ docs] at hcall
    rw [after_append, hlast]
    show (((ofConfig config).after docs).render doc).2 = _
    rcases hcall with ⟨text, hok, hrender⟩ | ⟨e, herror, hrender⟩
    · rw [hrender, hok]
      rfl
    · rw [hrender, herror]
      exact ih

theorem warnings_after (config : Config) (docs : List Node) :
    ((ofConfig config).after docs).warnings = lastWarnings config docs := by
  rw [after_ofConfig, lastWarnings]
  cases lastPrinted? config docs <;> rfl

/-- The warnings about a document are those of the walk and then those about its template. -/
theorem exists_walk_of_ok {config : Config} {text : String}
    (h : ((ofConfig config).render doc).1 = .ok text) :
    ∃ references body c warnings, References.empty.add? (.ofRoot 0) doc = .ok references ∧
      occurrence config ⟨.ofRoot 0, doc⟩ (.ofReferences references) = (.ok body, c) ∧
      Assembly.assemble config (body.getD "") c.buffers.chunks config.template doc.properties =
        .ok (text, warnings) ∧
      ((ofConfig config).render doc).2.warnings = c.warnings ++ warnings := by
  cases hdocument : Render.document config doc with
  | error e =>
    rw [render_of_error (r := ofConfig config) hdocument] at h
    cases h
  | ok printed =>
    have hrender := render_of_ok (r := ofConfig config) hdocument
    rw [hrender] at h ⊢
    obtain rfl := Except.ok.inj h
    obtain ⟨references, hreferences, hdocument⟩ := exists_of_bind_eq_ok hdocument
    cases hwalk : occurrence config ⟨.ofRoot 0, doc⟩ (.ofReferences references) with
    | mk result c =>
      rw [hwalk] at hdocument
      cases result with
      | error e => cases hdocument
      | ok body =>
        obtain ⟨⟨text, warnings⟩, hassemble, hdocument⟩ := exists_of_bind_eq_ok hdocument
        cases hdocument
        exact ⟨references, body, c, warnings, hreferences, hwalk, hassemble, rfl⟩

/-- Whatever a renderer has been called with, in whatever order, a call gives the text or the
failure that it gives on a fresh renderer, and the warnings told after it are those that a fresh
renderer collects for the last document that could be printed, if there has been one. Without a call
that fails, all others give and tell the same. The warnings about a document are those of the walk
and then those about its template, and the walk records them one behind the other, whether it fails
or not. -/
theorem each_call_starts_afresh (config : Config) (before after : List Node) (doc : Node) :
    ((ofConfig config).after before).warnings = lastWarnings config before ∧
      ((ofConfig config).calls (before ++ doc :: after))[before.length]? =
        some (((ofConfig config).render doc).1, lastWarnings config (before ++ [doc])) ∧
      (∀ e, ((ofConfig config).render doc).1 = .error e →
        ((ofConfig config).calls (before ++ doc :: after)).eraseIdx before.length =
          (ofConfig config).calls (before ++ after)) ∧
      (∀ text, ((ofConfig config).render doc).1 = .ok text →
        ∃ references body c warnings, References.empty.add? (.ofRoot 0) doc = .ok references ∧
          occurrence config ⟨.ofRoot 0, doc⟩ (.ofReferences references) = (.ok body, c) ∧
          Assembly.assemble config (body.getD "") c.buffers.chunks config.template
            doc.properties = .ok (text, warnings) ∧
          ((ofConfig config).render doc).2.warnings = c.warnings ++ warnings) ∧
      ∀ o c ws, occurrence config o (Context.behind c ws) =
        ((occurrence config o c).1, (occurrence config o c).2.behind ws) := by
  have hcalls : (ofConfig config).calls (before ++ doc :: after) =
      (ofConfig config).calls before ++ (((((ofConfig config).after before).render doc).1,
        lastWarnings config (before ++ [doc])) ::
          (((ofConfig config).after before).render doc).2.calls after) := by
    rw [calls_append, ← warnings_after, after_append]
    rfl
  have hlength := length_calls (ofConfig config) before
  have hcall := render_cases ((ofConfig config).after before) doc
  rw [show ((ofConfig config).after before).config = config from config_after _ before] at hcall
  refine ⟨warnings_after config before, ?_, fun e he ↦ ?_, fun _ ↦ exists_walk_of_ok,
    occurrence_behind config⟩
  · rw [hcalls, List.getElem?_append_right (Nat.le_of_eq hlength), hlength, Nat.sub_self,
      List.getElem?_cons_zero]
    rcases hcall with ⟨text, -, hrender⟩ | ⟨e, herror, hrender⟩
    · rw [hrender]
    · rw [hrender, herror]
  · rcases hcall with ⟨text, hok, -⟩ | ⟨e', -, hrender⟩
    · rw [hok] at he
      cases he
    · rw [hcalls, hrender, List.eraseIdx_append_of_length_le (Nat.le_of_eq hlength), hlength,
        Nat.sub_self, calls_append]
      rfl

/-- A document with one paragraph that holds one node. -/
def paragraphOf (e : Element) : Node :=
  ⟨⟨.unknown, 0, none, [], .document [], []⟩, [paragraph], [], none, none⟩
where
  paragraph : Node :=
    ⟨⟨.unknown, 0, none, [], .paragraph, []⟩, [.inline .unknown 0 e []], [], none, none⟩

/-- A renderer without its template that comes to a node that cannot be printed. -/
theorem unprintable_starts_afresh :
    let r := ofConfig { Config.default with template := .str "x" }
    let first := paragraphOf (.text "a")
    let unprintable := paragraphOf .bareInline
    let last := paragraphOf (.text "b")
    (r.render unprintable).1 = .error (.unprintableKind "InlineNode" .unknown) ∧
      (r.calls [first, unprintable, last])[1]? =
        some (.error (.unprintableKind "InlineNode" .unknown),
          ["No template named 'x'; using the minimal template"]) ∧
      (r.calls [first, unprintable, last]).eraseIdx 1 = r.calls [first, last] := by
  intro r first unprintable last
  have hfails : (r.render unprintable).1 = .error (.unprintableKind "InlineNode" .unknown) := rfl
  have hwarns : (r.render first).2.warnings =
      ["No template named 'x'; using the minimal template"] := rfl
  have hlast : lastPrinted? r.config ([first] ++ [unprintable]) = some first := rfl
  obtain ⟨-, hcall, herase, -⟩ := each_call_starts_afresh r.config [first] [last] unprintable
  have hr : ofConfig r.config = r := rfl
  rw [lastWarnings, hlast] at hcall
  simp only [hr] at hcall herase
  rw [hfails, hwarns] at hcall
  exact ⟨hfails, hcall, herase _ hfails⟩

end Renderer

end Typeset

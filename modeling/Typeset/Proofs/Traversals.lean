import Typeset.Proofs.Tree.Ascent
import Typeset.Proofs.Tree.Faultless
import Typeset.Tree.Edit

/-!
# Visits and edits see the same nodes

In a well-typed document a visit comes to every place once, from the top down, and an edit calls its
function once for every place, from the bottom up. An edit whose function changes nothing leaves the
document as it is, and what it skips are just the nodes of the skipped kinds with all below them.
-/

namespace Typeset.Node

/-! ## The calls of an edit -/

/-- Actions that note nodes, the last one first. -/
abbrev Tracing := ExceptT Failure (StateM (List Node))

/-- A function that notes what it is called for. -/
def tracing (f : Node → Except Failure (Option Node)) (n : Node) : Tracing (Option Node) := do
  modify (n :: ·)
  liftExcept (f n)

/-- An edit that notes the calls of its function. -/
def notedEdit (skip : Node → Bool) (f : Node → Except Failure (Option Node)) :
    Node → Tracing (Option Node) :=
  editM (fun b n ↦ liftExcept (n.editGate b)) skip (tracing f)

/-- What an edit makes of a document, and the nodes that its function is called for, in order. -/
def edited (skip : Node → Bool) (f : Node → Except Failure (Option Node)) (doc : Node) :
    Except Failure Node × List Node :=
  let (left, calls) := (doc.notedEdit skip f).run.run []
  (left.bind asDocument, calls.reverse)

/-! ## What actions give and note -/

/-- An action gives a value and notes some nodes, in order. -/
def Gives {α : Type} (x : Tracing α) (calls : List Node) (a : α) : Prop :=
  ∀ noted, x.run.run noted = (.ok a, calls.reverse ++ noted)

section Gives

variable {α β : Type} {x : Tracing α} {k : α → Tracing β} {calls calls' : List Node} {a : α} {b : β}

theorem gives_pure (a : α) : Gives (pure a) [] a := fun _ ↦ rfl

theorem Gives.bind (h : Gives x calls a) (h' : Gives (k a) calls' b) :
    Gives (x >>= k) (calls ++ calls') b := by
  intro noted
  rw [List.reverse_append, List.append_assoc, ← h' (calls.reverse ++ noted), ExceptT.run_bind,
    StateT.run_bind, h noted]
  rfl

theorem Gives.map (h : Gives x calls a) (g : α → β) : Gives (g <$> x) calls (g a) := by
  intro noted
  rw [ExceptT.run_map, StateT.run_map, h noted]
  rfl

/-- An action in front that gives its value without noting anything. -/
theorem Gives.after {y : Tracing Unit} (hy : Gives y [] ()) (h : Gives x calls a) :
    Gives (y >>= fun _ ↦ x) calls a :=
  hy.bind h

theorem gives_tracing {f : Node → Except Failure (Option Node)} {n : Node} {left : Option Node}
    (h : f n = .ok left) : Gives (tracing f n) [n] left := by
  intro noted
  rw [tracing, h]
  rfl

end Gives

/-! ## What an edit gives and notes -/

/-- The node with what is left of each tree one step below it. -/
def keeping (left : Node → Option Node) (n : Node) : Node :=
  ⟨n.info, n.children.filterMap left, n.title.filterMap left, n.tag.map (List.filterMap left),
    n.caption.map (List.filterMap left)⟩

theorem gives_editGate {n : Node} (h : n.isProper = true) (b : Branch) :
    Gives (liftExcept (n.editGate b)) [] () := by
  have hfault : n.editFault? b = none := by
    simp [editFault?, textFault?_eq_none h, h]
  rw [editGate, hfault]
  exact gives_pure ()

section Edit

variable {skip : Node → Bool} {f : Node → Except Failure (Option Node)} {left : Node → Option Node}

theorem gives_notedEdit_of_skip {n : Node} (h : skip n = true) :
    Gives (n.notedEdit skip f) [] (some n) := by
  obtain ⟨info, children, title, tag, caption⟩ := n
  rw [notedEdit, editM, if_pos h]
  exact gives_pure _

theorem gives_editAllM {ns : List Node} {calls : Node → List Node}
    (h : ∀ m ∈ ns, Gives (m.notedEdit skip f) (calls m) (left m))
    (hnull : ∀ m ∈ ns, ∀ k, left m = some k → k.isNull = false) :
    Gives (editAllM (fun b n ↦ liftExcept (n.editGate b)) skip (tracing f) ns)
      (ns.flatMap calls) (ns.filterMap left) := by
  induction ns with
  | nil => exact gives_pure []
  | cons n ns ih =>
    have hfirst := h n List.mem_cons_self
    have hrest := ih (fun m hm ↦ h m (.tail _ hm)) fun m hm ↦ hnull m (.tail _ hm)
    have hkept : ((left n).filter fun n ↦ !n.isNull).toList ++ ns.filterMap left =
        (n :: ns).filterMap left := by
      rw [List.filterMap_cons]
      cases hleft : left n with
      | none => rfl
      | some k =>
        have := hnull n List.mem_cons_self k hleft
        simp [Option.filter, this]
    rw [editAllM, List.flatMap_cons, ← hkept]
    refine hfirst.bind ?_
    rw [← List.append_nil (ns.flatMap calls)]
    exact hrest.bind (gives_pure _)

theorem gives_editAllM? {ns : Option (List Node)} {calls : Node → List Node}
    (h : ∀ m ∈ ns.getD [], Gives (m.notedEdit skip f) (calls m) (left m))
    (hnull : ∀ m ∈ ns.getD [], ∀ k, left m = some k → k.isNull = false) :
    Gives (editAllM? (fun b n ↦ liftExcept (n.editGate b)) skip (tracing f) ns)
      ((ns.getD []).flatMap calls) (ns.map (List.filterMap left)) := by
  cases ns with
  | none => exact gives_pure none
  | some ns => exact (gives_editAllM h hnull).map some

/-- An edit calls its function for what stands below a node and then for the node with what is left
of that. -/
theorem gives_notedEdit {n : Node} {kept : Option Node} {calls : Branch → Node → List Node}
    (hn : n.isProper = true) (hskip : skip n = false)
    (h : ∀ b, ∀ m ∈ n.branch b, Gives (m.notedEdit skip f) (calls b m) (left m))
    (hnull : ∀ b, ∀ m ∈ n.branch b, ∀ k, left m = some k → k.isNull = false)
    (hf : f (n.keeping left) = .ok kept) :
    Gives (n.notedEdit skip f)
      ((Branch.all.flatMap fun b ↦ (n.branch b).flatMap (calls b)) ++ [n.keeping left]) kept := by
  have hcalls : (Branch.all.flatMap fun b ↦ (n.branch b).flatMap (calls b)) ++ [n.keeping left] =
      n.children.flatMap (calls .children) ++ (n.title.flatMap (calls .title) ++
        ((n.tag.getD []).flatMap (calls .tag) ++ ((n.caption.getD []).flatMap (calls .caption) ++
          [n.keeping left]))) := by
    simp [Branch.all]
  rw [hcalls]
  have hgate := gives_editGate hn
  have hchildren := gives_editAllM (h .children) (hnull .children)
  have htitle := gives_editAllM (h .title) (hnull .title)
  have htag := gives_editAllM? (h .tag) (hnull .tag)
  have hcaption := gives_editAllM? (h .caption) (hnull .caption)
  obtain ⟨info, children, title, tag, caption⟩ := n
  rw [notedEdit, editM, if_neg (by rw [hskip]; exact Bool.false_ne_true)]
  refine (hgate .children).after (hchildren.bind ?_)
  refine (hgate .title).after (htitle.bind ?_)
  refine (hgate .tag).after (htag.bind ?_)
  exact (hgate .caption).after (hcaption.bind (gives_tracing hf))

end Edit

variable {skip : Node → Bool} {n : Node}

/-! ## The nodes of an ascent -/

/-- The nodes of a tree in the order of an ascent. -/
def climb (skip : Node → Bool) (n : Node) : List Node :=
  (n.ascent skip (.ofRoot 0)).map Occurrence.node

/-- The nodes of an ascent are the same wherever the tree stands. -/
theorem map_node_ascent (p : Place) : (n.ascent skip p).map Occurrence.node = n.climb skip := by
  suffices h : ∀ q, (n.ascent skip p).map Occurrence.node =
      (n.ascent skip q).map Occurrence.node from h _
  induction n using Node.induction generalizing p with
  | step n ih =>
    intro q
    have hgather : ∀ r, (gather (ascent skip) r n).map Occurrence.node =
        Branch.all.flatMap fun b ↦ (n.branch b).flatMap (climb skip) :=
      fun r ↦ map_gather fun b m hm r' ↦ ih b m hm r' (.ofRoot 0)
    rw [ascent_eq_gather, ascent_eq_gather]
    split
    · rfl
    · rw [List.map_append, List.map_append, hgather, hgather]
      rfl

theorem climb_of_skip (h : skip n = true) : n.climb skip = [] := by
  rw [climb, ascent_eq_gather, if_pos h, List.map_nil]

theorem climb_eq (h : skip n = false) :
    n.climb skip = (Branch.all.flatMap fun b ↦ (n.branch b).flatMap (climb skip)) ++ [n] := by
  have hgather : (gather (ascent skip) (.ofRoot 0) n).map Occurrence.node =
      Branch.all.flatMap fun b ↦ (n.branch b).flatMap (climb skip) :=
    map_gather fun _ _ _ q ↦ map_node_ascent q
  rw [climb, ascent_eq_gather, if_neg (by rw [h]; exact Bool.false_ne_true), List.map_append,
    hgather]
  rfl

/-! ## Edits that change nothing -/

theorem keeping_some (n : Node) : n.keeping some = n := by
  obtain ⟨info, children, title, tag, caption⟩ := n
  cases tag <;> cases caption <;> simp [keeping]

theorem isNull_eq_false_of_isProper (h : n.isProper = true) : n.isNull = false :=
  beq_eq_false_iff_ne.mpr (element_ne_foreign h .null)

/-- A function that gives back what it is called for leaves a proper tree as it is, and is called
for the nodes of an ascent. -/
theorem gives_unchanged (h : n.isProper = true) :
    Gives (n.notedEdit skip fun m ↦ .ok (some m)) (n.climb skip) (some n) := by
  induction n using Node.induction with
  | step n ih =>
    cases hskip : skip n with
    | true =>
      rw [climb_of_skip hskip]
      exact gives_notedEdit_of_skip hskip
    | false =>
      have hbelow := ((isProper_iff n).mp h).2
      have hnull : ∀ b, ∀ m ∈ n.branch b, ∀ k, some m = some k → k.isNull = false := by
        rintro b m hm k ⟨⟩
        exact isNull_eq_false_of_isProper (hbelow b m hm)
      have hkept := gives_notedEdit h hskip (fun b m hm ↦ ih b m hm (hbelow b m hm))
        hnull rfl
      rw [keeping_some] at hkept
      rwa [climb_eq hskip]

theorem edited_unchanged (h : n.isProper = true) (hkind : n.kind = .document)
    (skip : Node → Bool) :
    n.edited skip (fun m ↦ .ok (some m)) = (.ok n, n.climb skip) := by
  have hgives : Gives (n.notedEdit skip fun m ↦ .ok (some m)) (n.climb skip) (some n) :=
    gives_unchanged h
  rw [edited, hgives []]
  simp [Except.bind, asDocument, hkind]

/-! ## Visits and edits -/

/-- The occurrences that a visit of a document comes to, and those for which an edit calls its
function if it gives back what it is called for. -/
structure IsSeenAs (doc : Node) (visited called : List Occurrence) : Prop where
  /-- The visit is not stopped. -/
  events : doc.events (.ofRoot 0) = visited.map .enter
  visit : doc.visit? = .ok (visited.map Occurrence.node)
  /-- It comes to each place of the document once. -/
  nodup : (visited.map Occurrence.place).Nodup
  mem_iff : ∀ o, o ∈ visited ↔ o.place.root = 0 ∧ doc.at? o.place.steps = some o.node
  /-- The edit comes to the same places, each of them once. -/
  perm : called.Perm visited
  precedes : visited.Pairwise Occurrence.Precedes
  ascends : called.Pairwise Occurrence.Ascends
  edited : doc.edited (fun _ ↦ false) (fun n ↦ .ok (some n)) = (.ok doc, called.map Occurrence.node)
  /-- What it skips are the nodes of the skipped kinds and all that stands below them. -/
  editedOutside : ∀ skipped : Kind → Bool,
    doc.edited (fun n ↦ skipped n.kind) (fun n ↦ .ok (some n)) =
      (.ok doc, (called.filter fun o ↦
        !doc.isSkippedAt (fun n ↦ skipped n.kind) o.place.steps).map Occurrence.node)

theorem visit?_eq_visit (h : n.isProper = true) : n.visit? = .ok n.visit := by
  have hfault : n.visitFault? = none := by
    rw [visitFault?, events_eq_map_enter h, List.findSome?_eq_none_iff]
    intro e he
    obtain ⟨o, -, rfl⟩ := List.mem_map.mp he
    rfl
  rw [visit?, hfault]

/-- A visit of a well-typed document comes to each node once, before all that stands below it. An
edit that changes nothing leaves the document as it is, and its function is called once for each of
these nodes, after all that stands below it, or for those that are neither skipped nor below a
skipped one. -/
theorem visit_and_edit_see_each_node_once {doc : Node} (h : doc.isWellTyped = true)
    (hkind : doc.kind = .document) : ∃ visited called, doc.IsSeenAs visited called := by
  have hproper := isProper_of_isWellTyped h
  refine ⟨doc.occurrences (.ofRoot 0), doc.ascent (fun _ ↦ false) (.ofRoot 0), ?_⟩
  exact {
    events := events_eq_map_enter hproper _
    visit := visit?_eq_visit hproper
    nodup := nodup_occurrences _ _
    mem_iff := fun o ↦ mem_occurrences_iff_at? 0 doc
    perm := ascent_perm_occurrences _ _
    precedes := pairwise_occurrences _ _
    ascends := pairwise_ascent _ _ _
    edited := edited_unchanged hproper hkind _
    editedOutside := fun skipped ↦ by
      rw [filter_ascent]
      exact edited_unchanged hproper hkind _ }

/-- A glossary of one entry: its tag is a text, its meaning a bold text with a caption. -/
def glossary : Node :=
  let word : Node := .inline .unknown 0 (.text "word") []
  let meaning : Node := ⟨⟨.unknown, 0, none, [], .paragraph, []⟩,
    [.inline .unknown 0 .bold [word]], [], none, some [word]⟩
  let entry : Node := ⟨⟨.unknown, 0, none, [], .item none none, []⟩,
    [meaning], [], some [word], none⟩
  let list : Node := ⟨⟨.unknown, 0, none, [], .plainList .descriptive, []⟩, [entry], [], none, none⟩
  ⟨⟨.unknown, 0, none, [], .document [], []⟩, [list], [], none, none⟩

theorem glossary_nodes_are_seen_once :
    glossary.isWellTyped = true ∧ glossary.kind = .document ∧
      ∃ visited called, glossary.IsSeenAs visited called := by
  have htyped : glossary.isWellTyped = true := by decide
  exact ⟨htyped, rfl, visit_and_edit_see_each_node_once htyped rfl⟩

end Typeset.Node

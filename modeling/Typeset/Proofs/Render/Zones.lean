import Typeset.Document
import Typeset.Proofs.Render.Follows
import Typeset.Proofs.Resolution

/-!
# Zones hold their headings in order

Printing leaves the same texts in the buffers of the zones as a walk that knows nothing of slots
and puts the text of each heading before the texts of the headings below it.
-/

namespace Typeset

open Action Context Render

variable {α β : Type} {ix : LinkIndex} {depth : Nat}

/-! ## The walk without slots -/

/-- The heading of a zone that a node is. -/
def Node.zoneHeading? (n : Node) : Option Heading :=
  match n.element with
  | .heading h => if n.zone = .body then none else some h
  | _ => none

/-- What a node adds to the contents around it. A heading of a zone adds nothing, not even the
blank space after it. -/
def Node.addition (n : Node) (output : Option String) : String :=
  if n.zone = .body then (output.map (· ++ blankAfter n)).getD "" else ""

mutual

/-- What a tree prints in its place, and the section texts of the headings of zones in it: each
heading comes before those below it, whatever their zones are. -/
def sections (config : Config) (expand : Occurrence → Action String) (p : Place) :
    Node → Action (Option String × Sections)
  | ⟨info, children, title, tag, caption⟩ => do
    let o : Occurrence := ⟨p, ⟨info, children, title, tag, caption⟩⟩
    let parts ← secondaryParts config expand o
    let (contents, below) ← within o (sectionsIn config expand p 0 children)
    match o.node.zoneHeading? with
    | some h =>
      let text ← sectionOf config o h (parts contents)
      return (none, (o, text) :: below)
    | none =>
      let output ← transcribeElement config expand o (parts contents)
      return (output, below)
termination_by structural n => n

/-- The contents that trees in a row make up, and the section texts of the headings of zones in
them. -/
def sectionsIn (config : Config) (expand : Occurrence → Action String) (p : Place) (index : Nat) :
    List Node → Action (String × Sections)
  | [] => pure ("", [])
  | n :: ns => do
    let (output, below) ← sections config expand (p.down .children index) n
    let (contents, more) ← sectionsIn config expand p (index + 1) ns
    return (n.addition output ++ contents, below ++ more)
termination_by structural ns => ns

end

namespace Node

theorem zoneHeading?_eq_some {n : Node} {h : Heading} (hn : n.zoneHeading? = some h) :
    n.element = .heading h ∧ n.zone ≠ .body := by
  unfold zoneHeading? at hn
  split at hn
  · next g hg =>
    split at hn
    · cases hn
    · next hzone =>
      obtain rfl := Option.some.inj hn
      exact ⟨hg, hzone⟩
  · cases hn

theorem zoneHeading?_eq_none {n : Node} (hn : n.zoneHeading? = none) : n.zone = .body := by
  unfold zoneHeading? at hn
  split at hn
  · split at hn
    · next hzone => exact hzone
    · cases hn
  · next hne =>
    unfold zone
    split
    · next g hg => exact absurd hg (hne g)
    · rfl

end Node

section

variable (config : Config) {expand : Occurrence → Action String}

/-- What is done without slots at a tree whose root is no heading of a zone. -/
theorem sections_of_none {p : Place} {n : Node} (h : n.zoneHeading? = none) :
    sections config expand p n = (do
      let parts ← secondaryParts config expand ⟨p, n⟩
      let (contents, below) ← within ⟨p, n⟩ (sectionsIn config expand p 0 n.children)
      let output ← transcribeElement config expand ⟨p, n⟩ (parts contents)
      return (output, below)) := by
  obtain ⟨info, children, title, tag, caption⟩ := n
  simp only [sections, h]

/-- What is done without slots at a heading of a zone. -/
theorem sections_of_some {p : Place} {n : Node} {g : Heading} (h : n.zoneHeading? = some g) :
    sections config expand p n = (fun r ↦ (none, (⟨p, n⟩, r.1) :: r.2)) <$> (do
      let parts ← secondaryParts config expand ⟨p, n⟩
      let (contents, below) ← within ⟨p, n⟩ (sectionsIn config expand p 0 n.children)
      let text ← sectionOf config ⟨p, n⟩ g (parts contents)
      return (text, below)) := by
  obtain ⟨info, children, title, tag, caption⟩ := n
  simp only [sections, h, map_eq_pure_bind, bind_assoc, pure_bind]

theorem output_of_zoneHeading {p : Place} {n : Node} (h : n.zone ≠ .body) {c d : Context}
    {output : Option String} {secs : Sections}
    (hrun : sections config expand p n c = (.ok (output, secs), d)) : output = none := by
  cases hn : n.zoneHeading? with
  | none => exact absurd (Node.zoneHeading?_eq_none hn) h
  | some g =>
    rw [sections_of_some config hn, map_eq_pure_bind] at hrun
    obtain ⟨r, d', -, hpure⟩ := ok_of_bind hrun
    cases hpure
    rfl

theorem Follows.within {α β : Type} {f : α → β} (o : Occurrence) {x : Action α}
    {y : Action (β × Sections)} (h : Follows ix depth f x y) :
    Follows ix depth f (Context.within o x) (Context.within o y) := by
  have hpop : ∀ a : α, IgnoresSlots ix (do let _ ← pop; return a) :=
    fun a ↦ (IgnoresSlots.closed ix).bind (.of_ignores .pop) fun _ ↦
      (IgnoresSlots.closed ix).pure a
  refine ignoring_bind (.of_ignores (.push o)) fun _ ↦ h.bind_ignoring hpop fun a secs ↦ ?_
  rw [map_eq_pure_bind, bind_assoc]
  rfl

variable (hexpand : ∀ e ∈ ix.footnotes, IgnoresSlots ix (expand e.2))

include hexpand

omit hexpand in
theorem spaced_cons (n : Node) (ns : List Node) {output : Option String}
    (houtput : n.zone ≠ .body → output = none) (outputs : List (Option String)) :
    spaced (n :: ns) (output :: outputs) = n.addition output ++ spaced ns outputs := by
  unfold Node.addition
  split
  · cases output <;> simp [spaced]
  · next hzone =>
    rw [houtput hzone]
    simp [spaced]

omit hexpand in
theorem follows_sectionsIn {ns : List Node} (hns : ∀ n ∈ ns, n.isProper = true) {p : Place}
    {i : Nat}
    (hnode : ∀ n ∈ ns, ∀ k, Follows ix (p.steps.length + 1) id
      (node config expand (p.down .children k) n) (sections config expand (p.down .children k) n)) :
    Follows ix (p.steps.length + 1) (spaced ns) (all config expand p .children i ns)
      (sectionsIn config expand p i ns) := by
  induction ns generalizing i with
  | nil => exact .of_ignoresSlots ((IgnoresSlots.closed ix).pure []) (spaced [])
  | cons n ns ih =>
    have ih := ih (i := i + 1) (fun m hm ↦ hns m (.tail _ hm)) fun m hm ↦ hnode m (.tail _ hm)
    rw [all_cons (hns n List.mem_cons_self)]
    refine (hnode n List.mem_cons_self i).bind (z := fun output ↦ do
      let (contents, more) ← sectionsIn config expand p (i + 1) ns
      return (n.addition output ++ contents, more)) ?_ ?_
    · rintro output ⟨c, secs, d, hrun⟩
      have houtput : n.zone ≠ .body → output = none :=
        fun hzone ↦ output_of_zoneHeading config hzone hrun
      refine ih.bind_ignoring (fun _ ↦ (IgnoresSlots.closed ix).pure _) fun outputs secs ↦ ?_
      show _ = pure (spaced (n :: ns) (output :: outputs), secs)
      rw [spaced_cons n ns houtput]
    · intro output secs
      simp only [map_eq_pure_bind, bind_assoc, pure_bind]
      rfl

omit hexpand in
/-- The title, the tag and the caption of a node hold inline objects only. So whatever lets nodes of
the body be printed lets these parts be. -/
theorem Action.Closed.secondaryPartsOfWellTyped {C : ∀ ⦃α : Type⦄, Action α → Prop}
    (h : Action.Closed ix C) (hadmits : ∀ o : Occurrence, o.node.zone = .body → o.Admits C)
    (hexpand : ∀ e ∈ ix.footnotes, C (expand e.2)) {p : Place} {n : Node}
    (hn : n.isWellTyped = true) : C (secondaryParts config expand ⟨p, n⟩) := by
  refine h.lasting.secondaryParts config ⟨p, n⟩ fun b hb _ ↦ ?_
  have hm : ∀ m ∈ n.branch b, m.isWellTyped = true ∧ m.kind.isBlock = false := fun m hm ↦
    ⟨(Node.isWellTyped_of_mem_branch hn hm).2,
      Node.isBlock_eq_false_of_mem_branch hn (.inr hb) hm⟩
  refine h.lasting.all config (fun m hmem ↦ Node.isProper_of_isWellTyped (hm m hmem).1) fun k m hk ↦ ?_
  obtain ⟨htyped, hinline⟩ := hm m (List.mem_of_getElem? hk)
  refine h.node config hexpand (Node.isProper_of_isWellTyped htyped) fun o ho ↦ hadmits o ?_
  exact Node.zone_eq_body_of_isBlock_eq_false
    (Node.isBlock_eq_false_of_mem_occurrences htyped hinline (Node.mem_occurrences_of_mem_printed ho))

theorem ignoresSlots_secondaryParts {p : Place} {n : Node} (hn : n.isWellTyped = true) :
    IgnoresSlots ix (secondaryParts config expand ⟨p, n⟩) :=
  (IgnoresSlots.closed ix).secondaryPartsOfWellTyped config
    (fun _ hzone ↦ IgnoresSlots.admits hzone) hexpand hn

theorem follows_sections_of_none {p : Place} {n : Node} (hn : n.isWellTyped = true)
    (hz : n.zoneHeading? = none)
    (hchildren : Follows ix (p.steps.length + 1) (spaced n.children)
      (within ⟨p, n⟩ (all config expand p .children 0 n.children))
      (within ⟨p, n⟩ (sectionsIn config expand p 0 n.children))) :
    Follows ix p.steps.length id (node config expand p n) (sections config expand p n) := by
  have hzone := Node.zoneHeading?_eq_none hz
  rw [node_eq (Node.isProper_of_isWellTyped hn), reserveSlot, if_pos hzone, pure_bind,
    sections_of_none config hz]
  refine .ignoring_bind (ignoresSlots_secondaryParts config hexpand hn) fun parts ↦ ?_
  refine (hchildren.mono (Nat.le_succ _)).bind_ignoring (fun outputs ↦ ?_) fun outputs secs ↦ ?_
  · exact (IgnoresSlots.closed ix).transcribeElement config ⟨p, n⟩ hexpand
      (IgnoresSlots.admits hzone) _
  · rw [map_eq_pure_bind]
    rfl

theorem follows_sections_of_some {p : Place} {n : Node} {g : Heading} (hn : n.isWellTyped = true)
    (hz : n.zoneHeading? = some g)
    (hchildren : Follows ix (p.steps.length + 1) (spaced n.children)
      (within ⟨p, n⟩ (all config expand p .children 0 n.children))
      (within ⟨p, n⟩ (sectionsIn config expand p 0 n.children))) :
    Follows ix p.steps.length id (node config expand p n) (sections config expand p n) := by
  obtain ⟨helement, hzone⟩ := Node.zoneHeading?_eq_some hz
  have hnode : node config expand p n = (do
      reserve n.zone p
      let text ← (do
        let parts ← secondaryParts config expand ⟨p, n⟩
        let outputs ← within ⟨p, n⟩ (all config expand p .children 0 n.children)
        sectionOf config ⟨p, n⟩ g (parts (spaced n.children outputs)))
      route n.zone text (some p)
      return none) := by
    rw [node_eq (Node.isProper_of_isWellTyped hn), reserveSlot, if_neg hzone]
    simp only [transcribeElement, helement, heading_eq, if_neg hzone, bind_assoc]
  rw [hnode, sections_of_some config hz]
  refine Follows.slot (o := ⟨p, n⟩) hzone ?_
  refine .ignoring_bind (ignoresSlots_secondaryParts config hexpand hn) fun parts ↦ ?_
  refine hchildren.bind_ignoring (fun outputs ↦ ?_) fun outputs secs ↦ ?_
  · exact (IgnoresSlots.closed ix).sectionOf config ⟨p, n⟩ g _
  · rw [map_eq_pure_bind]
    rfl

/-- Printing a tree does what the walk without slots does. -/
theorem follows_sections {n : Node} (hn : n.isWellTyped = true) (p : Place) :
    Follows ix p.steps.length id (node config expand p n) (sections config expand p n) := by
  induction n using Node.induction generalizing p with
  | step n ih =>
    have hbelow : ∀ m ∈ n.children, m.isWellTyped = true :=
      fun m hm ↦ (Node.isWellTyped_of_mem_branch (b := .children) hn hm).2
    have hchildren : Follows ix (p.steps.length + 1) (spaced n.children)
        (within ⟨p, n⟩ (all config expand p .children 0 n.children))
        (within ⟨p, n⟩ (sectionsIn config expand p 0 n.children)) := by
      refine (follows_sectionsIn config (fun m hm ↦ ?_) fun m hm k ↦ ?_).within _
      · exact Node.isProper_of_isWellTyped (hbelow m hm)
      · exact ih .children m hm (hbelow m hm) (p.down .children k)
    cases hz : n.zoneHeading? with
    | none => exact follows_sections_of_none config hexpand hn hz hchildren
    | some g => exact follows_sections_of_some config hexpand hn hz hchildren

end

/-! ## The sections of a tree -/

theorem Latex.sectionText_ne_empty {config : Config} {g : Heading} {title label contents t : String}
    (h : sectionText config g title label contents = .ok t) : t ≠ "" := by
  have hline : ∀ before after : String, before ++ "\n" ++ after ≠ "" := by
    intro before after he
    have := congrArg String.toList he
    simp at this
  unfold sectionText at h
  split at h
  · obtain rfl := Except.ok.inj h
    exact fun he ↦ hline _ "" ((String.append_empty).trans he)
  · cases hc : commandsOf config g.level with
    | error e => simp [hc] at h
    | ok commands =>
      simp only [hc] at h
      obtain rfl := Except.ok.inj h
      exact hline _ _

namespace Node

theorem filter_zones_occurrencesIn {n : Node} (hn : n.isWellTyped = true) (p : Place) {b : Branch}
    (hb : b ≠ .children) :
    (occurrencesIn p b 0 (n.branch b)).filter (fun o ↦ o.node.zone ≠ .body) = [] := by
  rw [List.filter_eq_nil_iff]
  intro o ho
  obtain ⟨k, m, hk, ho⟩ := mem_occurrencesIn_iff.mp ho
  have hm := List.mem_of_getElem? hk
  have hzone : o.node.zone = .body := zone_eq_body_of_isBlock_eq_false
    (isBlock_eq_false_of_mem_occurrences (isWellTyped_of_mem_branch hn hm).2
      (isBlock_eq_false_of_mem_branch hn (.inr hb) hm) ho)
  simp [hzone]

/-- Headings of zones stand among the children, and below each other. -/
theorem filter_zones_occurrences {n : Node} (hn : n.isWellTyped = true) (p : Place) :
    (n.occurrences p).filter (fun o ↦ o.node.zone ≠ .body) =
      (if n.zone = .body then [] else [⟨p, n⟩]) ++
        (occurrencesIn p .children 0 n.children).filter fun o ↦ o.node.zone ≠ .body := by
  have htitle := filter_zones_occurrencesIn hn p (b := .title) (by simp)
  have htag := filter_zones_occurrencesIn hn p (b := .tag) (by simp)
  have hcaption := filter_zones_occurrencesIn hn p (b := .caption) (by simp)
  rw [branch_title] at htitle
  rw [branch_tag] at htag
  rw [branch_caption] at hcaption
  rw [occurrences_eq, List.filter_cons, List.filter_append, List.filter_append, List.filter_append,
    htitle, htag, hcaption]
  by_cases hzone : n.zone = .body <;> simp [hzone]

end Node

/-- The sections of trees are those of the headings of zones in them, in the order of a visit. -/
def AreSections (secs : Sections) (os : List Occurrence) : Prop :=
  secs.map (·.1) = os.filter (fun o ↦ o.node.zone ≠ .body) ∧ ∀ e ∈ secs, e.2 ≠ ""

theorem areSections_sectionsIn {config : Config} {expand : Occurrence → Action String}
    {ns : List Node} {p : Place} {i : Nat}
    (hnode : ∀ n ∈ ns, ∀ k c output secs d,
      sections config expand (p.down .children k) n c = (.ok (output, secs), d) →
        AreSections secs (n.occurrences (p.down .children k)))
    {c d : Context} {contents : String} {secs : Sections}
    (hrun : sectionsIn config expand p i ns c = (.ok (contents, secs), d)) :
    AreSections secs (Node.occurrencesIn p .children i ns) := by
  induction ns generalizing i c d contents secs with
  | nil =>
    cases hrun
    exact ⟨rfl, by simp⟩
  | cons n ns ih =>
    obtain ⟨⟨output, below⟩, c', hfirst, hrest⟩ := ok_of_bind hrun
    obtain ⟨⟨rest, more⟩, c'', hnext, hpure⟩ := ok_of_bind hrest
    cases hpure
    obtain ⟨hbelow, hbelow'⟩ := hnode n List.mem_cons_self i c output below c' hfirst
    obtain ⟨hmore, hmore'⟩ := ih (fun m hm ↦ hnode m (.tail _ hm)) hnext
    refine ⟨?_, fun e he ↦ (List.mem_append.mp he).elim (hbelow' e) (hmore' e)⟩
    rw [List.map_append, hbelow, hmore, Node.occurrencesIn, List.filter_append]

/-- The walk without slots gives the sections of the headings of zones in the order of a visit. -/
theorem areSections_sections {config : Config} {expand : Occurrence → Action String} {n : Node}
    (hn : n.isWellTyped = true) {p : Place} {c d : Context} {output : Option String}
    {secs : Sections} (hrun : sections config expand p n c = (.ok (output, secs), d)) :
    AreSections secs (n.occurrences p) := by
  induction n using Node.induction generalizing p c d output secs with
  | step n ih =>
    have hchildren : ∀ {c d contents below},
        within ⟨p, n⟩ (sectionsIn config expand p 0 n.children) c = (.ok (contents, below), d) →
          AreSections below (Node.occurrencesIn p .children 0 n.children) := by
      intro c d contents below h
      obtain ⟨d', h, -⟩ := ok_of_within h
      refine areSections_sectionsIn (fun m hm k c output secs d hrun ↦ ?_) h
      exact ih .children m hm (Node.isWellTyped_of_mem_branch (b := .children) hn hm).2 hrun
    rw [AreSections, Node.filter_zones_occurrences hn]
    cases hz : n.zoneHeading? with
    | none =>
      rw [sections_of_none config hz] at hrun
      obtain ⟨parts, c₁, -, hrun⟩ := ok_of_bind hrun
      obtain ⟨⟨contents, below⟩, c₂, hbelow, hrun⟩ := ok_of_bind hrun
      obtain ⟨output', c₃, -, hrun⟩ := ok_of_bind hrun
      cases hrun
      rw [if_pos (Node.zoneHeading?_eq_none hz)]
      exact hchildren hbelow
    | some g =>
      rw [sections_of_some config hz, map_eq_pure_bind] at hrun
      obtain ⟨⟨text, below'⟩, c₄, hrun, hpure⟩ := ok_of_bind hrun
      obtain ⟨parts, c₁, -, hrun⟩ := ok_of_bind hrun
      obtain ⟨⟨contents, below⟩, c₂, hbelow, hrun⟩ := ok_of_bind hrun
      obtain ⟨text', c₃, htext, hrun⟩ := ok_of_bind hrun
      cases hrun
      cases hpure
      obtain ⟨hbelow, hbelow'⟩ := hchildren hbelow
      rw [if_neg (Node.zoneHeading?_eq_some hz).2]
      refine ⟨by simp [hbelow], fun e he ↦ ?_⟩
      rcases List.mem_cons.mp he with rfl | he
      · obtain ⟨label, c₅, -, htext⟩ := ok_of_bind htext
        obtain ⟨_, c₆, -, htext⟩ := ok_of_bind htext
        exact Latex.sectionText_ne_empty (congrArg Prod.fst htext)
      · exact hbelow' e he

/-! ## Documents -/

/-- When a document has been printed in a fresh context, each zone holds the section texts of its
headings, in the order of a visit and each of them once; what is left of the body are the contents
to which those headings add nothing; and no slot is held any more or empty. -/
theorem zones_hold_sections (config : Config) {doc : Node} (hdoc : doc.isWellTyped = true)
    (hnotes : ∀ n ∈ doc.visit, n.kind = .footnoteDefinition → ∀ m ∈ n.visit, m.zone = .body)
    {r : References} (hr : r = .empty ∨ References.empty.add? (.ofRoot 0) doc = .ok r)
    {output : Option String} {c : Context}
    (hrun : occurrence config ⟨.ofRoot 0, doc⟩ (.ofReferences r) = (.ok output, c)) :
    ∃ secs d,
      sections config (definitionText config r.index.footnotes.length) (.ofRoot 0) doc
          (.ofReferences r) = (.ok (output, secs), d) ∧
        secs.map (·.1) = (doc.occurrences (.ofRoot 0)).filter (fun o ↦ o.node.zone ≠ .body) ∧
          (∀ z ≠ .body,
            c.buffers.get? z = some ((secs.filter fun e ↦ e.1.node.zone = z).map (·.2))) ∧
            c.reservations = [] ∧ ∀ e ∈ secs, e.2 ≠ "" := by
  have hproper := Node.isProper_of_isWellTyped hdoc
  have hfootnotes : ∀ e ∈ r.index.footnotes,
      e.2 ∈ doc.occurrences (.ofRoot 0) ∧ e.2.node.kind = .footnoteDefinition := by
    intro e he
    rcases hr with rfl | hr
    · exact absurd he List.not_mem_nil
    · have hempty : References.empty.index.HasOffsets := fun e he ↦ absurd he List.not_mem_nil
      rw [(References.add?_of_isProper hempty hproper _).1] at hr
      obtain rfl := Except.ok.inj hr
      exact (LinkIndex.mem_footnotes_add he).resolve_left List.not_mem_nil
  have hexpand : ∀ e ∈ r.index.footnotes,
      IgnoresSlots r.index (definitionText config r.index.footnotes.length e.2) :=
    IgnoresSlots.definitionText config
      (fun e he ↦ Node.isProper_of_mem_occurrences hproper (hfootnotes e he).1)
      (fun e he ↦ hnotes _ (List.mem_map_of_mem (hfootnotes e he).1) (hfootnotes e he).2) _
  have hfollows := follows_sections config hexpand hdoc (.ofRoot 0) (.ofReferences r)
    (Context.ofReferences r).slots rfl (fun e he ↦ absurd he List.not_mem_nil)
  have hnode : node config (definitionText config r.index.footnotes.length) (.ofRoot 0) doc
      ((Context.ofReferences r).withSlots (Context.ofReferences r).slots) = (.ok output, c) := hrun
  rw [hnode] at hfollows
  cases hspec : sections config (definitionText config r.index.footnotes.length) (.ofRoot 0) doc
      (.ofReferences r) with
  | mk result d =>
    rw [hspec] at hfollows
    rcases result with e | ⟨output', secs⟩
    · cases hfollows
    · obtain ⟨-, hzones, a, rfl, heq⟩ := hfollows
      cases heq
      obtain ⟨hheadings, htexts⟩ := areSections_sections hdoc hspec
      refine ⟨secs, d, rfl, hheadings, fun z hz ↦ ?_, rfl, htexts⟩
      rw [Buffers.get?_eq_chunks _ hz]
      show some ((Buffers.empty.add secs).chunks z) = _
      rw [Buffers.chunks_add hzones, Buffers.chunks, Buffers.get?_empty hz]
      rfl

/-- A heading of the index in one of the appendix, which the body has nothing of. -/
def nestedZones : Node :=
  ⟨⟨.unknown, 0, none, [], .document [], []⟩, [appendix], [], none, none⟩
where
  appendix : Node :=
    ⟨⟨.unknown, 1, none, [], .heading ⟨1, some .appendix, some "a", none, false, []⟩, []⟩, [index],
      [], none, none⟩
  index : Node :=
    ⟨⟨.unknown, 2, none, [], .heading ⟨2, some .index, some "b", none, false, []⟩, []⟩, [], [],
      none, none⟩

theorem nestedZones_hold_sections :
    nestedZones.isWellTyped = true ∧
      (occurrence .default ⟨.ofRoot 0, nestedZones⟩ (.ofReferences .empty)).1.toOption =
          some (some "") ∧
        ∃ secs : Sections,
          secs.map (·.1.node) = [nestedZones.appendix, nestedZones.index] ∧
            (occurrence .default ⟨.ofRoot 0, nestedZones⟩ (.ofReferences .empty)).2.buffers.get?
                .index = some ((secs.filter fun e ↦ e.1.node.zone = .index).map (·.2)) := by
  have hoption : (occurrence .default ⟨.ofRoot 0, nestedZones⟩
      (.ofReferences .empty)).1.toOption = some (some "") := by decide +kernel
  have htyped : nestedZones.isWellTyped = true := by decide
  refine ⟨htyped, hoption, ?_⟩
  rcases hrun : occurrence .default ⟨.ofRoot 0, nestedZones⟩ (.ofReferences .empty) with
    ⟨_ | output, c⟩
  · rw [hrun] at hoption
    cases hoption
  · obtain ⟨secs, d, -, hheadings, hbuffers, -⟩ :=
      zones_hold_sections .default htyped (by decide) (.inl rfl) hrun
    have hnodes := congrArg (List.map Occurrence.node) hheadings
    rw [List.map_map] at hnodes
    exact ⟨secs, hnodes, hbuffers .index (by decide)⟩

end Typeset

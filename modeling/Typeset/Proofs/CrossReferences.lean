import Typeset.Proofs.Assembled
import Typeset.Proofs.Render.Arrival

/-!
# Cross references

A link within the document refers to the label of its target. The document defines the label if the
target is of a kind that prints labels and what it prints gets into the document. Nodes of all other
kinds can be targets by their names as well, but print nothing of their names.
-/

namespace Typeset

open Action Context Latex Render Text

/-! ## What gets into the document -/

/-- What comes out of a document gets into its text. -/
theorem CameOut.occurs_minimal {config : Config} {doc : Node} {s : String} {body : Option String}
    {r : Context} {routed : Bool} (hs : IsCompact s)
    (h : CameOut config doc s [] (.ofRoot 0) body r routed) :
    Occurs s (Assembly.minimal (Assembly.zoneText (body.getD "") r.buffers.chunks)) := by
  cases h with
  | printed hbody h =>
    rw [hbody]
    exact Assembly.occurs_minimal_body hs h
  | held htable => cases htable
  | routed hrests hz h =>
    exact Assembly.occurs_minimal_chunk hs hz (List.mem_of_getElem? hrests.chunk) h

/-! ## What a link refers to -/

/-- What has no label without a key is found by no test but that for its name. -/
theorem Node.tests_of_forcesLabel {n : Node} (h : n.forcesLabel = false) (text : String) :
    n.hasCustomId text = false ∧ n.hasIdentifier text = false ∧ n.isRadioTarget text = false ∧
      n.isTitled text = false ∧ n.isTarget text = false := by
  cases he : n.element with
  | heading | target | radioTarget => simp [forcesLabel, he] at h
  | _ => simp [hasCustomId, hasIdentifier, isRadioTarget, isTitled, isTarget, he]

/-- A named block that has no label without a key has its name for a key. -/
theorem Node.isSome_explicitKey_of_isNamed {n : Node} {name : String} (h : n.isNamed name = true)
    (hforces : n.forcesLabel = false) : n.explicitKey.isSome = true := by
  obtain ⟨hblock, hname⟩ := Bool.and_eq_true_iff.mp h
  obtain ⟨name, hname, -⟩ := (Option.any_eq_true _ _).mp hname
  cases he : n.element with
  | heading => simp [forcesLabel, he] at hforces
  | entity => simp [isBlock, kind, he, Element.kind, Kind.isBlock] at hblock
  | _ => simp [explicitKey, he, hname]

/-- What a link finds has a label of its own: it has a key or is of a kind that needs none. -/
theorem hasKey_of_firstMatch? {kind path : String} {os : List Occurrence} {target : Occurrence}
    (h : firstMatch? (linkTests kind path) os = some target) :
    target.node.forcesLabel = true ∨ target.node.explicitKey.isSome = true := by
  obtain ⟨test, htest, hfind⟩ := List.exists_of_findSome?_eq_some h
  have hpasses : test target.node = true := by simpa using List.find?_some hfind
  cases hforces : target.node.forcesLabel with
  | true => exact .inl rfl
  | false =>
    have hothers := Node.tests_of_forcesLabel hforces
    suffices hnamed : target.node.isNamed path = true from
      .inr (Node.isSome_explicitKey_of_isNamed hnamed hforces)
    unfold linkTests at htest
    split at htest
    · simp_all
    · simp_all
    · simp_all
    · split at htest
      · simp_all
      · simp only [List.mem_cons, List.not_mem_nil, or_false] at htest
        rcases htest with rfl | rfl | rfl
        · simp [hothers] at hpasses
        · exact hpasses
        · simp [hothers] at hpasses
    · cases htest

theorem mem_of_firstMatch? {tests : List (Node → Bool)} {os : List Occurrence}
    {target : Occurrence} (h : firstMatch? tests os = some target) : target ∈ os := by
  obtain ⟨test, -, hfind⟩ := List.exists_of_findSome?_eq_some h
  exact List.mem_of_find?_eq_some hfind

theorem ok_of_link {config : Config} {o : Occurrence} {kind path contents t : String}
    {c d : Context} (hproper : o.node.isProper = true) (hkind : kind ∈ internalKinds)
    (hrun : link config o kind path contents c = (.ok t, d)) :
    ∃ target label, c.references.index.resolve kind path (some o.node.origin) = .ok target ∧
      Context.label target c = (.ok label, d) ∧
        t = internalLink target.node label (strip contents) := by
  have hcoderef : kind ≠ "coderef" := by
    rintro rfl
    revert hkind
    decide
  unfold link at hrun
  simp only [Node.loose?_eq_none hproper, Option.getD_none, if_neg hcoderef,
    List.contains_iff_mem, hkind, if_true] at hrun
  obtain ⟨target, c₁, htarget, hrun⟩ := ok_of_bind hrun
  obtain ⟨label, c₂, hlabel, hrun⟩ := ok_of_bind hrun
  cases hrun
  obtain ⟨hresolve, rfl⟩ := Prod.mk.inj htarget
  exact ⟨target, label, hresolve, hlabel, rfl⟩

/-- A link in a document points at the first match of a visit of the document. -/
theorem firstMatch?_of_resolve {doc : Node} (hdoc : doc.isProper = true) {kind path : String}
    {origin : Option Origin} {target : Occurrence}
    (h : doc.index.resolve kind path origin = .ok target) :
    firstMatch? (linkTests kind path) (doc.occurrences (.ofRoot 0)) = some target := by
  rw [LinkIndex.resolve, Node.target?_index hdoc] at h
  cases hmatch : firstMatch? (linkTests kind path) (doc.occurrences (.ofRoot 0)) with
  | none =>
    rw [hmatch] at h
    cases h
  | some target' =>
    rw [hmatch] at h
    rw [Except.ok.inj h]

/-- What an internal link prints refers to the label that its target has in the end. -/
theorem link_refers {config : Config} {doc : Node} (hdoc : doc.isProper = true)
    {body : Option String} {r : Context}
    (hrun : occurrence config ⟨.ofRoot 0, doc⟩ doc.start = (.ok body, r)) {depth : Nat}
    {l : Occurrence} {c : Context} (h : Reaches config doc depth l c) {kind path : String}
    (helement : l.node.element = .link kind path) (hkind : kind ∈ internalKinds) :
    ∃ target description,
      firstMatch? (linkTests kind path) (doc.occurrences (.ofRoot 0)) = some target ∧
        (node config (definitionText config depth) l.place l.node c).1 =
          .ok (some (internalLink target.node (r.references.labelText target) description)) := by
  obtain ⟨harrives, output, d, hnode, hplaces⟩ := h.exists_run hdoc hrun
  obtain ⟨outputs, e, hpassage, -, -, hself⟩ := harrives.ok_of_node hdoc hnode
  simp only [transcribeElement, helement] at hself
  obtain ⟨t, hlink, rfl⟩ := ok_of_map hself
  obtain ⟨target, label, hresolve, hlabel, rfl⟩ :=
    ok_of_link (harrives.isProper hdoc) hkind hlink
  rw [hpassage.index.trans harrives.index] at hresolve
  refine ⟨target, strip (Parts.ofOutputs l.node outputs).contents,
    firstMatch?_of_resolve hdoc hresolve, ?_⟩
  rw [hnode, label_eq hlabel hplaces]

/-! ## What has no label -/

/-- The node without its name. -/
def Node.unnamed (n : Node) : Node :=
  ⟨{ n.info with name := none }, n.children, n.title, n.tag, n.caption⟩

theorem Node.isProper_unnamed {n : Node} (h : n.isProper = true) : n.unnamed.isProper = true := by
  obtain ⟨hinfo, hbelow⟩ := (isProper_iff n).mp h
  refine (isProper_iff _).mpr ⟨hinfo, fun b ↦ ?_⟩
  cases b with
  | children => exact hbelow .children
  | title => exact hbelow .title
  | tag => exact hbelow .tag
  | caption => exact hbelow .caption

/-- A paragraph that is no figure with its name is none without. -/
theorem Node.isFigure_unnamed {n : Node} (hproper : n.isProper = true) (h : n.isFigure = false) :
    n.unnamed.isFigure = false := by
  refine Bool.eq_false_iff.mpr fun hfigure ↦ Bool.eq_false_iff.mp h ?_
  have hname : n.unnamed.hasName = false := by
    rw [hasName, isLooselyTrue_eq_false (isProper_unnamed hproper)]
    rfl
  simp only [isFigure, hname, Bool.or_false, Bool.and_eq_true] at hfigure ⊢
  exact ⟨⟨hfigure.1.1, Bool.or_eq_true_iff.mpr (.inl hfigure.1.2)⟩, hfigure.2⟩

/-- A node of a kind that prints no labels prints nothing of its name. -/
theorem transcribeElement_unnamed {config : Config} {expand : Occurrence → Action String}
    {o : Occurrence} (hproper : o.node.isProper = true) (h : o.node.printsLabel = false)
    (parts : Parts) :
    transcribeElement config expand ⟨o.place, o.node.unnamed⟩ parts =
      transcribeElement config expand o parts := by
  cases he : o.node.element with
  | paragraph =>
    have hfigure : o.node.isFigure = false := by simpa [Node.printsLabel, he] using h
    have heq : ∀ {p : Place} {n : Node}, n.isProper = true → n.isFigure = false →
        paragraph config ⟨p, n⟩ parts =
          pure (if (stripEnd parts.contents).isEmpty then none
            else some (stripEnd parts.contents ++ "\n")) := by
      intro p n hn hnot
      simp only [paragraph, Node.figureFault?_eq_none hn, check_none_eq_pure, pure_bind, hnot,
        Bool.false_eq_true, if_false]
    have he' : o.node.unnamed.element = .paragraph := he
    simp only [transcribeElement, he, he']
    rw [heq (Node.isProper_unnamed hproper) (Node.isFigure_unnamed hproper hfigure)]
    exact (heq hproper hfigure).symm
  | heading | table | specialBlock | codeBlock | latexEnvironment | target | radioTarget =>
    simp [Node.printsLabel, he] at h
  | _ =>
    obtain ⟨p, ⟨⟨origin, postBlank, name, attributes, element, loose⟩, children, title, tag,
      caption⟩⟩ := o
    obtain rfl := he
    rfl

/-! ## Main theorem -/

/-- Whatever internal link the printing of a document comes to, it refers to the label that its
target has in the end. The document defines this label if the target is of a kind that prints
labels, what it prints gets into the document, and the label is not empty. A target of another kind
prints the same with its name and without. -/
theorem references_are_defined {config : Config} {doc : Node} {t : Typescript}
    (htemplate : config.template = .null) (hdoc : doc.isWellTyped = true)
    (h : typeset config doc = .ok t) :
    ∃ tree body r, prepare? doc = .ok tree ∧
      occurrence config ⟨.ofRoot 0, tree⟩ tree.start = (.ok body, r) ∧
        t.text = Assembly.minimal (Assembly.zoneText (body.getD "") r.buffers.chunks) ∧
          ∀ depth l c, Reaches config tree depth l c → ∀ kind path,
            l.node.element = .link kind path → kind ∈ internalKinds →
              ∃ target description,
                firstMatch? (linkTests kind path) (tree.occurrences (.ofRoot 0)) = some target ∧
                  (node config (definitionText config depth) l.place l.node c).1 = .ok (some
                    (internalLink target.node (r.references.labelText target) description)) ∧
                    (target.node.printsLabel = true → tree.shows config target →
                      r.references.labelText target ≠ "" →
                        Occurs (target.definition config r.references) t.text) ∧
                      (target.node.printsLabel = false → ∀ expand parts,
                        transcribeElement config expand ⟨target.place, target.node.unnamed⟩ parts =
                          transcribeElement config expand target parts) := by
  obtain ⟨tree, body, r, htree, hproper, hrun, htext⟩ :=
    exists_run_of_typeset htemplate (Node.isProper_of_isWellTyped hdoc) h
  refine ⟨tree, body, r, htree, hrun, htext, fun depth l c hl kind path helement hkind ↦ ?_⟩
  obtain ⟨target, description, hmatch, hlink⟩ := link_refers hproper hrun hl helement hkind
  refine ⟨target, description, hmatch, hlink, fun hlabel ⟨routed, hshown⟩ hne ↦ ?_, ?_⟩
  · have hkey := hasKey_of_firstMatch? hmatch
    have hcame : CameOut config tree (target.definition config r.references) [] (.ofRoot 0) body r
        routed :=
      cameOut_of_isShown hproper hlabel hkey hne hshown (arrives_ofRoot tree) hrun
        List.prefix_rfl
    rw [htext]
    exact hcame.occurs_minimal (Occurrence.isWhole_definition config _ target).toIsCompact
  · intro hlabel expand parts
    have hmem : target ∈ tree.occurrences (.ofRoot 0) := mem_of_firstMatch? hmatch
    exact transcribeElement_unnamed (Node.isProper_of_mem_occurrences hproper hmem) hlabel parts

/-- A document of a block and a paragraph with a link. -/
def linking (block : Node) (kind path : String) : Node :=
  ⟨⟨.unknown, 0, none, [], .document [], []⟩, [block, paragraph], [], none, none⟩
where
  paragraph : Node :=
    ⟨⟨.unknown, 0, none, [], .paragraph, []⟩, [.inline .unknown 0 (.link kind path) []], [], none,
      none⟩

/-- A heading with a custom id, and a link to it. -/
def linkedHeading : Node := linking heading "custom-id" "#a"
where
  heading : Node :=
    ⟨⟨.unknown, 0, none, [], .heading ⟨1, none, some "a", none, false, []⟩, []⟩, [], [], none, none⟩

theorem linkedHeading_references_are_defined :
    linkedHeading.isWellTyped = true ∧ ∃ t, typeset .default linkedHeading = .ok t ∧
      Occurs (labelCommand "sec:a") t.text := by
  have htyped : linkedHeading.isWellTyped = true := by decide
  have hoption : (typeset .default linkedHeading).toOption.isSome = true := by decide +kernel
  refine ⟨htyped, ?_⟩
  rcases htypeset : typeset .default linkedHeading with e | t
  · rw [htypeset] at hoption
    cases hoption
  · obtain ⟨tree, body, r, htree, -, -, hlinks⟩ := references_are_defined rfl htyped htypeset
    have hprepared : prepare? linkedHeading = .ok linkedHeading := by rfl
    obtain rfl := Except.ok.inj (hprepared.symm.trans htree)
    have hroot : Reaches .default linkedHeading _ _ _ := .root
    have hreached := (hroot.child (b := .children) (i := 1) rfl nofun).child
      (b := .children) (i := 0) rfl nofun
    obtain ⟨target, description, hmatch, -, hdefined, -⟩ :=
      hlinks _ _ _ hreached "custom-id" "#a" rfl (by decide)
    have hfirst : firstMatch? (linkTests "custom-id" "#a") (linkedHeading.occurrences (.ofRoot 0)) =
        some ⟨(Place.ofRoot 0).down .children 0, linkedHeading.heading⟩ := by rfl
    obtain rfl := Option.some.inj (hfirst.symm.trans hmatch)
    have hlabel : r.references.labelText
        ⟨(Place.ofRoot 0).down .children 0, linkedHeading.heading⟩ = "sec:a" := by rfl
    have hshown : linkedHeading.shows .default
        ⟨(Place.ofRoot 0).down .children 0, linkedHeading.heading⟩ :=
      ⟨_, .child (b := .children) (i := 0) rfl nofun .self rfl⟩
    have hoccurs := hdefined rfl hshown (by rw [hlabel]; decide)
    rw [Occurrence.definition, hlabel] at hoccurs
    exact ⟨t, rfl, hoccurs⟩

/-- A quote with a name, and a link to it. -/
def linkedQuote : Node := linking quote "fuzzy" "q"
where
  quote : Node :=
    ⟨⟨.unknown, 0, some "q", [], .quoteBlock, []⟩,
      [⟨⟨.unknown, 0, none, [], .paragraph, []⟩, [.inline .unknown 0 (.text "x") []], [], none,
        none⟩], [], none, none⟩

/-- The label of the quote is not defined where the link refers to it. -/
theorem linkedQuote_dangles :
    linkedQuote.isWellTyped = true ∧ ∃ t, typeset .default linkedQuote = .ok t ∧
      Occurs (command "ref" "q") t.text ∧ ¬ Occurs (labelCommand "q") t.text ∧
        ¬ Occurs ("label" ++ "=" ++ braced "q") t.text := by
  have hoption : (typeset .default linkedQuote).toOption.any (fun t ↦
      decide (Occurs (command "ref" "q") t.text ∧ ¬ Occurs (labelCommand "q") t.text ∧
        ¬ Occurs ("label" ++ "=" ++ braced "q") t.text)) = true := by decide +kernel
  refine ⟨by decide, ?_⟩
  rcases htypeset : typeset .default linkedQuote with e | t
  · rw [htypeset] at hoption
    cases hoption
  · rw [htypeset] at hoption
    exact ⟨t, rfl, of_decide_eq_true hoption⟩

end Typeset

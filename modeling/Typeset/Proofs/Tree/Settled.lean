import Mathlib.Data.List.Forall2
import Typeset.Proofs.Tree.Alike
import Typeset.Proofs.Tree.Faultless
import Typeset.Proofs.Tree.Merging
import Typeset.Proofs.Wrapper

/-!
# Prepared documents are settled

Wrapping the math runs of a tree leaves nothing outside of runs that opens one, and a tree of this
kind is left as it is. Cleaning the metadata of a document touches nothing else, so that it does not
matter which of the two comes first, and both together are done once and for all.
-/

namespace Typeset

namespace Node

/-- What stops an edit depends on no node below. -/
theorem editFault?_congr {n n' : Node} (h : n'.info = n.info) (b : Branch) :
    n'.editFault? b = n.editFault? b := by
  simp only [editFault?, textFault?, element, loose?, h]

theorem editGate_of_ok {n : Node} {b : Branch} {u : Unit} (h : n.editGate b = .ok u) :
    n.editFault? b = none := by
  unfold editGate at h
  split at h
  · cases h
  · next hnone => exact hnone

theorem editGate_eq_ok {n : Node} {b : Branch} (h : n.editFault? b = none) :
    n.editGate b = .ok () := by
  rw [editGate, h]

end Node

namespace MathRun

open Node

/-- Outside of the runs in a tree nothing opens one, there is no null, and nothing stops an edit. -/
inductive IsSettled : Node → Prop
  | run {n : Node} : isRun n = true → IsSettled n
  | node {n : Node} : (∀ b, n.editFault? b = none) →
      (∀ b, ∀ m ∈ n.branch b, opens m = false ∧ m.isNull = false) →
        (∀ b, ∀ m ∈ n.branch b, IsSettled m) → IsSettled n

/-! ## Sequences -/

theorem merge_eq_self {ns : List Node} (h : ∀ n ∈ ns, opens n = false) : merge ns = ns := by
  induction ns with
  | nil => rfl
  | cons n ns ih =>
    rw [merge, h n List.mem_cons_self, if_neg Bool.false_ne_true, ih fun m hm ↦ h m (.tail _ hm)]

theorem wrap_eq_self {n : Node} (h : ∀ b, merge (n.branch b) = n.branch b) : wrap n = n := by
  obtain ⟨info, children, title, tag, caption⟩ := n
  have htag : tag.map merge = tag := by
    cases tag with
    | none => rfl
    | some ns => exact congrArg some (h .tag)
  have hcaption : caption.map merge = caption := by
    cases caption with
    | none => rfl
    | some ns => exact congrArg some (h .caption)
  simp only [wrap, show merge children = children from h .children,
    show merge title = title from h .title, htag, hcaption]

/-! ## Trees -/

/-- What wrapping all runs leaves of a tree, unless it is stopped. -/
abbrev edit? (n : Node) : Except Failure (Option Node) :=
  editM editGate isRun (fun n ↦ .ok (some (wrap n))) n

/-- What wrapping all runs leaves of the trees of a sequence, unless it is stopped. -/
abbrev editAll? (ns : List Node) : Except Failure (List Node) :=
  editAllM editGate isRun (fun n ↦ .ok (some (wrap n))) ns

theorem edit?_of_isRun {n : Node} (h : isRun n = true) : edit? n = .ok (some n) := by
  obtain ⟨info, children, title, tag, caption⟩ := n
  rw [edit?, editM, if_pos h]
  rfl

/-- What wrapping all runs leaves of a branch that may be missing, unless it is stopped. -/
abbrev editBranch? (ns : Option (List Node)) : Except Failure (Option (List Node)) :=
  editAllM? editGate isRun (fun n ↦ .ok (some (wrap n))) ns

/-- Where nothing stops the edit, the runs of what is left below the node are wrapped. -/
theorem edit?_of_not_isRun {n : Node} (h : isRun n = false) : edit? n = (do
    editGate .children n
    let children ← editAll? n.children
    editGate .title n
    let title ← editAll? n.title
    editGate .tag n
    let tag ← editBranch? n.tag
    editGate .caption n
    let caption ← editBranch? n.caption
    return some (wrap ⟨n.info, children, title, tag, caption⟩)) := by
  obtain ⟨info, children, title, tag, caption⟩ := n
  rw [edit?, editM, if_neg (by rw [h]; exact Bool.false_ne_true)]
  rfl

theorem editAll?_eq_self {ns : List Node}
    (h : ∀ n ∈ ns, edit? n = .ok (some n) ∧ n.isNull = false) : editAll? ns = .ok ns := by
  induction ns with
  | nil => rfl
  | cons n ns ih =>
    obtain ⟨hedit, hnull⟩ := h n List.mem_cons_self
    rw [editAll?, editAllM, show editM editGate isRun _ n = _ from hedit,
      show editAllM editGate isRun _ ns = _ from ih fun m hm ↦ h m (.tail _ hm)]
    simp [bind, Except.bind, pure, Except.pure, Option.filter, hnull]

theorem editBranch?_eq_self {ns : Option (List Node)}
    (h : editAll? (ns.getD []) = .ok (ns.getD [])) : editBranch? ns = .ok ns := by
  cases ns with
  | none => rfl
  | some ns =>
    rw [editBranch?, editAllM?, show editAllM editGate isRun _ ns = _ from h]
    rfl

/-- What is left of a branch that is there is what is left of its trees. -/
theorem exists_of_editBranch? {ns : List Node} {left : Option (List Node)}
    (h : editBranch? (some ns) = .ok left) : ∃ ms, editAll? ns = .ok ms ∧ left = some ms := by
  cases hall : editAll? ns with
  | error e =>
    rw [editBranch?, editAllM?, show editAllM editGate isRun _ ns = _ from hall] at h
    cases h
  | ok ms =>
    rw [editBranch?, editAllM?, show editAllM editGate isRun _ ns = _ from hall] at h
    exact ⟨ms, rfl, (Except.ok.inj h).symm⟩

theorem editAll?_of_editBranch? {ns left : Option (List Node)} (h : editBranch? ns = .ok left) :
    editAll? (ns.getD []) = .ok (left.getD []) := by
  cases ns with
  | none =>
    cases h
    rfl
  | some ns =>
    obtain ⟨ms, hall, rfl⟩ := exists_of_editBranch? h
    exact hall

/-- A settled tree is left as it is. -/
theorem edit?_of_isSettled {n : Node} (h : IsSettled n) : edit? n = .ok (some n) := by
  induction h with
  | run h => exact edit?_of_isRun h
  | @node n hgates hmembers _ ih =>
    cases hrun : isRun n with
    | true => exact edit?_of_isRun hrun
    | false =>
      have hall : ∀ b, editAll? (n.branch b) = .ok (n.branch b) :=
        fun b ↦ editAll?_eq_self fun m hm ↦ ⟨ih b m hm, (hmembers b m hm).2⟩
      have hmerge : ∀ b, merge (n.branch b) = n.branch b :=
        fun b ↦ merge_eq_self fun m hm ↦ (hmembers b m hm).1
      rw [edit?_of_not_isRun hrun, show editAll? n.children = _ from hall .children,
        show editAll? n.title = _ from hall .title, editBranch?_eq_self (hall .tag),
        editBranch?_eq_self (hall .caption)]
      simp only [editGate_eq_ok (hgates _)]
      show Except.ok (some (wrap n)) = _
      rw [wrap_eq_self hmerge]

theorem mem_of_editAll? {ns left : List Node} (h : editAll? ns = .ok left) {m : Node}
    (hm : m ∈ left) : m.isNull = false ∧ ∃ n ∈ ns, edit? n = .ok (some m) := by
  induction ns generalizing left with
  | nil =>
    cases h
    cases hm
  | cons n ns ih =>
    obtain ⟨first, hfirst, h⟩ := exists_of_bind_eq_ok h
    obtain ⟨rest, hrest, h⟩ := exists_of_bind_eq_ok h
    cases h
    rcases List.mem_append.mp hm with hm | hm
    · have hsome : first.filter (fun n ↦ !n.isNull) = some m := by simpa using hm
      obtain ⟨rfl, hnull⟩ := Option.filter_eq_some_iff.mp hsome
      exact ⟨by simpa using hnull, n, List.mem_cons_self, hfirst⟩
    · obtain ⟨hnull, k, hk, hedit⟩ := ih hrest hm
      exact ⟨hnull, k, .tail _ hk, hedit⟩

/-- What wrapping all runs leaves is settled, and its root holds what it did. -/
theorem isSettled_of_edit? {n : Node} {left : Option Node} (h : edit? n = .ok left) :
    ∃ n', left = some n' ∧ n'.info = n.info ∧ IsSettled n' := by
  induction n using Node.induction generalizing left with
  | step n ih =>
    cases hrun : isRun n with
    | true =>
      rw [edit?_of_isRun hrun] at h
      exact ⟨n, (Except.ok.inj h).symm, rfl, .run hrun⟩
    | false =>
      rw [edit?_of_not_isRun hrun] at h
      obtain ⟨_, hgate₁, h⟩ := exists_of_bind_eq_ok h
      obtain ⟨children, hchildren, h⟩ := exists_of_bind_eq_ok h
      obtain ⟨_, hgate₂, h⟩ := exists_of_bind_eq_ok h
      obtain ⟨title, htitle, h⟩ := exists_of_bind_eq_ok h
      obtain ⟨_, hgate₃, h⟩ := exists_of_bind_eq_ok h
      obtain ⟨tag, htag, h⟩ := exists_of_bind_eq_ok h
      obtain ⟨_, hgate₄, h⟩ := exists_of_bind_eq_ok h
      obtain ⟨caption, hcaption, h⟩ := exists_of_bind_eq_ok h
      cases h
      let edited : Node := ⟨n.info, children, title, tag, caption⟩
      have hgates : ∀ b, n.editFault? b = none := by
        intro b
        cases b with
        | children => exact editGate_of_ok hgate₁
        | title => exact editGate_of_ok hgate₂
        | tag => exact editGate_of_ok hgate₃
        | caption => exact editGate_of_ok hgate₄
      have hbelow : ∀ b, editAll? (n.branch b) = .ok (edited.branch b) := by
        intro b
        cases b with
        | children => exact hchildren
        | title => exact htitle
        | tag => exact editAll?_of_editBranch? htag
        | caption => exact editAll?_of_editBranch? hcaption
      have hmembers : ∀ b, ∀ m ∈ edited.branch b, m.isNull = false ∧ IsSettled m := by
        intro b m hm
        obtain ⟨hnull, k, hk, hedit⟩ := mem_of_editAll? (hbelow b) hm
        obtain ⟨m', heq, -, hsettled⟩ := ih b k hk hedit
        rw [Option.some.inj heq]
        exact ⟨Option.some.inj heq ▸ hnull, hsettled⟩
      refine ⟨wrap edited, rfl, rfl, .node (fun b ↦ ?_) (fun b m hm ↦ ?_) fun b m hm ↦ ?_⟩
      · have hfault : (wrap edited).editFault? b = n.editFault? b := editFault?_congr rfl b
        rw [hfault]
        exact hgates b
      · rw [branch_wrap] at hm
        rcases (merges_merge _).1.mem_cases hm with ⟨hm, hopens⟩ | ⟨last, earlier, rfl, -⟩
        · exact ⟨hopens, (hmembers b m hm).1⟩
        · exact ⟨rfl, rfl⟩
      · rw [branch_wrap] at hm
        rcases (merges_merge _).1.mem_cases hm with ⟨hm, -⟩ | ⟨last, earlier, rfl, -⟩
        · exact (hmembers b m hm).2
        · exact .run rfl

theorem mergeTree?_eq (n : Node) : mergeTree? n = (fun left ↦ left.getD n) <$> edit? n := rfl

theorem mergeTree?_of_isSettled {n : Node} (h : IsSettled n) : mergeTree? n = .ok n := by
  rw [mergeTree?_eq, edit?_of_isSettled h]
  rfl

theorem edit?_of_mergeTree? {n n' : Node} (h : mergeTree? n = .ok n') :
    edit? n = .ok (some n') := by
  rw [mergeTree?_eq] at h
  cases hedit : edit? n with
  | error e =>
    rw [hedit] at h
    cases h
  | ok left =>
    obtain ⟨m, rfl, -, -⟩ := isSettled_of_edit? hedit
    rw [hedit] at h
    rw [← Except.ok.inj h]
    rfl

/-- Where wrapping all runs is not stopped, it leaves a settled tree with the same root. -/
theorem isSettled_of_mergeTree? {n n' : Node} (h : mergeTree? n = .ok n') :
    n'.info = n.info ∧ IsSettled n' := by
  obtain ⟨m, heq, hinfo, hsettled⟩ := isSettled_of_edit? (edit?_of_mergeTree? h)
  obtain rfl := Option.some.inj heq
  exact ⟨hinfo, hsettled⟩

/-! ### Proper trees -/

theorem exists_editAll? {ns : List Node} (h : ∀ n ∈ ns, ∃ left, edit? n = .ok left) :
    ∃ left, editAll? ns = .ok left := by
  induction ns with
  | nil => exact ⟨[], rfl⟩
  | cons n ns ih =>
    obtain ⟨first, hfirst⟩ := h n List.mem_cons_self
    obtain ⟨rest, hrest⟩ := ih fun m hm ↦ h m (.tail _ hm)
    rw [editAll?, editAllM, show editM editGate isRun _ n = _ from hfirst,
      show editAllM editGate isRun _ ns = _ from hrest]
    exact ⟨_, rfl⟩

theorem exists_editBranch? {ns : Option (List Node)}
    (h : ∀ n ∈ ns.getD [], ∃ left, edit? n = .ok left) : ∃ left, editBranch? ns = .ok left := by
  cases ns with
  | none => exact ⟨none, rfl⟩
  | some ns =>
    obtain ⟨left, hleft⟩ : ∃ left, editAll? ns = .ok left := exists_editAll? h
    rw [editBranch?, editAllM?, show editAllM editGate isRun _ ns = _ from hleft]
    exact ⟨_, rfl⟩

/-- Nothing stops an edit of a proper tree. -/
theorem exists_edit?_of_isProper {n : Node} (h : n.isProper = true) :
    ∃ left, edit? n = .ok left := by
  induction n using Node.induction with
  | step n ih =>
    have hbelow : ∀ b, ∀ m ∈ n.branch b, ∃ left, edit? m = .ok left :=
      fun b m hm ↦ ih b m hm (((isProper_iff n).mp h).2 b m hm)
    have hgate : ∀ b, editGate b n = .ok () := by
      intro b
      refine editGate_eq_ok ?_
      rw [editFault?, textFault?_eq_none h, loose?_eq_none h]
      rfl
    cases hrun : isRun n with
    | true => exact ⟨_, edit?_of_isRun hrun⟩
    | false =>
      obtain ⟨children, hchildren⟩ := exists_editAll? (hbelow .children)
      obtain ⟨title, htitle⟩ := exists_editAll? (hbelow .title)
      obtain ⟨tag, htag⟩ := exists_editBranch? (hbelow .tag)
      obtain ⟨caption, hcaption⟩ := exists_editBranch? (hbelow .caption)
      rw [edit?_of_not_isRun hrun, show editAll? n.children = _ from hchildren,
        show editAll? n.title = _ from htitle, htag, hcaption]
      simp only [hgate]
      exact ⟨_, rfl⟩

theorem exists_mergeTree? {n : Node} (h : n.isProper = true) : ∃ n', mergeTree? n = .ok n' := by
  obtain ⟨left, hleft⟩ := exists_edit?_of_isProper h
  rw [mergeTree?_eq, hleft]
  exact ⟨_, rfl⟩

/-- Wrapping all runs does not depend on the properties of a document. -/
theorem mergeTree?_withElement {doc : Node} {properties : Attributes}
    (h : doc.element = .document properties) (other : Attributes) :
    mergeTree? (doc.withElement (.document other)) =
      (·.withElement (.document other)) <$> mergeTree? doc := by
  have hrun : isRun doc = false := by rw [isRun, kind, h]; rfl
  have hgate : ∀ b, editGate b (doc.withElement (.document other)) = editGate b doc := by
    intro b
    have htext : doc.textFault? = none := by rw [textFault?, h]
    rw [editGate, editFault?, editGate, editFault?, htext]
    rfl
  rw [mergeTree?_eq, mergeTree?_eq, edit?_of_not_isRun hrun,
    edit?_of_not_isRun (n := doc.withElement (.document other)) rfl]
  simp only [hgate, map_bind, map_pure]
  rfl

end MathRun

namespace Metadata

/-! ## Metadata -/

@[simp] theorem fst_cleaned (property : String × Json) : (cleaned property).1 = property.1 := by
  obtain ⟨key, value⟩ := property
  cases value <;> rfl

@[simp] theorem cleaned_cleaned (property : String × Json) :
    cleaned (cleaned property) = cleaned property := by
  obtain ⟨key, value⟩ := property
  cases value with
  | str t =>
    simp only [cleaned]
    split
    · rw [Wrapper.strip_strip]
    · rfl
  | _ => rfl

theorem cleaned_of_notMem {property : String × Json} (h : property.1 ∉ annotated) :
    cleaned property = property := by
  obtain ⟨key, value⟩ := property
  cases value with
  | str t => simp [cleaned, show key ∉ annotated from h]
  | _ => rfl

theorem lookup_map_cleaned (properties : Attributes) (key : String) :
    (properties.map cleaned).lookup key =
      (properties.lookup key).map fun value ↦ (cleaned (key, value)).2 := by
  induction properties with
  | nil => rfl
  | cons property properties ih =>
    rw [List.map_cons, List.lookup_cons, List.lookup_cons, fst_cleaned, ih]
    cases h : key == property.1 with
    | true =>
      rw [beq_iff_eq.mp h]
      rfl
    | false => rfl

/-- Cleaned properties are wrong where the properties were. -/
theorem fault?_map_cleaned (properties : Attributes) (key : String) :
    fault? (properties.map cleaned) key = fault? properties key := by
  have htext : ∀ t, ((some (Json.str t)).filter Json.isTrue).filter (·.text?.isNone) = none := by
    intro t
    cases h : (Json.str t).isTrue <;> simp [Option.filter, h]
  unfold fault? Entries.trueLoose? Entries.true?
  rw [lookup_map_cleaned]
  cases properties.lookup key with
  | none => rfl
  | some value =>
    cases value with
    | str t => simp only [Option.map_some, cleaned, htext]
    | _ => rfl

theorem clean?_eq {doc : Node} {properties : Attributes} (h : doc.element = .document properties) :
    clean? doc = match annotated.findSome? (fault? properties) with
      | some e => .error e
      | none => .ok (doc.withElement (.document (properties.map cleaned))) := by
  obtain ⟨⟨origin, postBlank, name, attributes, element, loose⟩, children, title, tag, caption⟩ :=
    doc
  obtain rfl : element = .document properties := h
  rfl

theorem clean?_eq_ok {n : Node} (h : ∀ properties, n.element ≠ .document properties) :
    clean? n = .ok n := by
  unfold clean?
  split
  · next properties he => exact absurd he (h properties)
  · rfl

/-- Cleaning metadata leaves a document that it leaves as it is. -/
theorem clean?_of_clean? {doc doc' : Node} (h : clean? doc = .ok doc') : clean? doc' = .ok doc' := by
  by_cases hdoc : ∃ properties, doc.element = .document properties
  · obtain ⟨properties, he⟩ := hdoc
    rw [clean?_eq he] at h
    split at h
    · cases h
    · next hfault =>
      obtain rfl := Except.ok.inj h
      have hsame : (annotated.findSome? fun key ↦ fault? (properties.map cleaned) key) = none := by
        simpa only [fault?_map_cleaned] using hfault
      have hdocument : (doc.withElement (.document (properties.map cleaned))).element =
          .document (properties.map cleaned) := rfl
      rw [clean?_eq hdocument, hsame, List.map_map]
      simp [Function.comp_def, Node.withElement]
  · have hother := clean?_eq_ok fun properties he ↦ hdoc ⟨properties, he⟩
    obtain rfl := Except.ok.inj (hother.symm.trans h)
    exact hother

/-- Cleaning metadata leaves a settled tree settled. -/
theorem mergeTree?_of_clean? {doc doc' : Node} (hmerge : MathRun.mergeTree? doc = .ok doc)
    (h : clean? doc = .ok doc') : MathRun.mergeTree? doc' = .ok doc' := by
  by_cases hdoc : ∃ properties, doc.element = .document properties
  · obtain ⟨properties, he⟩ := hdoc
    rw [clean?_eq he] at h
    split at h
    · cases h
    · obtain rfl := Except.ok.inj h
      rw [MathRun.mergeTree?_withElement he, hmerge]
      rfl
  · have hother := clean?_eq_ok fun properties he ↦ hdoc ⟨properties, he⟩
    obtain rfl := Except.ok.inj (hother.symm.trans h)
    exact hmerge

/-- It does not matter whether the runs are wrapped or the metadata are cleaned first. -/
theorem mergeTree?_bind_clean? (doc doc' : Node) :
    (MathRun.mergeTree? doc >>= clean?) = .ok doc' ↔
      (clean? doc >>= MathRun.mergeTree?) = .ok doc' := by
  by_cases hdoc : ∃ properties, doc.element = .document properties
  · obtain ⟨properties, he⟩ := hdoc
    rw [clean?_eq he]
    cases hmerge : MathRun.mergeTree? doc with
    | error e =>
      cases annotated.findSome? (fault? properties) with
      | some e' => exact ⟨nofun, nofun⟩
      | none =>
        show Except.error e = .ok doc' ↔ MathRun.mergeTree? (doc.withElement _) = .ok doc'
        rw [MathRun.mergeTree?_withElement he, hmerge]
        exact ⟨nofun, nofun⟩
    | ok merged =>
      have helement := congrArg NodeInfo.element (MathRun.isSettled_of_mergeTree? hmerge).1
      have he' : merged.element = .document properties := helement.trans he
      show clean? merged = .ok doc' ↔ _
      rw [clean?_eq he']
      cases annotated.findSome? (fault? properties) with
      | some e => exact Iff.rfl
      | none =>
        show _ ↔ MathRun.mergeTree? (doc.withElement _) = .ok doc'
        rw [MathRun.mergeTree?_withElement he, hmerge]
        exact Iff.rfl
  · rw [clean?_eq_ok fun properties he ↦ hdoc ⟨properties, he⟩]
    cases hmerge : MathRun.mergeTree? doc with
    | error e =>
      show _ ↔ MathRun.mergeTree? doc = .ok doc'
      rw [hmerge]
      exact Iff.rfl
    | ok merged =>
      have helement := congrArg NodeInfo.element (MathRun.isSettled_of_mergeTree? hmerge).1
      have hother : ∀ properties, merged.element ≠ .document properties :=
        fun properties he ↦ hdoc ⟨properties, helement.symm.trans he⟩
      show clean? merged = .ok doc' ↔ MathRun.mergeTree? doc = .ok doc'
      rw [clean?_eq_ok hother, hmerge]

/-- What cleaning leaves differs in nothing but the values of annotated properties. -/
theorem eq_or_of_clean? {doc doc' : Node} (h : clean? doc = .ok doc') :
    doc' = doc ∨ ∃ properties properties', doc.element = .document properties ∧
      doc' = doc.withElement (.document properties') ∧
        List.Forall₂ (fun p p' ↦ p'.1 = p.1 ∧ (p.1 ∉ annotated → p' = p)) properties
          properties' := by
  by_cases hdoc : ∃ properties, doc.element = .document properties
  · obtain ⟨properties, he⟩ := hdoc
    rw [clean?_eq he] at h
    split at h
    · cases h
    · refine .inr ⟨properties, properties.map cleaned, he, (Except.ok.inj h).symm, ?_⟩
      rw [List.forall₂_map_right_iff, List.forall₂_same]
      exact fun p _ ↦ ⟨fst_cleaned p, cleaned_of_notMem⟩
  · left
    rw [clean?_eq_ok fun properties he ↦ hdoc ⟨properties, he⟩] at h
    exact (Except.ok.inj h).symm

/-- The metadata of a well-typed document can be cleaned. -/
theorem exists_clean? {doc : Node} (h : doc.info.isWellTyped = true) :
    ∃ doc', clean? doc = .ok doc' := by
  by_cases hdoc : ∃ properties, doc.element = .document properties
  · obtain ⟨properties, he⟩ := hdoc
    have htexts : properties.areTexts = true := by
      have helement : doc.element.isWellTyped = true := (Bool.and_eq_true_iff.mp h).2
      rwa [he] at helement
    have hfault : annotated.findSome? (fault? properties) = none := by
      refine List.findSome?_eq_none_iff.mpr fun key _ ↦ ?_
      rw [fault?, Entries.trueLoose?_eq_none ((Entries.areTexts_iff properties).mp htexts).2]
      rfl
    rw [clean?_eq he, hfault]
    exact ⟨_, rfl⟩
  · exact ⟨doc, clean?_eq_ok fun properties he ↦ hdoc ⟨properties, he⟩⟩

end Metadata

/-- A well-typed document can be prepared. -/
theorem exists_prepare? {doc : Node} (h : doc.isWellTyped = true) :
    ∃ prepared, prepare? doc = .ok prepared := by
  obtain ⟨merged, hmerge⟩ := MathRun.exists_mergeTree? (Node.isProper_of_isWellTyped h)
  have hmerged := (MathRun.isSettled_of_mergeTree? hmerge).1
  obtain ⟨prepared, hprepared⟩ : ∃ prepared, Metadata.clean? merged = .ok prepared :=
    Metadata.exists_clean? (hmerged ▸ Node.info_isWellTyped h)
  refine ⟨prepared, ?_⟩
  rw [prepare?, hmerge]
  exact hprepared

/-- Wrapping the math runs of a document once more changes nothing, and neither does preparing it
once more. It does not matter whether the runs are wrapped or the metadata are cleaned first, and
cleaning touches nothing but the values of annotated properties. A well-typed document stops none
of these edits. -/
theorem prepares_once_and_for_all (doc : Node) :
    (MathRun.mergeTree? doc >>= MathRun.mergeTree?) = MathRun.mergeTree? doc ∧
      (prepare? doc >>= prepare?) = prepare? doc ∧
      (∀ doc', (MathRun.mergeTree? doc >>= Metadata.clean?) = .ok doc' ↔
        (Metadata.clean? doc >>= MathRun.mergeTree?) = .ok doc') ∧
      (∀ doc', Metadata.clean? doc = .ok doc' →
        doc' = doc ∨ ∃ properties properties', doc.element = .document properties ∧
          doc' = doc.withElement (.document properties') ∧
            List.Forall₂ (fun p p' ↦ p'.1 = p.1 ∧ (p.1 ∉ Metadata.annotated → p' = p)) properties
              properties') ∧
      (doc.isWellTyped = true → ∃ merged cleaned prepared, MathRun.mergeTree? doc = .ok merged ∧
        Metadata.clean? doc = .ok cleaned ∧ prepare? doc = .ok prepared) := by
  refine ⟨?_, ?_, Metadata.mergeTree?_bind_clean? doc, fun doc' ↦ Metadata.eq_or_of_clean?, ?_⟩
  · cases hmerge : MathRun.mergeTree? doc with
    | error e => rfl
    | ok merged => exact MathRun.mergeTree?_of_isSettled (MathRun.isSettled_of_mergeTree? hmerge).2
  · cases hprepare : prepare? doc with
    | error e => rfl
    | ok prepared =>
      obtain ⟨merged, hmerge, hclean⟩ := exists_of_bind_eq_ok hprepare
      have hsettled := MathRun.mergeTree?_of_isSettled (MathRun.isSettled_of_mergeTree? hmerge).2
      show prepare? prepared = .ok prepared
      rw [prepare?, Metadata.mergeTree?_of_clean? hsettled hclean]
      exact Metadata.clean?_of_clean? hclean
  · intro hdoc
    obtain ⟨merged, hmerge⟩ := MathRun.exists_mergeTree? (Node.isProper_of_isWellTyped hdoc)
    obtain ⟨cleaned, hclean⟩ := Metadata.exists_clean? (Node.info_isWellTyped hdoc)
    obtain ⟨prepared, hprepared⟩ := exists_prepare? hdoc
    exact ⟨merged, cleaned, prepared, hmerge, hclean, hprepared⟩

/-- A document with a date, and a heading with a formula in its title. -/
def mathTitle : Node :=
  ⟨⟨.unknown, 0, none, [], .document [("date", .str "today")], []⟩, [heading], [], none, none⟩
where
  heading : Node :=
    ⟨⟨.unknown, 0, none, [], .heading ⟨1, none, none, none, false, []⟩, []⟩, [], formula, none, none⟩
  formula : List Node := [.inline .unknown 0 (.entity "alpha" "\\alpha" true "α") [], sub]
  sub : Node := .inline .unknown 1 .subscript [.inline .unknown 0 (.text "i") []]

theorem mathTitle_prepares_once :
    mathTitle.isWellTyped = true ∧ ∃ prepared, prepare? mathTitle = .ok prepared ∧
      prepared ≠ mathTitle ∧ prepare? prepared = .ok prepared := by
  obtain ⟨-, hagain, -, -, hexists⟩ := prepares_once_and_for_all mathTitle
  obtain ⟨-, -, prepared, -, -, hprepared⟩ := hexists (by decide)
  refine ⟨by decide, prepared, hprepared, ?_, ?_⟩
  · rintro rfl
    revert hprepared
    decide
  · rwa [hprepared] at hagain

end Typeset

import Mathlib.Data.List.Chain
import Mathlib.Data.List.ModifyLast
import Typeset.Proofs.Tree.Prepared

/-!
# Runs as they are wrapped

A sequence is gone over once. What opens no run stays where it is, and anything else starts a run,
which takes in what joins it and is closed before the first node that does not. So every run is
well-formed and cannot take in what comes next, and a sequence in which this is so is what wrapping
leaves of its members in a row.
-/

namespace Typeset

/-- The node with other space after it. -/
def Node.withBlank (n : Node) (blank : Int) : Node :=
  ⟨⟨n.info.origin, blank, n.info.name, n.info.attributes, n.info.element, n.info.loose⟩,
    n.children, n.title, n.tag, n.caption⟩

namespace MathRun

open Node

variable {n last : Node} {earlier ns es : List Node}

/-! ## The shape of runs -/

/-- The run holds an opener and then openers and scripts, with one subscript and one superscript at
most, and no space stands after any of them. It comes from where the first of them does, and holds
nothing else. -/
structure IsFormed (r : Node) : Prop where
  first : ∃ first rest, r.children = first :: rest ∧ opens first = true ∧
    r.info = ⟨first.origin, r.postBlank, none, [], .mathRun, []⟩
  members : ∀ m ∈ r.children, opens m = true ∨ isScript m = true
  scripts : ∀ kind, kind = .subscript ∨ kind = .superscript →
    r.children.countP (·.kind == kind) ≤ 1
  noBlank : ∀ m ∈ r.children, m.postBlank = 0
  bare : r.title = [] ∧ r.tag = none ∧ r.caption = none

/-- A run with no space after it could not take in the next node: that is no run, and no script of a
kind that the run lacks. -/
def IsMaximal (r next : Node) : Prop :=
  isRun r = true → r.postBlank = 0 →
    isRun next = false ∧ (isScript next = true → ∃ m ∈ r.children, m.kind = next.kind)

/-- What a node stands for in a sequence: a run for its members, the last one with the space after
the run, and any other node for itself. -/
def parts (n : Node) : List Node :=
  if isRun n then n.children.modifyLast (·.withBlank n.postBlank) else [n]

/-! ## Nodes -/

theorem isRun_eq_false_of_opens (h : opens n = true) : isRun n = false := by
  refine beq_eq_false_iff_ne.mpr fun hkind ↦ ?_
  unfold opens at h
  split at h
  · next he => simp [kind, he, Element.kind] at hkind
  · next he => simp [kind, he, Element.kind] at hkind
  · cases h

theorem isScript_iff : isScript n = true ↔ n.kind = .subscript ∨ n.kind = .superscript := by
  simp [isScript]

theorem isRun_eq_false_of_isScript (h : isScript n = true) : isRun n = false := by
  rcases isScript_iff.mp h with hkind | hkind <;> simp [isRun, hkind]

theorem isScript_eq_false_of_opens (h : opens n = true) : isScript n = false := by
  refine Bool.eq_false_iff.mpr fun hscript ↦ ?_
  unfold opens at h
  rw [isScript_iff] at hscript
  split at h
  · next he => simp [kind, he, Element.kind] at hscript
  · next he => simp [kind, he, Element.kind] at hscript
  · cases h

theorem hasNoBlank_iff (h : n.info.loose = []) : hasNoBlank n = true ↔ n.postBlank = 0 := by
  simp [hasNoBlank, loose?, NodeInfo.loose?, h]

theorem joins_iff {run : List Node} :
    joins n run = true ↔
      opens n = true ∨ (isScript n = true ∧ ∀ m ∈ run, m.kind ≠ n.kind) := by
  simp [joins]

theorem joins_eq_false_iff {run : List Node} :
    joins n run = false ↔
      opens n = false ∧ (isScript n = true → ∃ m ∈ run, m.kind = n.kind) := by
  simp [joins]

@[simp] theorem withBlank_withBlank (n : Node) (blank other : Int) :
    (n.withBlank blank).withBlank other = n.withBlank other := rfl

@[simp] theorem withBlank_postBlank (n : Node) : n.withBlank n.postBlank = n := by cases n; rfl

theorem withoutBlank_eq (h : n.info.loose = []) : n.withoutBlank = n.withBlank 0 := by
  rw [withoutBlank, withBlank, h, List.filter_nil]

namespace IsFormed

variable {r : Node}

theorem isRun (h : IsFormed r) : isRun r = true := by
  obtain ⟨first, rest, -, -, hinfo⟩ := h.first
  rw [MathRun.isRun, kind, element, hinfo]
  rfl

theorem isRun_member (h : IsFormed r) {m : Node} (hm : m ∈ r.children) : MathRun.isRun m = false :=
  (h.members m hm).elim isRun_eq_false_of_opens isRun_eq_false_of_isScript

end IsFormed

theorem close_eq (h : last.info.loose = []) :
    close last earlier =
      ⟨⟨((last :: earlier).getLast (List.cons_ne_nil _ _)).origin, last.postBlank, none, [],
        .mathRun, []⟩, earlier.reverse ++ [last.withBlank 0], [], none, none⟩ := by
  rw [close, looseBlank, withoutBlank_eq h, h, List.filter_nil]

/-! ## Open runs -/

/-- The members of a run that has not been closed yet, the last one first. -/
inductive IsOpenRun : Node → List Node → Prop
  | start {n : Node} : opens n = true → IsOpenRun n []
  | join {n last : Node} {earlier : List Node} : IsOpenRun last earlier → hasNoBlank last = true →
      joins n (last :: earlier) = true → IsOpenRun n (last :: earlier)

namespace IsOpenRun

theorem opens_getLast (h : IsOpenRun last earlier) :
    opens ((last :: earlier).getLast (List.cons_ne_nil _ _)) = true := by
  induction h with
  | start hopens => exact hopens
  | join _ _ _ ih => rwa [List.getLast_cons (List.cons_ne_nil _ _)]

theorem members (h : IsOpenRun last earlier) :
    ∀ m ∈ last :: earlier, opens m = true ∨ isScript m = true := by
  induction h with
  | start hopens => exact fun m hm ↦ .inl (List.mem_singleton.mp hm ▸ hopens)
  | join _ _ hjoins ih =>
    intro m hm
    rcases List.mem_cons.mp hm with rfl | hm
    · exact (joins_iff.mp hjoins).imp_right And.left
    · exact ih m hm

theorem scripts (h : IsOpenRun last earlier) {kind : Kind}
    (hkind : kind = .subscript ∨ kind = .superscript) :
    (last :: earlier).countP (·.kind == kind) ≤ 1 := by
  induction h with
  | start hopens => exact List.countP_le_length
  | @join n last earlier _ _ hjoins ih =>
    by_cases hn : n.kind = kind
    · -- a script joins only where there is none of its kind
      have hscript : isScript n = true := isScript_iff.mpr (hn ▸ hkind)
      rcases joins_iff.mp hjoins with hopens | ⟨-, hnone⟩
      · rw [isScript_eq_false_of_opens hopens] at hscript
        cases hscript
      · have hzero : (last :: earlier).countP (·.kind == kind) = 0 := by
          refine List.countP_eq_zero.mpr fun m hm hmkind ↦ hnone m hm ?_
          rw [hn, eq_of_beq hmkind]
        rw [List.countP_cons, hzero]
        split <;> omega
    · rw [List.countP_cons_of_neg (by simp [hn])]
      exact ih

theorem noBlank (h : IsOpenRun last earlier) : ∀ m ∈ earlier, hasNoBlank m = true := by
  induction h with
  | start => simp
  | join _ hblank _ ih => exact List.forall_mem_cons.mpr ⟨hblank, ih⟩

/-- The space after the last member makes no difference. -/
theorem withBlank (h : IsOpenRun last earlier) (blank : Int) :
    IsOpenRun (last.withBlank blank) earlier := by
  cases h with
  | start hopens => exact .start hopens
  | join hrun hblank hjoins => exact .join hrun hblank hjoins

/-- The members of a closed run could be those of an open one. -/
theorem of_members (hfirst : opens ((last :: earlier).getLast (List.cons_ne_nil _ _)) = true)
    (hmembers : ∀ m ∈ last :: earlier, opens m = true ∨ isScript m = true)
    (hscripts : ∀ kind, kind = .subscript ∨ kind = .superscript →
      (last :: earlier).countP (·.kind == kind) ≤ 1)
    (hblank : ∀ m ∈ earlier, hasNoBlank m = true) : IsOpenRun last earlier := by
  induction earlier generalizing last with
  | nil => exact .start hfirst
  | cons n earlier ih =>
    rw [List.getLast_cons (List.cons_ne_nil _ _)] at hfirst
    have hle : ∀ kind, (n :: earlier).countP (·.kind == kind) ≤
        (last :: n :: earlier).countP (·.kind == kind) :=
      fun kind ↦ (List.sublist_cons_self _ _).countP_le
    refine .join (ih hfirst (fun m hm ↦ hmembers m (.tail _ hm))
      (fun kind hkind ↦ (hle kind).trans (hscripts kind hkind))
      fun m hm ↦ hblank m (.tail _ hm)) (hblank n List.mem_cons_self) (joins_iff.mpr ?_)
    refine (hmembers last List.mem_cons_self).imp_right fun hscript ↦ ⟨hscript, fun m hm heq ↦ ?_⟩
    have hone := hscripts last.kind (isScript_iff.mp hscript)
    rw [List.countP_cons_of_pos (by simp)] at hone
    have hpos : 0 < (n :: earlier).countP (·.kind == last.kind) :=
      List.countP_pos_iff.mpr ⟨m, hm, by simp [heq]⟩
    omega

/-- What is closed is well-formed. -/
theorem isFormed_close (h : IsOpenRun last earlier)
    (hloose : ∀ m ∈ last :: earlier, m.info.loose = []) : IsFormed (close last earlier) := by
  have hlast := hloose last List.mem_cons_self
  have hcount : ∀ kind : Kind, (earlier.reverse ++ [last.withBlank 0]).countP (·.kind == kind) =
      (last :: earlier).countP (·.kind == kind) := by
    intro kind
    rw [List.countP_append, List.countP_reverse, List.countP_cons, List.countP_cons,
      List.countP_nil, Nat.zero_add]
    rfl
  rw [close_eq hlast]
  refine ⟨?_, fun m hm ↦ ?_, fun kind hkind ↦ hcount kind ▸ h.scripts hkind, fun m hm ↦ ?_,
    rfl, rfl, rfl⟩
  · have hopens := h.opens_getLast
    rcases List.eq_nil_or_concat' earlier with rfl | ⟨ks, first, rfl⟩
    · exact ⟨last.withBlank 0, [], rfl, hopens, rfl⟩
    · have hfirst : (last :: (ks ++ [first])).getLast (List.cons_ne_nil _ _) = first := by
        simp [List.getLast_cons]
      rw [hfirst] at hopens ⊢
      exact ⟨first, ks.reverse ++ [last.withBlank 0], by simp, hopens, rfl⟩
  · rcases List.mem_append.mp hm with hm | hm
    · exact h.members m (.tail _ (List.mem_reverse.mp hm))
    · exact List.mem_singleton.mp hm ▸ h.members last List.mem_cons_self
  · rcases List.mem_append.mp hm with hm | hm
    · have hm := List.mem_reverse.mp hm
      exact (hasNoBlank_iff (hloose m (.tail _ hm))).mp (h.noBlank m hm)
    · rw [List.mem_singleton.mp hm]
      rfl

end IsOpenRun

theorem parts_of_not_isRun (h : isRun n = false) : parts n = [n] := by
  rw [parts, h, if_neg Bool.false_ne_true]

/-- A closed run stands for the members that it was closed with. -/
theorem parts_close (hlast : last.info.loose = []) :
    parts (close last earlier) = (last :: earlier).reverse := by
  have hmembers : parts (close last earlier) =
      (earlier.reverse ++ [last.withoutBlank]).modifyLast (·.withBlank last.postBlank) := rfl
  rw [hmembers, List.modifyLast_concat, withoutBlank_eq hlast, withBlank_withBlank,
    withBlank_postBlank, List.reverse_cons]

/-- The members of a closed run are of the kinds that they were. -/
theorem exists_mem_close_iff {kind : Kind} :
    (∃ m ∈ (close last earlier).children, m.kind = kind) ↔
      ∃ m ∈ last :: earlier, m.kind = kind := by
  show (∃ m ∈ earlier.reverse ++ [last.withoutBlank], m.kind = kind) ↔ _
  simp only [List.mem_append, List.mem_reverse, List.mem_cons, List.not_mem_nil, or_false,
    or_and_right, exists_or, exists_eq_left]
  exact or_comm

namespace IsFormed

variable {r l : Node} {init : List Node}

/-- The last member that is gone back to is the opener that the run comes from. -/
theorem getLast_members (h : IsFormed r) (hchildren : r.children = init ++ [l]) :
    opens ((l :: init.reverse).getLast (List.cons_ne_nil _ _)) = true ∧
      r.info = ⟨((l :: init.reverse).getLast (List.cons_ne_nil _ _)).origin, r.postBlank, none, [],
        .mathRun, []⟩ := by
  obtain ⟨first, rest, hfirst, hopens, hinfo⟩ := h.first
  have hreverse : l :: init.reverse = (first :: rest).reverse := by
    rw [← hfirst, hchildren, List.reverse_append]
    rfl
  simp only [hreverse, List.getLast_reverse, List.head_cons]
  exact ⟨hopens, hinfo⟩

/-- The members of a well-formed run could be those of an open one. -/
theorem isOpenRun (h : IsFormed r) (hloose : ∀ m ∈ r.children, m.info.loose = [])
    (hchildren : r.children = init ++ [l]) : IsOpenRun l init.reverse := by
  have hreverse : l :: init.reverse = r.children.reverse := by
    rw [hchildren, List.reverse_append]
    rfl
  refine .of_members (h.getLast_members hchildren).1 ?_ ?_ fun m hm ↦ ?_
  · rw [hreverse]
    exact fun m hm ↦ h.members m (List.mem_reverse.mp hm)
  · rw [hreverse]
    intro kind hkind
    rw [List.countP_reverse]
    exact h.scripts kind hkind
  · have hm : m ∈ r.children := hchildren ▸ List.mem_append_left _ (List.mem_reverse.mp hm)
    exact (hasNoBlank_iff (hloose m hm)).mpr (h.noBlank m hm)

/-- A well-formed run is closed behind its last member with the space after the run. -/
theorem eq_close (h : IsFormed r) (hloose : ∀ m ∈ r.children, m.info.loose = [])
    (hchildren : r.children = init ++ [l]) :
    r = close (l.withBlank r.postBlank) init.reverse := by
  have hl : l ∈ r.children := hchildren ▸ List.mem_append_right _ (List.mem_singleton_self l)
  have hnone : (l.withBlank r.postBlank).info.loose = [] := hloose l hl
  have hlast : (l.withBlank r.postBlank).withBlank 0 = l := by
    have hself := withBlank_postBlank l
    rwa [h.noBlank l hl] at hself
  have horigin : ((l.withBlank r.postBlank :: init.reverse).getLast
      (List.cons_ne_nil _ _)).origin =
        ((l :: init.reverse).getLast (List.cons_ne_nil _ _)).origin := by
    cases init.reverse <;> rfl
  have hinfo := (h.getLast_members hchildren).2
  obtain ⟨htitle, htag, hcaption⟩ := h.bare
  rw [close_eq hnone, hlast, horigin, List.reverse_reverse, ← hchildren]
  obtain ⟨info, children, title, tag, caption⟩ := r
  subst htitle htag hcaption
  exact congrArg (fun info ↦ (⟨info, children, [], none, none⟩ : Node)) hinfo

/-- A well-formed run is a closed one. -/
theorem exists_close (h : IsFormed r) (hloose : ∀ m ∈ r.children, m.info.loose = []) :
    ∃ last earlier, IsOpenRun last earlier ∧ r = close last earlier ∧
      ∀ m ∈ last :: earlier, m.info.loose = [] := by
  rcases List.eq_nil_or_concat' r.children with hnil | ⟨init, l, hchildren⟩
  · obtain ⟨first, rest, hfirst, -⟩ := h.first
    rw [hnil] at hfirst
    cases hfirst
  · refine ⟨l.withBlank r.postBlank, init.reverse, (h.isOpenRun hloose hchildren).withBlank _,
      h.eq_close hloose hchildren, List.forall_mem_cons.mpr ⟨?_, fun m hm ↦ ?_⟩⟩
    · exact hloose l (hchildren ▸ List.mem_append_right _ (List.mem_singleton_self l))
    · exact hloose m (hchildren ▸ List.mem_append_left _ (List.mem_reverse.mp hm))

end IsFormed

/-! ## Sequences -/

/-- The second sequence is the first one with each longest run wrapped. -/
inductive Merges : List Node → List Node → Prop
  | nil : Merges [] []
  | node {n : Node} {ns es : List Node} : opens n = false → Merges ns es →
      Merges (n :: ns) (n :: es)
  | run {last : Node} {earlier ns es : List Node} : IsOpenRun last earlier →
      (∀ n ∈ ns.head?, hasNoBlank last = true → joins n (last :: earlier) = false) →
        Merges ns es → Merges ((last :: earlier).reverse ++ ns) (close last earlier :: es)

theorem merges_merge (ns : List Node) :
    Merges ns (merge ns) ∧ ∀ last earlier, IsOpenRun last earlier →
      Merges ((last :: earlier).reverse ++ ns) (extend last earlier ns) := by
  induction ns with
  | nil =>
    exact ⟨.nil, fun last earlier hrun ↦ .run hrun (by simp) .nil⟩
  | cons n ns ih =>
    have hrest : Merges (n :: ns) (if opens n then extend n [] ns else n :: merge ns) := by
      split
      · next hopens => exact ih.2 n [] (.start hopens)
      · next hopens => exact .node (Bool.eq_false_iff.mpr hopens) ih.1
    refine ⟨hrest, fun last earlier hrun ↦ ?_⟩
    rw [extend]
    split
    · next hjoins =>
      obtain ⟨hblank, hjoins⟩ := Bool.and_eq_true_iff.mp hjoins
      have hlonger := ih.2 n (last :: earlier) (.join hrun hblank hjoins)
      rwa [List.reverse_cons, List.append_assoc] at hlonger
    · next hstops =>
      refine .run hrun (fun m hm hblank ↦ ?_) hrest
      obtain rfl : n = m := Option.some.inj hm
      simpa [hblank] using hstops

theorem merge_reverse_append (h : IsOpenRun last earlier) (ns : List Node) :
    merge ((last :: earlier).reverse ++ ns) = extend last earlier ns := by
  induction h generalizing ns with
  | start hopens =>
    show merge (_ :: ns) = _
    rw [merge, if_pos hopens]
  | join _ hblank hjoins ih =>
    rw [List.reverse_cons, List.append_assoc, List.singleton_append, ih, extend,
      if_pos (Bool.and_eq_true_iff.mpr ⟨hblank, hjoins⟩)]

namespace Merges

/-- There is one way to wrap each longest run. -/
theorem merge_eq (h : Merges ns es) : merge ns = es := by
  induction h with
  | nil => rfl
  | node hopens _ ih => rw [merge, if_neg (Bool.eq_false_iff.mp hopens), ih]
  | @run last earlier ns es hrun hstops _ ih =>
    rw [merge_reverse_append hrun, ← ih]
    cases ns with
    | nil => rfl
    | cons n ns =>
      have hends : ¬ (hasNoBlank last && joins n (last :: earlier)) = true := by
        cases hblank : hasNoBlank last with
        | false => simp
        | true => simp [hstops n rfl hblank]
      rw [extend, if_neg hends, merge]

/-- What opens no run stays, and everything else is a closed run of nodes that were there. -/
theorem mem_cases (h : Merges ns es) {e : Node} (he : e ∈ es) :
    (e ∈ ns ∧ opens e = false) ∨ ∃ last earlier, e = close last earlier ∧
      IsOpenRun last earlier ∧ ∀ m ∈ last :: earlier, m ∈ ns := by
  induction h with
  | nil => cases he
  | @node n ns es hopens _ ih =>
    rcases List.mem_cons.mp he with rfl | he
    · exact .inl ⟨List.mem_cons_self, hopens⟩
    · exact (ih he).imp (fun h ↦ ⟨.tail _ h.1, h.2⟩) fun ⟨last, earlier, heq, hrun, hmem⟩ ↦
        ⟨last, earlier, heq, hrun, fun m hm ↦ .tail _ (hmem m hm)⟩
  | @run last earlier ns es hrun _ _ ih =>
    rcases List.mem_cons.mp he with rfl | he
    · exact .inr ⟨last, earlier, rfl, hrun,
        fun m hm ↦ List.mem_append_left _ (List.mem_reverse.mpr hm)⟩
    · refine (ih he).imp (fun h ↦ ⟨List.mem_append_right _ h.1, h.2⟩) ?_
      rintro ⟨last, earlier, heq, hrun, hmem⟩
      exact ⟨last, earlier, heq, hrun, fun m hm ↦ List.mem_append_right _ (hmem m hm)⟩

/-- What comes first was there first, or what opens a run was. -/
theorem head?_cases (h : Merges ns es) {e : Node} (he : e ∈ es.head?) :
    e ∈ ns.head? ∨ ∃ n ∈ ns.head?, opens n = true := by
  cases h with
  | nil => cases he
  | node _ _ => exact .inl he
  | @run last earlier ns es hrun _ _ =>
    refine .inr ⟨(last :: earlier).getLast (List.cons_ne_nil _ _), ?_, hrun.opens_getLast⟩
    rw [List.head?_append, List.head?_reverse,
      List.getLast?_eq_some_getLast (List.cons_ne_nil _ _)]
    rfl

section

variable (h : Merges ns es) (hloose : ∀ n ∈ ns, n.info.loose = [])
  (hruns : ∀ n ∈ ns, isRun n = false)

include h hloose hruns

/-- Nothing is lost: the nodes stand for what was there. -/
theorem flatMap_parts : es.flatMap parts = ns := by
  induction h with
  | nil => rfl
  | node _ _ ih =>
    rw [List.flatMap_cons, parts_of_not_isRun (hruns _ List.mem_cons_self),
      ih (fun m hm ↦ hloose m (.tail _ hm)) fun m hm ↦ hruns m (.tail _ hm)]
    rfl
  | run hrun _ _ ih =>
    rw [List.flatMap_cons, parts_close (hloose _ (by simp)),
      ih (fun m hm ↦ hloose m (List.mem_append_right _ hm))
        fun m hm ↦ hruns m (List.mem_append_right _ hm)]

/-- All runs are well-formed. -/
theorem isFormed {e : Node} (he : e ∈ es) (hrun : isRun e = true) : IsFormed e := by
  rcases h.mem_cases he with ⟨he, -⟩ | ⟨last, earlier, rfl, hopen, hmem⟩
  · rw [hruns e he] at hrun
    cases hrun
  · exact hopen.isFormed_close fun m hm ↦ hloose m (hmem m hm)

/-- No run could take in what comes after it. -/
theorem isChain : es.IsChain IsMaximal := by
  induction h with
  | nil => exact .nil
  | @node n ns es _ _ ih =>
    refine List.isChain_cons.mpr ⟨fun m _ hrun ↦ ?_, ih (fun m hm ↦ hloose m (.tail _ hm))
      fun m hm ↦ hruns m (.tail _ hm)⟩
    rw [hruns n List.mem_cons_self] at hrun
    cases hrun
  | @run last earlier ns es hrun hstops hmerges ih =>
    refine List.isChain_cons.mpr ⟨fun m hm _ hblank ↦ ?_, ih
      (fun m hm ↦ hloose m (List.mem_append_right _ hm))
      fun m hm ↦ hruns m (List.mem_append_right _ hm)⟩
    have hnone := (hasNoBlank_iff (hloose last (by simp))).mpr hblank
    have hfails := fun n hn ↦ joins_eq_false_iff.mp (hstops n hn hnone)
    rcases hmerges.head?_cases hm with hm | ⟨n, hn, hopens⟩
    · have hmem := List.mem_append_right (last :: earlier).reverse (List.mem_of_mem_head? hm)
      refine ⟨hruns m hmem, fun hscript ↦ ?_⟩
      exact exists_mem_close_iff.mpr ((hfails m hm).2 hscript)
    · -- what opens a run would have been taken in
      rw [(hfails n hn).1] at hopens
      cases hopens

end

/-- Where all runs are well-formed and as long as can be, wrapping the runs of what the nodes stand
for leaves them. -/
theorem of_parts (hformed : ∀ e ∈ es, isRun e = true → IsFormed e)
    (hloose : ∀ e ∈ es, isRun e = true → ∀ m ∈ e.children, m.info.loose = [])
    (hopens : ∀ e ∈ es, opens e = false) (hchain : es.IsChain IsMaximal) :
    Merges (es.flatMap parts) es := by
  induction es with
  | nil => exact .nil
  | cons e es ih =>
    obtain ⟨hnext, hchain⟩ := List.isChain_cons.mp hchain
    have hrest := ih (fun k hk ↦ hformed k (.tail _ hk)) (fun k hk ↦ hloose k (.tail _ hk))
      (fun k hk ↦ hopens k (.tail _ hk)) hchain
    rw [List.flatMap_cons]
    cases hrun : isRun e with
    | false =>
      rw [parts_of_not_isRun hrun]
      exact .node (hopens e List.mem_cons_self) hrest
    | true =>
      obtain ⟨last, earlier, hopen, rfl, hmembers⟩ :=
        (hformed e List.mem_cons_self hrun).exists_close (hloose e List.mem_cons_self hrun)
      have hlast := hmembers last List.mem_cons_self
      rw [parts_close hlast]
      refine .run hopen (fun n hn hblank ↦ ?_) hrest
      have hzero := (hasNoBlank_iff hlast).mp hblank
      cases es with
      | nil => cases hn
      | cons s es =>
        obtain ⟨hnot, hscript⟩ := hnext s rfl rfl hzero
        rw [List.flatMap_cons, parts_of_not_isRun hnot] at hn
        obtain rfl : s = n := Option.some.inj hn
        exact joins_eq_false_iff.mpr ⟨hopens s (.tail _ List.mem_cons_self),
          fun hs ↦ exists_mem_close_iff.mp (hscript hs)⟩

end Merges

end MathRun

end Typeset

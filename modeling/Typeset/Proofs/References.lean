import Typeset.Proofs.Render.Labels

/-!
# References last

However often and in whatever order references are asked for, labels made, trees indexed and links
resolved: a place keeps the reference it was given, the references are numbered without gaps, and a
label that is there at all is the same each time.
-/

namespace Typeset

theorem Node.labelFault?_eq_none {n : Node} (h : n.isProper = true) : n.labelFault? = none := by
  have hprefix : n.prefixFault? = none := by
    unfold prefixFault?
    split
    · rw [loose?_eq_none h]
      rfl
    · exact figureFault?_eq_none h
    · rfl
  have hkey : n.keyFault? = none := by
    unfold keyFault?
    split <;> simp [textFieldFault?, h]
  rw [labelFault?, hprefix, hkey]
  rfl

namespace References

/-! ## Sessions -/

/-- What can be asked of references. -/
inductive Request where
  | index (p : Place)
  | reference (p : Place)
  | label (p : Place) (force : Bool)
  | link (kind : String) (path : Datum) (origin : Option Origin)
  | code (label : Datum) (origin : Option Origin)
  | footnote (label : Datum) (origin : Option Origin)

/-- What references answer. -/
inductive Answer where
  | indexed
  | token (t : String)
  | label (l : Option String)
  | target (o : Occurrence)
  | line (n : Int)

variable (node : Place → Node)

/-- The answer to a request about the nodes at places, and the references after it. -/
def respond (r : References) : Request → Except Failure Answer × References
  | .index p =>
    let (r, fault) := r.addSound p (node p)
    (match fault with
      | some e => .error e
      | none => .ok .indexed, r)
  | .reference p =>
    let (t, r) := r.reference p
    (.ok (.token t), r)
  | .label p force =>
    match r.label? ⟨p, node p⟩ force with
    | .ok (l, r) => (.ok (.label l), r)
    | .error e => (.error e, r)
  | .link kind path origin => (.target <$> r.index.resolveDatum kind path origin, r)
  | .code label origin => (.line <$> r.index.codeLine label origin, r)
  | .footnote label origin => (.target <$> r.index.footnote label origin, r)

/-- The answers to requests one after the other, and the references after them. -/
def session (r : References) : List Request → List (Request × Except Failure Answer) × References
  | [] => ([], r)
  | request :: requests =>
    let (answer, r) := respond node r request
    let (log, r) := session r requests
    ((request, answer) :: log, r)

/-! ## One request -/

theorem respond_label (r : References) (p : Place) (force : Bool) :
    respond node r (.label p force) =
      match (node p).labelFault? with
      | some e => (.error e, r)
      | none =>
        (.ok (.label (r.label ⟨p, node p⟩ force).1), (r.label ⟨p, node p⟩ force).2) := by
  simp only [respond, label?]
  cases (node p).labelFault? <;> rfl

theorem token_injective {i j : Nat} (h : token i = token j) : i = j := by
  have hdigits : Nat.toDigits 10 (i + 1) = Nat.toDigits 10 (j + 1) := by
    have h := congrArg String.toList h
    simpa [token] using h
  have hnumber := congrArg (Nat.ofDigitChars 10 · 0) hdigits
  simp only [Nat.ofDigitChars_ten_toDigits] at hnumber
  omega

/-- A place has the reference of its number, and is the next one if it had none. -/
theorem reference_cases (r : References) (p : Place) :
    (∃ k, r.places[k]? = some p ∧ r.reference p = (token k, r)) ∨
      p ∉ r.places ∧
        r.reference p = (token r.places.length, { r with places := r.places ++ [p] }) := by
  unfold reference
  cases h : r.places.idxOf? p with
  | some k =>
    obtain ⟨hk, heq, -⟩ := List.findIdx?_eq_some_iff_getElem.mp h
    refine .inl ⟨k, ?_, rfl⟩
    rw [List.getElem?_eq_getElem hk, beq_iff_eq.mp heq]
  | none => exact .inr ⟨List.idxOf?_eq_none_iff.mp h, rfl⟩

/-- What a request does to the places that have references: nothing, or it gives one to a place
without. That takes asking for the reference itself or for the label of a node without a key, and it
never comes with a failure. -/
def Allots (r : References) (request : Request) : Prop :=
  (respond node r request).2.places = r.places ∨
    ∃ p ∉ r.places, (respond node r request).2.places = r.places ++ [p] ∧
      (∃ answer, (respond node r request).1 = .ok answer) ∧
        (request = .reference p ∨ (∃ force, request = .label p force) ∧
          ((node p).explicitKey = none ∨ (node p).explicitKey = some ""))

theorem places_reference_cases (r : References) (p : Place) :
    (r.reference p).2.places = r.places ∨
      p ∉ r.places ∧ (r.reference p).2.places = r.places ++ [p] := by
  rcases r.reference_cases p with ⟨k, -, h⟩ | ⟨hp, h⟩
  · exact .inl (by rw [h])
  · exact .inr ⟨hp, by rw [h]⟩

/-- Only a label without a key of its own takes a reference. -/
theorem places_label_cases (r : References) (o : Occurrence) (force : Bool) :
    (r.label o force).2.places = r.places ∨
      o.place ∉ r.places ∧ (r.label o force).2.places = r.places ++ [o.place] ∧
        (o.node.explicitKey = none ∨ o.node.explicitKey = some "") := by
  have hreference := r.places_reference_cases o.place
  unfold label
  cases hkey : o.node.explicitKey with
  | some key =>
    dsimp only
    split
    · next hempty =>
      obtain rfl := String.isEmpty_iff.mp hempty
      exact hreference.imp_right fun h ↦ ⟨h.1, h.2, .inr rfl⟩
    · exact .inl rfl
  | none =>
    dsimp only
    split
    · exact hreference.imp_right fun h ↦ ⟨h.1, h.2, .inl rfl⟩
    · exact .inl rfl

theorem allots (r : References) (request : Request) : Allots node r request := by
  cases request with
  | index p => exact .inl rfl
  | reference p =>
    refine (r.places_reference_cases p).imp_right fun h ↦ ?_
    exact ⟨p, h.1, h.2, ⟨_, rfl⟩, .inl rfl⟩
  | label p force =>
    rw [Allots, respond_label]
    cases (node p).labelFault? with
    | some e => exact .inl rfl
    | none =>
      refine (r.places_label_cases ⟨p, node p⟩ force).imp_right fun h ↦ ?_
      exact ⟨p, h.1, h.2.1, ⟨_, rfl⟩, .inr ⟨⟨force, rfl⟩, h.2.2⟩⟩
  | link | code | footnote => exact .inl rfl

variable {node}

theorem prefix_respond (r : References) (request : Request) :
    r.places <+: (respond node r request).2.places := by
  rcases allots node r request with h | ⟨p, -, h, -⟩
  · exact h ▸ List.prefix_rfl
  · exact h ▸ List.prefix_append _ _

theorem nodup_respond {r : References} (h : r.places.Nodup) (request : Request) :
    (respond node r request).2.places.Nodup := by
  rcases allots node r request with heq | ⟨p, hp, heq, -⟩
  · rwa [heq]
  · rw [heq]
    exact List.nodup_append.mpr
      ⟨h, List.nodup_singleton p, fun q hq q' hq' hne ↦ hp (List.mem_singleton.mp hq' ▸ hne ▸ hq)⟩

/-! ## Many requests -/

theorem prefix_session (r : References) (requests : List Request) :
    r.places <+: (session node r requests).2.places := by
  induction requests generalizing r with
  | nil => exact List.prefix_rfl
  | cons request requests ih => exact (prefix_respond r request).trans (ih _)

theorem nodup_session {r : References} (h : r.places.Nodup) (requests : List Request) :
    (session node r requests).2.places.Nodup := by
  induction requests generalizing r with
  | nil => exact h
  | cons request requests ih => exact ih (nodup_respond h request)

/-- Each answer was given by earlier references, and what was given since stays given. -/
theorem exists_of_mem_session {r : References} {requests : List Request} {request : Request}
    {answer : Except Failure Answer} (h : (request, answer) ∈ (session node r requests).1) :
    ∃ c : References, answer = (respond node c request).1 ∧
      (respond node c request).2.places <+: (session node r requests).2.places := by
  induction requests generalizing r with
  | nil => cases h
  | cons first requests ih =>
    rcases List.mem_cons.mp h with heq | h
    · cases heq
      exact ⟨r, rfl, prefix_session _ requests⟩
    · exact ih h

/-- The reference of a place is that of its number in the end. -/
theorem token_of_mem_session {r : References} {requests : List Request} {p : Place}
    {answer : Except Failure Answer}
    (h : (.reference p, answer) ∈ (session node r requests).1) :
    ∃ k, (session node r requests).2.places[k]? = some p ∧ answer = .ok (.token (token k)) := by
  obtain ⟨c, rfl, hplaces⟩ := exists_of_mem_session h
  have hgiven : ∃ k, (c.reference p).2.places[k]? = some p ∧ (c.reference p).1 = token k := by
    rcases c.reference_cases p with ⟨k, hk, heq⟩ | ⟨-, heq⟩
    · exact ⟨k, by rwa [heq], by rw [heq]⟩
    · exact ⟨c.places.length, by rw [heq]; simp, by rw [heq]⟩
  obtain ⟨k, hk, htoken⟩ := hgiven
  refine ⟨k, ?_, ?_⟩
  · obtain ⟨more, hmore⟩ : (c.reference p).2.places <+: (session node r requests).2.places := hplaces
    obtain ⟨hlt, -⟩ := List.getElem?_eq_some_iff.mp hk
    rw [← hmore, List.getElem?_append_left hlt]
    exact hk
  · rw [← htoken]
    rfl

/-- The label that a place is made to have, unless its key is no text. -/
def forcedLabel (r : References) (o : Occurrence) : Except Failure String :=
  match o.node.labelFault? with
  | some e => .error e
  | none => .ok (r.labelText o)

theorem label_eq_none_iff (r : References) (o : Occurrence) (force : Bool) :
    (r.label o force).1 = none ↔
      force = false ∧ o.node.explicitKey = none ∧ o.node.hasCaption = false := by
  unfold label
  cases o.node.explicitKey with
  | some key => cases hkey : key.isEmpty <;> simp [hkey]
  | none => cases hcaption : o.node.hasCaption <;> cases force <;> simp

/-- A label is the one that its place has in the end, unless the node has neither a key nor a
caption and is not made to have a label. -/
theorem label_of_mem_session {r : References} {requests : List Request} {p : Place} {force : Bool}
    {answer : Except Failure Answer}
    (h : (.label p force, answer) ∈ (session node r requests).1) :
    answer = if (node p).labelFault? = none ∧ force = false ∧ (node p).explicitKey = none ∧
        (node p).hasCaption = false then .ok (.label none)
      else (.label ∘ some) <$> (session node r requests).2.forcedLabel ⟨p, node p⟩ := by
  obtain ⟨c, rfl, hplaces⟩ := exists_of_mem_session h
  rw [respond_label] at hplaces ⊢
  unfold forcedLabel
  have hnone := label_eq_none_iff c ⟨p, node p⟩ force
  cases hfault : (node p).labelFault? with
  | some e => simp
  | none =>
    rw [hfault] at hplaces
    cases hlabel : (c.label ⟨p, node p⟩ force).1 with
    | none => rw [if_pos ⟨rfl, hnone.mp hlabel⟩]
    | some l =>
      rw [if_neg fun h ↦ by simp [hnone.mpr h.2] at hlabel, labelText_of_prefix hlabel hplaces]
      rfl

/-- In every session of requests about the nodes at places, the references that are given are
numbered in the order in which they are given, without gaps. A place keeps its reference, and no
other place has the same. One more request gives a reference to no more than one place, which had
none, and does so only if it asks for the reference or for a label of a node without a key, and does
not fail. What a label is that a place is made to have is the same throughout, and without force the
place has either never a label or always this one. -/
theorem references_last (node : Place → Node) (requests : List Request) :
    (session node .empty requests).2.places.Nodup ∧
      (∀ p answer, (.reference p, answer) ∈ (session node .empty requests).1 →
        ∃ k, (session node .empty requests).2.places[k]? = some p ∧
          answer = .ok (.token ("ref" ++ toString (k + 1)))) ∧
      (∀ p q answer answer', (.reference p, answer) ∈ (session node .empty requests).1 →
        (.reference q, answer') ∈ (session node .empty requests).1 →
          (answer = answer' ↔ p = q)) ∧
      (∀ next, Allots node (session node .empty requests).2 next) ∧
      ∃ forced : Place → Except Failure String, ∀ p,
        ((node p).isProper = true → ∃ label, forced p = .ok label) ∧
          (∀ answer, (.label p true, answer) ∈ (session node .empty requests).1 →
            answer = (.label ∘ some) <$> forced p) ∧
          ((∀ answer, (.label p false, answer) ∈ (session node .empty requests).1 →
              answer = .ok (.label none)) ∨
            ∀ answer, (.label p false, answer) ∈ (session node .empty requests).1 →
              answer = (.label ∘ some) <$> forced p) := by
  have hnodup : (session node .empty requests).2.places.Nodup :=
    nodup_session List.nodup_nil requests
  refine ⟨hnodup, fun p answer ↦ token_of_mem_session, ?_, fun next ↦ allots node _ next, ?_⟩
  · intro p q answer answer' h h'
    obtain ⟨k, hk, rfl⟩ := token_of_mem_session h
    obtain ⟨k', hk', rfl⟩ := token_of_mem_session h'
    constructor
    · intro heq
      have htoken : k = k' := token_injective (by simpa using heq)
      rw [htoken, hk'] at hk
      exact (Option.some.inj hk).symm
    · rintro rfl
      obtain ⟨hlt, -⟩ := List.getElem?_eq_some_iff.mp hk
      rw [(List.getElem?_inj hlt hnodup).mp (hk.trans hk'.symm)]
  · refine ⟨fun p ↦ (session node .empty requests).2.forcedLabel ⟨p, node p⟩, fun p ↦ ⟨?_, ?_, ?_⟩⟩
    · intro hproper
      simp only [forcedLabel, Node.labelFault?_eq_none hproper]
      exact ⟨_, rfl⟩
    · intro answer h
      simpa using label_of_mem_session h
    · by_cases hsilent : (node p).labelFault? = none ∧ (node p).explicitKey = none ∧
          (node p).hasCaption = false
      · left
        intro answer h
        simpa [hsilent] using label_of_mem_session h
      · right
        intro answer h
        have hlabel := label_of_mem_session h
        rwa [if_neg] at hlabel
        rintro ⟨hfault, -, hkey⟩
        exact hsilent ⟨hfault, hkey⟩

/-- Requests about equal headings at all places. -/
def twinRequests : List Request :=
  [.label (.ofRoot 1) false, .reference (.ofRoot 1), .reference (.ofRoot 0), .label (.ofRoot 1) true]
where
  node (_ : Place) : Node :=
    ⟨⟨.unknown, 0, none, [], .heading ⟨1, none, none, none, false, []⟩, []⟩, [], [], none, none⟩

theorem twinRequests_references_last :
    (.reference (.ofRoot 1), .ok (.token "ref1")) ∈
        (session twinRequests.node .empty twinRequests).1 ∧
      (∀ answer, (.reference (.ofRoot 0), answer) ∈
          (session twinRequests.node .empty twinRequests).1 → answer ≠ .ok (.token "ref1")) ∧
      ∀ answer, (.label (.ofRoot 1) true, answer) ∈
          (session twinRequests.node .empty twinRequests).1 →
        answer = .ok (.label (some "sec:ref1")) := by
  obtain ⟨-, -, htokens, -, forced, hforced⟩ := references_last twinRequests.node twinRequests
  have hreference : (.reference (.ofRoot 1), .ok (.token "ref1")) ∈
      (session twinRequests.node .empty twinRequests).1 := .tail _ (.head _)
  have hlabel : (.label (.ofRoot 1) true, .ok (.label (some "sec:ref1"))) ∈
      (session twinRequests.node .empty twinRequests).1 := .tail _ (.tail _ (.tail _ (.head _)))
  refine ⟨hreference, ?_, ?_⟩
  · rintro answer h rfl
    exact absurd ((htokens _ _ _ _ h hreference).mp rfl) (by decide)
  · intro answer h
    rw [(hforced _).2.1 answer h, ← (hforced _).2.1 _ hlabel]

end References

end Typeset

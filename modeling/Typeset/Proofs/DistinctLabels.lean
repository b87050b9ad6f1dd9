import Typeset.Proofs.References

/-!
# Distinct labels

Two nodes without keys of their own never get one label, whatever else labels are made for. A key
is made safe first, which is not reversible: two keys may become the same text, or no text at all,
and a key may read like the reference of another node.
-/

namespace Typeset

open Latex

/-- The key that a node has of its own; an empty one counts as none. -/
def Node.ownKey? (n : Node) : Option String := n.explicitKey.filter fun key ↦ !key.isEmpty

namespace References

/-! ## References in labels -/

theorem isAlphanum_of_mem_token {i : Nat} {c : Char} (h : c ∈ (token i).toList) :
    c.isAlphanum = true := by
  rw [token, String.toList_append, List.mem_append] at h
  rcases h with h | h
  · have hletters : "ref".toList.all Char.isAlphanum = true := by decide
    exact List.all_eq_true.mp hletters c h
  · have hdigit : c.isDigit = true :=
      Nat.isDigit_of_mem_toDigits (b := 10) (n := i + 1) (by omega) (by omega) (by simpa using h)
    simp [Char.isAlphanum, hdigit]

theorem labelKey_token (i : Nat) : labelKey (token i) = token i := by
  have hends : ∀ o : Option Char, (∀ c ∈ o, c ∈ (token i).toList) → o.any (· == '-') = false := by
    intro o ho
    rw [Option.any_eq_false]
    intro c hc
    have halnum := isAlphanum_of_mem_token (ho c hc)
    cases hhyphen : c == '-' with
    | false => rfl
    | true =>
      rw [beq_iff_eq.mp hhyphen] at halnum
      exact absurd halnum (by decide)
  refine labelKey_eq_self (fun c hc ↦ ?_) (hends _ fun c hc ↦ ?_) (hends _ fun c hc ↦ ?_)
  · simp [isKeyChar, isAlphanum_of_mem_token hc]
  · exact List.mem_of_head? hc
  · exact List.mem_of_getLast? hc

theorem token_ne_empty (i : Nat) : token i ≠ "" := by
  intro h
  have hlist := congrArg String.toList h
  simp [token] at hlist

/-- Two labels are alike only if their prefixes are, or if one without a prefix begins with the
prefix of the other. -/
theorem append_cases {s s' t t' : String} (hs : s ∈ Node.labelPrefixes)
    (hs' : s' ∈ Node.labelPrefixes) (h : s ++ t = s' ++ t') :
    s = s' ∧ t = t' ∨ s = "" ∧ s' ≠ "" ∧ s'.toList <+: t.toList ∨
      s' = "" ∧ s ≠ "" ∧ s.toList <+: t'.toList := by
  by_cases heq : s = s'
  · subst heq
    exact .inl ⟨rfl, (String.append_right_inj s).mp h⟩
  have hlist : s.toList ++ t.toList = s'.toList ++ t'.toList := by
    rw [← String.toList_append, h, String.toList_append]
  by_cases hempty : s = ""
  · subst hempty
    exact .inr (.inl ⟨rfl, Ne.symm heq, t'.toList, hlist.symm⟩)
  by_cases hempty' : s' = ""
  · subst hempty'
    exact .inr (.inr ⟨rfl, hempty, t.toList, hlist⟩)
  -- two prefixes differ in their first letters
  have hfronts : ∀ s ∈ Node.labelPrefixes, ∀ s' ∈ Node.labelPrefixes, s ≠ "" → s' ≠ "" →
      s.toList.head? = s'.toList.head? → s = s' := by decide
  have hhead := congrArg List.head? hlist
  rw [List.head?_append_of_ne_nil _ (by simpa using hempty),
    List.head?_append_of_ne_nil _ (by simpa using hempty')] at hhead
  exact absurd (hfronts s hs s' hs' hempty hempty' hhead) heq

theorem not_prefix_token {s : String} (hs : s ∈ Node.labelPrefixes) (hne : s ≠ "") (i : Nat) :
    ¬ s.toList <+: (token i).toList := by
  rintro ⟨rest, h⟩
  have hfront : ∀ s ∈ Node.labelPrefixes, s ≠ "" → s.toList.head? ≠ some 'r' := by decide
  refine hfront s hs hne ?_
  rw [← List.head?_append_of_ne_nil s.toList (by simpa using hne), h, token, String.toList_append]
  rfl

/-- Labels made of references are different if the references are. -/
theorem append_token_inj {s s' : String} (hs : s ∈ Node.labelPrefixes)
    (hs' : s' ∈ Node.labelPrefixes) {i j : Nat} (h : s ++ token i = s' ++ token j) : i = j := by
  rcases append_cases hs hs' h with ⟨-, h⟩ | ⟨-, hne, h⟩ | ⟨-, hne, h⟩
  · exact token_injective h
  · exact absurd h (not_prefix_token hs' hne i)
  · exact absurd h (not_prefix_token hs hne j)

/-! ## Labels with and without a key -/

theorem labelText_of_ownKey? {r : References} {o : Occurrence} {key : String}
    (h : o.node.ownKey? = some key) : r.labelText o = o.node.labelPrefix ++ labelKey key := by
  obtain ⟨hkey, hne⟩ := Option.filter_eq_some_iff.mp h
  have hne : key.isEmpty = false := by simpa using hne
  simp only [labelText, label, hkey, hne]
  rfl

theorem explicitKey_of_ownKey?_eq_none {n : Node} (h : n.ownKey? = none) :
    n.explicitKey = none ∨ n.explicitKey = some "" := by
  cases hkey : n.explicitKey with
  | none => exact .inl rfl
  | some key =>
    have hempty : key.isEmpty = true := by simpa [Node.ownKey?, hkey, Option.filter] using h
    exact .inr (congrArg some (String.isEmpty_iff.mp hempty))

theorem labelText_of_ownKey?_eq_none {r : References} {o : Occurrence}
    (h : o.node.ownKey? = none) :
    r.labelText o = o.node.labelPrefix ++ (r.reference o.place).1 := by
  have htoken : labelKey (r.reference o.place).1 = (r.reference o.place).1 := by
    rcases r.reference_cases o.place with ⟨k, -, hk⟩ | ⟨-, hk⟩
    · rw [hk, labelKey_token]
    · rw [hk, labelKey_token]
  rcases explicitKey_of_ownKey?_eq_none h with hkey | hkey
  · simp only [labelText, label, hkey, Bool.or_true, if_true, labelOf, htoken]
    rfl
  · simp only [labelText, label, hkey, labelOf, htoken]
    rfl

variable {node : Place → Node} {r : References} {requests : List Request} {p q : Place}
  {answer answer' : Except Failure Answer}

theorem places_label_of_ownKey?_eq_none {o : Occurrence} (h : o.node.ownKey? = none) :
    (r.label o true).2 = (r.reference o.place).2 := by
  rcases explicitKey_of_ownKey?_eq_none h with hkey | hkey
  · simp only [label, hkey, Bool.or_true, if_true]
  · simp only [label, hkey]
    rfl

/-- The label that a node without a key is made to have holds the number of its reference. -/
theorem exists_token_of_mem_session (hp : (node p).isProper = true)
    (hkey : (node p).ownKey? = none) (h : (.label p true, answer) ∈ (session node r requests).1) :
    ∃ k, (session node r requests).2.places[k]? = some p ∧
      (session node r requests).2.labelText ⟨p, node p⟩ = (node p).labelPrefix ++ token k := by
  obtain ⟨c, -, hplaces⟩ := exists_of_mem_session h
  have hgiven : p ∈ (c.reference p).2.places := by
    rcases c.reference_cases p with ⟨k, hk, heq⟩ | ⟨-, heq⟩
    · rw [heq]
      exact List.mem_of_getElem? hk
    · rw [heq]
      exact List.mem_append_right _ List.mem_cons_self
  have hmem : p ∈ (session node r requests).2.places := by
    rw [respond_label, Node.labelFault?_eq_none hp] at hplaces
    refine hplaces.subset ?_
    rw [places_label_of_ownKey?_eq_none hkey]
    exact hgiven
  rw [labelText_of_ownKey?_eq_none hkey]
  rcases (session node r requests).2.reference_cases p with ⟨k, hk, heq⟩ | ⟨hnot, -⟩
  · exact ⟨k, hk, by rw [heq]⟩
  · exact absurd hmem hnot

end References

/-- A key that makes a label of its own for the node: made safe it stays what it is, it does not
read like a reference, and it does not begin like a prefix unless labels of the node have one. -/
structure Node.HasClearKey (n : Node) (key : String) : Prop where
  safe : labelKey key = key
  noToken : ∀ i, key ≠ References.token i
  noPrefix : n.labelPrefix = "" → ∀ s ∈ Node.labelPrefixes, s ≠ "" → ¬ s.toList <+: key.toList

namespace References

variable {node : Place → Node} {requests : List Request} {p q : Place}
  {answer answer' : Except Failure Answer}

theorem label_of_mem_session_of_isProper (hp : (node p).isProper = true)
    (h : (.label p true, answer) ∈ (session node .empty requests).1) :
    answer = .ok (.label (some ((session node .empty requests).2.labelText ⟨p, node p⟩))) := by
  rw [label_of_mem_session h, if_neg (by simp), forcedLabel, Node.labelFault?_eq_none hp]
  rfl

/-- A label is empty only if it is a key without a prefix of which nothing is left. -/
theorem labelText_eq_empty_iff (r : References) (o : Occurrence) :
    r.labelText o = "" ↔ o.node.labelPrefix = "" ∧ ∃ key, o.node.ownKey? = some key ∧
      ∀ c ∈ key.toList, isKeyChar c = true → c = '-' := by
  cases hkey : o.node.ownKey? with
  | none =>
    rw [labelText_of_ownKey?_eq_none hkey]
    have htoken : (r.reference o.place).1 ≠ "" := by
      rcases r.reference_cases o.place with ⟨k, -, hk⟩ | ⟨-, hk⟩
      · rw [hk]
        exact token_ne_empty k
      · rw [hk]
        exact token_ne_empty _
    simp [String.append_eq_empty_iff, htoken]
  | some key =>
    rw [labelText_of_ownKey? hkey, String.append_eq_empty_iff, labelKey_eq_empty_iff]
    simp

/-- Two labels that are alike hold the same behind their prefixes, if what is behind a missing
prefix does not begin like one. -/
theorem eq_of_append_labelPrefix {n n' : Node} {t t' : String}
    (ht : n.labelPrefix = "" → ∀ s ∈ Node.labelPrefixes, s ≠ "" → ¬ s.toList <+: t.toList)
    (ht' : n'.labelPrefix = "" → ∀ s ∈ Node.labelPrefixes, s ≠ "" → ¬ s.toList <+: t'.toList)
    (h : n.labelPrefix ++ t = n'.labelPrefix ++ t') : t = t' := by
  rcases append_cases n.labelPrefix_mem n'.labelPrefix_mem h with
    ⟨-, h⟩ | ⟨hempty, hne, h⟩ | ⟨hempty, hne, h⟩
  · exact h
  · exact absurd h (ht hempty _ n'.labelPrefix_mem hne)
  · exact absurd h (ht' hempty _ n.labelPrefix_mem hne)

/-- Behind its prefix, the label of a node holds a clear key or the reference of the node. -/
structure IsClearEnd (r : References) (o : Occurrence) (t : String) : Prop where
  label : r.labelText o = o.node.labelPrefix ++ t
  nonempty : t ≠ ""
  noPrefix : o.node.labelPrefix = "" → ∀ s ∈ Node.labelPrefixes, s ≠ "" → ¬ s.toList <+: t.toList
  origin : o.node.ownKey? = some t ∧ (∀ i, t ≠ token i) ∨
    o.node.ownKey? = none ∧ ∃ k, r.places[k]? = some o.place ∧ t = token k

theorem exists_isClearEnd (hp : (node p).isProper = true)
    (h : (.label p true, answer) ∈ (session node .empty requests).1)
    (hclear : ∀ key, (node p).ownKey? = some key → (node p).HasClearKey key) :
    ∃ t, IsClearEnd (session node .empty requests).2 ⟨p, node p⟩ t := by
  cases hkey : (node p).ownKey? with
  | none =>
    obtain ⟨k, hk, hl⟩ := exists_token_of_mem_session hp hkey h
    exact ⟨token k, hl, token_ne_empty k, fun _ s hs hne ↦ not_prefix_token hs hne k,
      .inr ⟨hkey, k, hk, rfl⟩⟩
  | some key =>
    have hkeyclear := hclear key hkey
    have hne : key ≠ "" := by
      rintro rfl
      simpa using (Option.filter_eq_some_iff.mp hkey).2
    refine ⟨key, ?_, hne, hkeyclear.noPrefix, .inl ⟨hkey, hkeyclear.noToken⟩⟩
    rw [labelText_of_ownKey? hkey, hkeyclear.safe]

/-- In every session, two places with nodes that are made to have labels get them. A label is empty
exactly if the node has a key of its own of which nothing is left, and its kind has no prefix. Two
nodes without keys have different labels. A label of a key and that of a reference are the same
exactly if the key made safe reads like the reference, and the labels of two keys exactly if the
keys made safe read the same, prefixes included. So the labels of two nodes are not empty and
different, if every key of the two is clear and they have not one and the same. -/
theorem labels_are_distinct (node : Place → Node) (requests : List Request) {p q : Place}
    (hpq : p ≠ q) (hp : (node p).isProper = true) (hq : (node q).isProper = true)
    {answer answer' : Except Failure Answer}
    (h : (.label p true, answer) ∈ (session node .empty requests).1)
    (h' : (.label q true, answer') ∈ (session node .empty requests).1) :
    ∃ l l', answer = .ok (.label (some l)) ∧ answer' = .ok (.label (some l')) ∧
      (l = "" ↔ (node p).labelPrefix = "" ∧ ∃ key, (node p).ownKey? = some key ∧
        ∀ c ∈ key.toList, isKeyChar c = true → c = '-') ∧
      ((node p).ownKey? = none → (node q).ownKey? = none → l ≠ l') ∧
      (∀ key, (node p).ownKey? = some key → (node q).ownKey? = none →
        (l = l' ↔ ∃ k, (session node .empty requests).2.places[k]? = some q ∧
          (node p).labelPrefix ++ labelKey key = (node q).labelPrefix ++ token k)) ∧
      (∀ key key', (node p).ownKey? = some key → (node q).ownKey? = some key' →
        (l = l' ↔ (node p).labelPrefix ++ labelKey key = (node q).labelPrefix ++ labelKey key')) ∧
      ((∀ key, (node p).ownKey? = some key → (node p).HasClearKey key) →
        (∀ key, (node q).ownKey? = some key → (node q).HasClearKey key) →
        ((node p).ownKey? = none ∨ (node q).ownKey? = none ∨
          (node p).ownKey? ≠ (node q).ownKey?) → l ≠ "" ∧ l' ≠ "" ∧ l ≠ l') := by
  have hnodup : (session node .empty requests).2.places.Nodup :=
    nodup_session List.nodup_nil requests
  refine ⟨_, _, label_of_mem_session_of_isProper hp h, label_of_mem_session_of_isProper hq h',
    labelText_eq_empty_iff _ _, ?_, ?_, ?_, ?_⟩
  · intro hkey hkey' heq
    obtain ⟨k, hk, hl⟩ := exists_token_of_mem_session hp hkey h
    obtain ⟨k', hk', hl'⟩ := exists_token_of_mem_session hq hkey' h'
    rw [hl, hl'] at heq
    obtain rfl := append_token_inj (node p).labelPrefix_mem (node q).labelPrefix_mem heq
    exact hpq (Option.some.inj (hk.symm.trans hk'))
  · intro key hkey hkey'
    obtain ⟨k, hk, hl⟩ := exists_token_of_mem_session hq hkey' h'
    rw [labelText_of_ownKey? hkey, hl]
    constructor
    · exact fun heq ↦ ⟨k, hk, heq⟩
    · rintro ⟨k', hk', heq⟩
      obtain ⟨hlt, -⟩ := List.getElem?_eq_some_iff.mp hk
      rwa [(List.getElem?_inj hlt hnodup).mp (hk.trans hk'.symm)]
  · intro key key' hkey hkey'
    rw [labelText_of_ownKey? hkey, labelText_of_ownKey? hkey']
  · intro hclear hclear' hkeys
    obtain ⟨t, ht⟩ := exists_isClearEnd hp h hclear
    obtain ⟨t', ht'⟩ := exists_isClearEnd hq h' hclear'
    rw [ht.label, ht'.label]
    refine ⟨fun heq ↦ ht.nonempty (String.append_eq_empty_iff.mp heq).2,
      fun heq ↦ ht'.nonempty (String.append_eq_empty_iff.mp heq).2, fun heq ↦ ?_⟩
    obtain rfl := eq_of_append_labelPrefix ht.noPrefix ht'.noPrefix heq
    rcases ht.origin with ⟨hkey, hno⟩ | ⟨-, k, hk, rfl⟩
    · rcases ht'.origin with ⟨hkey', -⟩ | ⟨-, k, -, rfl⟩
      · simp [show (node p).ownKey? = some t from hkey,
          show (node q).ownKey? = some t from hkey'] at hkeys
      · exact hno k rfl
    · rcases ht'.origin with ⟨-, hno⟩ | ⟨-, k', hk', htoken⟩
      · exact hno k rfl
      · obtain rfl := token_injective htoken
        exact hpq (Option.some.inj (hk.symm.trans hk'))

/-- Requests for the labels of nodes at roots. -/
def labelRequests (roots : List Nat) : List Request := roots.map fun i ↦ .label (.ofRoot i) true
where
  /-- The node at a place, one of some nodes at roots. -/
  node (roots : List Node) (p : Place) : Node := roots.getD p.root (heading none)
  /-- A heading with a title that all have, and with a custom id or none. -/
  heading (customId : Option String) : Node :=
    ⟨⟨.unknown, 0, none, [], .heading ⟨1, none, customId, none, false, []⟩, []⟩, [],
      [.inline .unknown 0 (.text "x") []], none, none⟩
  quote (name : String) : Node :=
    ⟨⟨.unknown, 0, some name, [], .quoteBlock, []⟩, [], [], none, none⟩
  named : List Node := [heading (some "intro"), heading none]
  clashing : List Node :=
    [heading (some "ref1"), heading none, heading (some "a b"), heading (some "a-b"), quote "é"]

theorem heading_labels_are_distinct :
    ∃ l l', (session (labelRequests.node labelRequests.named) .empty (labelRequests [0, 1])).1 =
        [(.label (.ofRoot 0) true, .ok (.label (some l))),
          (.label (.ofRoot 1) true, .ok (.label (some l')))] ∧
      l ≠ "" ∧ l' ≠ "" ∧ l ≠ l' := by
  have hclear : (labelRequests.node labelRequests.named (.ofRoot 0)).HasClearKey "intro" := by
    refine ⟨by decide, fun i h ↦ ?_, fun h ↦ absurd h (by decide)⟩
    have hhead := congrArg (·.toList.head?) h
    simp [token] at hhead
  obtain ⟨l, l', hl, hl', -, -, -, -, hdistinct⟩ :=
    labels_are_distinct (labelRequests.node labelRequests.named) (labelRequests [0, 1])
      (p := .ofRoot 0) (q := .ofRoot 1) (by decide) (by decide) (by decide) (.head _)
      (.tail _ (.head _))
  refine ⟨l, l', ?_, hdistinct ?_ ?_ (.inr (.inl (by decide)))⟩
  · rw [← hl, ← hl']
    rfl
  · intro key hkey
    obtain rfl := Option.some.inj hkey
    exact hclear
  · intro key hkey
    exact absurd hkey (by decide +revert)

/-- A custom id can be the reference of a heading without one, two custom ids can become the same
label, and nothing can be left of a name. -/
theorem clashing_labels :
    (∀ n ∈ labelRequests.clashing, n.isWellTyped = true) ∧
      (session (labelRequests.node labelRequests.clashing) .empty
          (labelRequests [0, 1, 2, 3, 4])).1 =
        [(.label (.ofRoot 0) true, .ok (.label (some "sec:ref1"))),
          (.label (.ofRoot 1) true, .ok (.label (some "sec:ref1"))),
          (.label (.ofRoot 2) true, .ok (.label (some "sec:a-b"))),
          (.label (.ofRoot 3) true, .ok (.label (some "sec:a-b"))),
          (.label (.ofRoot 4) true, .ok (.label (some "")))] := by
  exact ⟨by decide, rfl⟩

end References

end Typeset

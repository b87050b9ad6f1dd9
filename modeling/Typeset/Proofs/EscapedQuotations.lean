import Typeset.Proofs.Latex.Signs
import Typeset.Proofs.Quotations
import Typeset.Proofs.Quotes.Reading

/-!
# Quotes in escaped text

What a straight quote looks at is whether the character before it is an opener, and whether the
characters around it are letters or numerals. An escape has no quotes, and at its ends it looks like
the characters that it stands for. So the quotes of a text find the same roles when the text is
escaped.
-/

namespace Typeset.Quotes

open Latex Unicode

/-! ## Texts that look the same to quotes -/

/-- Two pieces without quotes look the same to the quotes around them. -/
structure AlikePieces (cs ds : List Char) : Prop where
  ne_nil : cs ≠ [] ∧ ds ≠ []
  isPlain : (∀ c ∈ cs, IsPlain c) ∧ ∀ d ∈ ds, IsPlain d
  first : cs.head?.any isAlphanumeric = ds.head?.any isAlphanumeric
  last : cs.getLast?.any isAlphanumeric = ds.getLast?.any isAlphanumeric
  opener : cs.getLast?.all isOpener = ds.getLast?.all isOpener

/-- Two texts have the same quotes, and what stands between them looks the same to them. -/
inductive AlikeTexts : List Char → List Char → Prop
  | nil : AlikeTexts [] []
  | quote {c : Char} {cs ds : List Char} : ¬ IsPlain c → AlikeTexts cs ds →
      AlikeTexts (c :: cs) (c :: ds)
  | piece {ps qs cs ds : List Char} : AlikePieces ps qs → AlikeTexts cs ds →
      AlikeTexts (ps ++ cs) (qs ++ ds)

theorem AlikeTexts.any_head? {cs ds : List Char} (h : AlikeTexts cs ds) :
    cs.head?.any isAlphanumeric = ds.head?.any isAlphanumeric := by
  cases h with
  | nil => rfl
  | quote => rfl
  | piece hpiece =>
    have hfirst := hpiece.first
    obtain ⟨p, ps, rfl⟩ := List.exists_cons_of_ne_nil hpiece.ne_nil.1
    obtain ⟨q, qs, rfl⟩ := List.exists_cons_of_ne_nil hpiece.ne_nil.2
    exact hfirst

theorem roles_plain (cs : List Char) : roles (cs.map .plain) = [] := by
  rw [roles, List.filterMap_map, List.filterMap_eq_nil_iff]
  exact fun _ _ ↦ rfl

/-! ## Readers that quotes cannot tell apart -/

/-- The next quote plays the same role for both readers, wherever they are. -/
structure Reader.Alike (r s : Reader) : Prop where
  opener : r.before.all isOpener = s.before.all isOpener
  alphanumeric : r.before.any isAlphanumeric = s.before.any isAlphanumeric
  afterOpening : r.afterOpening = s.afterOpening
  levels : r.pending.map (·.1) = s.pending.map (·.1)

namespace Reader.Alike

variable {r s : Reader}

theorem refl (r : Reader) : r.Alike r := ⟨rfl, rfl, rfl, rfl⟩

theorem past (c : Char) {pending pending' : List (Level × Nat)}
    (h : pending.map (·.1) = pending'.map (·.1)) : (r.past c pending).Alike (s.past c pending') :=
  ⟨rfl, rfl, rfl, h⟩

theorem opened (h : r.Alike s) (c : Char) (l : Level) : (r.opened c l).Alike (s.opened c l) where
  opener := rfl
  alphanumeric := rfl
  afterOpening := rfl
  levels := congrArg (l :: ·) h.levels

theorem beyond (h : r.Alike s) {ps qs : List Char} (hpiece : AlikePieces ps qs) :
    (r.beyond ps).Alike (s.beyond qs) :=
  ⟨hpiece.opener, hpiece.last, rfl, h.levels⟩

/-- Both readers have quotations of the same level innermost, or none is open for either. -/
theorem pending_cases (h : r.Alike s) :
    (r.pending = [] ∧ s.pending = []) ∨ ∃ l i j rest rest', r.pending = (l, i) :: rest ∧
      s.pending = (l, j) :: rest' ∧ rest.map (·.1) = rest'.map (·.1) := by
  have hlevels := h.levels
  cases hr : r.pending with
  | nil =>
    rw [hr, List.map_nil, eq_comm, List.map_eq_nil_iff] at hlevels
    exact .inl ⟨rfl, hlevels⟩
  | cons entry rest =>
    rw [hr, List.map_cons, eq_comm, List.map_eq_cons_iff] at hlevels
    obtain ⟨⟨l, j⟩, rest', hs, hl, hrest⟩ := hlevels
    exact .inr ⟨entry.1, entry.2, j, rest, rest', rfl, hl ▸ hs, hrest.symm⟩

/-- Both readers take the next character for the same mark, or it is a quote that neither of them
can place. -/
theorem step (h : r.Alike s) {next next' : Option Char}
    (hnext : next.any isAlphanumeric = next'.any isAlphanumeric) (c : Char) :
    (r.step c next = none ∧ s.step c next' = none) ∨
      ∃ mark r' s', r.step c next = some (mark, r') ∧ s.step c next' = some (mark, s') ∧
        r'.Alike s' := by
  have hopens : r.opens = s.opens := by rw [opens, h.opener, h.afterOpening, opens]
  have hinside : r.insideWord next = s.insideWord next' := by
    rw [insideWord, h.alphanumeric, hnext, insideWord]
  unfold Reader.step
  rw [hopens, hinside]
  by_cases hdouble : c = '"'
  · rw [if_pos hdouble, if_pos hdouble]
    by_cases hopen : s.opens = true
    · rw [if_pos hopen, if_pos hopen]
      exact .inr ⟨_, _, _, rfl, rfl, h.opened c .primary⟩
    · rw [if_neg hopen, if_neg hopen]
      rcases h.pending_cases with ⟨hr, hs⟩ | ⟨l, i, j, rest, rest', hr, hs, hrest⟩
      · exact .inl ⟨by rw [hr], by rw [hs]⟩
      · rw [hr, hs]
        cases l with
        | primary => exact .inr ⟨_, _, _, rfl, rfl, .past c hrest⟩
        | secondary => exact .inl ⟨rfl, rfl⟩
  · rw [if_neg hdouble, if_neg hdouble]
    by_cases hsingle : c = '\''
    · rw [if_pos hsingle, if_pos hsingle]
      by_cases hword : s.insideWord next' = true
      · rw [if_pos hword, if_pos hword]
        exact .inr ⟨_, _, _, rfl, rfl, .past c h.levels⟩
      · rw [if_neg hword, if_neg hword]
        by_cases hopen : s.opens = true
        · rw [if_pos hopen, if_pos hopen]
          exact .inr ⟨_, _, _, rfl, rfl, h.opened c .secondary⟩
        · rw [if_neg hopen, if_neg hopen]
          rcases h.pending_cases with ⟨hr, hs⟩ | ⟨l, i, j, rest, rest', hr, hs, hrest⟩
          · rw [hr, hs]
            exact .inr ⟨_, _, _, rfl, rfl, .past c rfl⟩
          · rw [hr, hs]
            cases l with
            | primary => exact .inl ⟨rfl, rfl⟩
            | secondary => exact .inr ⟨_, _, _, rfl, rfl, .past c hrest⟩
    · rw [if_neg hsingle, if_neg hsingle]
      exact .inr ⟨_, _, _, rfl, rfl, .past c h.levels⟩

end Reader.Alike

/-- Texts that look the same to quotes are read in the same roles, and both have a fault or
neither. -/
theorem AlikeTexts.roles_eq {cs ds : List Char} (h : AlikeTexts cs ds) {r s : Reader}
    (hrs : r.Alike s) :
    roles (read r cs).1 = roles (read s ds).1 ∧ (read r cs).2.isSome = (read s ds).2.isSome := by
  induction h generalizing r s with
  | nil =>
    refine ⟨rfl, ?_⟩
    rw [read, read]
    rcases hrs.pending_cases with ⟨hr, hs⟩ | ⟨l, i, j, rest, rest', hr, hs, -⟩
    · rw [hr, hs]
    · rw [hr, hs]
      rfl
  | @quote c cs ds hc hrest ih =>
    rw [read, read]
    rcases hrs.step hrest.any_head? c with ⟨hr, hs⟩ | ⟨mark, r', s', hr, hs, hnext⟩
    · rw [hr, hs]
      exact ⟨rfl, rfl⟩
    · obtain ⟨hroles, hfault⟩ := ih hnext
      rw [hr, hs]
      refine ⟨?_, hfault⟩
      change roles ([mark] ++ (read r' cs).1) = roles ([mark] ++ (read s' ds).1)
      rw [roles_append, roles_append, hroles]
  | @piece ps qs cs ds hpiece _ ih =>
    obtain ⟨hroles, hfault⟩ := ih (hrs.beyond hpiece)
    rw [(Reads.plain hpiece.ne_nil.1 hpiece.isPlain.1 r).read_append,
      (Reads.plain hpiece.ne_nil.2 hpiece.isPlain.2 s).read_append]
    refine ⟨?_, hfault⟩
    rw [roles_append, roles_append, roles_plain, roles_plain, hroles]

/-! ## Escapes -/

theorem alikePieces_self {c : Char} (h : IsPlain c) : AlikePieces [c] [c] where
  ne_nil := ⟨List.cons_ne_nil _ _, List.cons_ne_nil _ _⟩
  isPlain := ⟨List.forall_mem_singleton.mpr h, List.forall_mem_singleton.mpr h⟩
  first := rfl
  last := rfl
  opener := rfl

theorem alikePieces_escapeChar {c : Char} (h : IsPlain c) : AlikePieces [c] (escapeChar c) := by
  unfold escapeChar
  split
  case h_11 => exact alikePieces_self h
  all_goals exact ⟨by decide, ⟨forall_isPlain (by decide) (by decide),
    forall_isPlain (by decide) (by decide)⟩, by decide, by decide, by decide⟩

theorem escapeChar_of_not_isPlain {c : Char} (h : ¬ IsPlain c) : escapeChar c = [c] := by
  rw [IsPlain, not_and_or, not_ne_iff, not_ne_iff] at h
  rcases h with rfl | rfl
  all_goals rfl

/-- An escaped text looks the same to its quotes. -/
theorem alikeTexts_escapeChars (cs : List Char) : AlikeTexts cs (escapeChars cs) := by
  induction cs using escapeChars.induct with
  | case1 => exact .nil
  | case2 cs ih =>
    have hdots : AlikePieces ['.', '.', '.'] "\\ldots\x7b\x7d".toList :=
      ⟨by decide, ⟨forall_isPlain (by decide) (by decide), forall_isPlain (by decide) (by decide)⟩,
        by decide, by decide, by decide⟩
    exact .piece hdots ih
  | case3 c cs hdots ih =>
    rw [escapeChars_cons hdots]
    by_cases hc : IsPlain c
    · exact .piece (alikePieces_escapeChar hc) ih
    · rw [escapeChar_of_not_isPlain hc]
      exact .quote hc ih

/-! ## What is written -/

namespace Holds

variable {table : Json} {delimiter : Role → String}

/-- A text is unbalanced exactly if reading it finds a fault. -/
theorem exists_unbalanced_iff (h : Holds table delimiter) (text : String) :
    (∃ p, typographic? table text = .error (.unbalancedQuotes text p)) ↔
      (read .start text.toList).2.isSome = true := by
  obtain ⟨t, -, heq⟩ := h.typographic?_eq text
  rw [heq]
  cases (read .start text.toList).2 with
  | none => exact ⟨nofun, nofun⟩
  | some p => exact ⟨fun _ ↦ rfl, fun _ ↦ ⟨p, rfl⟩⟩

/-- What is written for a balanced text has its quotes in the roles that were read. -/
theorem placed_of_ok (h : Holds table delimiter) {text out : String}
    (hout : typographic? table text = .ok out) :
    Placed text.toList [] (read .start text.toList).1 ∧
      out.toList = (read .start text.toList).1.flatMap (Mark.written delimiter) := by
  obtain ⟨t, htoList, heq⟩ := h.typographic?_eq text
  rw [heq] at hout
  rcases read_cases Reader.Remembers.start (.start text.toList) with
    ⟨hfault, hplaced, -⟩ | ⟨p, hfault, -⟩
  · rw [hfault] at hout
    obtain rfl := Except.ok.inj hout
    exact ⟨hplaced, htoList⟩
  · rw [hfault] at hout
    cases hout

end Holds

/-- With a delimiter for each role, an escaped text is unbalanced exactly if the text is, and
otherwise the quotes of both play the same roles one by one. -/
theorem escaping_keeps_roles {table : Json} {delimiter : Role → String} (h : Holds table delimiter)
    (text : String) :
    ((∃ p, typographic? table (escapeText text) = .error (.unbalancedQuotes (escapeText text) p)) ↔
      ∃ p, typographic? table text = .error (.unbalancedQuotes text p)) ∧
    ∀ escaped out, typographic? table (escapeText text) = .ok escaped →
      typographic? table text = .ok out →
        ∃ ms ms', Placed (escapeText text).toList [] ms ∧
          escaped.toList = ms.flatMap (Mark.written delimiter) ∧ Placed text.toList [] ms' ∧
          out.toList = ms'.flatMap (Mark.written delimiter) ∧ roles ms = roles ms' := by
  have halike : AlikeTexts text.toList (escapeText text).toList := by
    rw [escapeText, String.toList_ofList]
    exact alikeTexts_escapeChars text.toList
  obtain ⟨hroles, hfault⟩ := halike.roles_eq (.refl .start)
  constructor
  · rw [h.exists_unbalanced_iff, h.exists_unbalanced_iff, hfault]
  · intro escaped out hescaped hout
    obtain ⟨hplaced, hwritten⟩ := h.placed_of_ok hescaped
    obtain ⟨hplaced', hwritten'⟩ := h.placed_of_ok hout
    exact ⟨_, _, hplaced, hwritten, hplaced', hwritten', hroles.symm⟩

/-- Quotes behind a backslash, a dash and an ellipsis. -/
theorem dottedQuotation_keeps_roles :
    Holds (dataOf english) (fun role ↦ (english.lookup role.key).getD "") ∧
    ∃ ms ms', Placed "\\textbackslash\x7b\x7d-'it\\ldots\x7b\x7d'".toList [] ms ∧
      "\\textbackslash\x7b\x7d-`it\\ldots\x7b\x7d'".toList =
        ms.flatMap (Mark.written fun role ↦ (english.lookup role.key).getD "") ∧
      Placed "\\-'it...'".toList [] ms' ∧
      "\\-`it...'".toList =
        ms'.flatMap (Mark.written fun role ↦ (english.lookup role.key).getD "") ∧
      roles ms = roles ms' :=
  ⟨holds_english, (escaping_keeps_roles holds_english "\\-'it...'").2
    "\\textbackslash\x7b\x7d-`it\\ldots\x7b\x7d'" "\\-`it...'" (by decide) (by decide)⟩

end Typeset.Quotes

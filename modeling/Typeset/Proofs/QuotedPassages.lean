import Typeset.Proofs.Quotations
import Typeset.Proofs.Quotes.Reading

/-!
# Quoted passages

A passage is a word, a passage in double or single quotes, or two passages with a space between
them. Every passage is accepted and written as it is built: each pair of quotes becomes the pair of
delimiters of its level. A double quote before a passage is never closed.
-/

namespace Typeset.Quotes

open Unicode

/-- A word of letters and numerals. -/
structure Word where
  chars : List Char
  ne_nil : chars ≠ []
  alphanumeric : ∀ c ∈ chars, isAlphanumeric c = true

/-- A properly quoted text. -/
inductive Passage where
  | word (w : Word)
  | quoted (l : Level) (inside : Passage)
  | spaced (first second : Passage)

/-- The straight quote of a level. -/
def Level.sign : Level → Char
  | .primary => '"'
  | .secondary => '\''

namespace Passage

/-- The passage with straight quotes. -/
def source : Passage → List Char
  | word w => w.chars
  | quoted l inside => l.sign :: (inside.source ++ [l.sign])
  | spaced first second => first.source ++ ' ' :: second.source

/-- The passage with a delimiter for each quote. -/
def translation (delimiter : Role → String) : Passage → List Char
  | word w => w.chars
  | quoted l inside =>
    (delimiter l.opening).toList ++ (inside.translation delimiter ++ (delimiter l.closing).toList)
  | spaced first second => first.translation delimiter ++ ' ' :: second.translation delimiter

/-- The marks of the passage. -/
def marks : Passage → List Mark
  | word w => w.chars.map .plain
  | quoted l inside => .quote l.opening :: (inside.marks ++ [.quote l.closing])
  | spaced first second => first.marks ++ .plain ' ' :: second.marks

theorem translation_eq (delimiter : Role → String) (p : Passage) :
    p.translation delimiter = p.marks.flatMap (Mark.written delimiter) := by
  induction p with
  | word w =>
    rw [translation, marks, List.flatMap_map]
    exact (List.flatMap_singleton' w.chars).symm
  | quoted l inside ih => simp [translation, marks, Mark.written, ih]
  | spaced first second ih ih' => simp [translation, marks, Mark.written, ih, ih']

/-! ## The ends of a passage -/

theorem source_ne_nil (p : Passage) : p.source ≠ [] := by
  cases p with
  | word w => exact w.ne_nil
  | quoted l inside => exact List.cons_ne_nil _ _
  | spaced first second => exact List.append_ne_nil_of_right_ne_nil _ (List.cons_ne_nil _ _)

/-- A letter, a numeral or a straight quote. -/
def IsEnd (c : Char) : Prop := isAlphanumeric c = true ∨ ∃ l : Level, c = l.sign

theorem not_isOpener_of_isAlphanumeric {c : Char} (h : isAlphanumeric c = true) :
    isOpener c = false := by
  refine Bool.eq_false_iff.mpr fun hopener ↦ ?_
  rw [isOpener, List.contains_iff_mem] at hopener
  have hnone : [' ', '\t', '\n', '(', '[', '{', '-', '/'].any isAlphanumeric = false := by decide
  exact Bool.false_ne_true (hnone.symm.trans (List.any_eq_true.mpr ⟨c, hopener, h⟩))

theorem isPlain_of_isAlphanumeric {c : Char} (h : isAlphanumeric c = true) : IsPlain c := by
  constructor
  all_goals
    rintro rfl
    exact absurd h (by decide)

theorem not_isOpener_of_isEnd {c : Char} (h : IsEnd c) : isOpener c = false := by
  rcases h with h | ⟨l, rfl⟩
  · exact not_isOpener_of_isAlphanumeric h
  · cases l <;> decide

theorem getLast?_quoted (l : Level) (inside : Passage) :
    (quoted l inside).source.getLast? = some l.sign := by
  rw [source, ← List.cons_append, List.getLast?_concat]

theorem isEnd_getLast (p : Passage) : ∃ c, p.source.getLast? = some c ∧ IsEnd c := by
  induction p with
  | word w =>
    refine ⟨_, List.getLast?_eq_some_getLast w.ne_nil, .inl ?_⟩
    exact w.alphanumeric _ (List.getLast_mem w.ne_nil)
  | quoted l inside _ => exact ⟨l.sign, getLast?_quoted l inside, .inr ⟨l, rfl⟩⟩
  | spaced first second _ ih =>
    obtain ⟨c, hc, hend⟩ := ih
    refine ⟨c, ?_, hend⟩
    rw [source, List.getLast?_append, List.getLast?_cons_of_ne_nil second.source_ne_nil, hc]
    rfl

end Passage

/-! ## Reading a passage -/

namespace Reader

variable {r : Reader} {next : Option Char} {l : Level}

/-- A quote that comes next opens and does not stand inside a word. -/
structure IsReady (r : Reader) : Prop where
  opens : r.opens = true
  outside : r.before.any isAlphanumeric = false

/-- No character that words are made of comes next. -/
def EndsWord (next : Option Char) : Prop := next.any isAlphanumeric = false

theorem isReady_start : start.IsReady := ⟨rfl, rfl⟩

theorem isReady_opened (r : Reader) (l : Level) : (r.opened l.sign l).IsReady where
  opens := Bool.or_true _
  outside := by cases l <;> rfl

theorem isReady_space (r : Reader) : (r.beyond [' ']).IsReady where
  opens := rfl
  outside := rfl

theorem step_opening (h : r.IsReady) (l : Level) (next : Option Char) :
    r.step l.sign next = some (.quote l.opening, r.opened l.sign l) := by
  have hinside : r.insideWord next = false := by rw [insideWord, h.outside, Bool.false_and]
  cases l with
  | primary =>
    rw [step, Level.sign, if_pos rfl, if_pos h.opens]
    rfl
  | secondary =>
    rw [step, Level.sign, if_neg (by decide), if_pos rfl, hinside, if_neg Bool.false_ne_true,
      if_pos h.opens]
    rfl

theorem step_closing (hopens : r.opens = false) (hnext : EndsWord next) {i : Nat}
    {rest : List (Level × Nat)} (hpending : r.pending = (l, i) :: rest) :
    r.step l.sign next = some (.quote l.closing, r.past l.sign rest) := by
  have hinside : r.insideWord next = false := by rw [insideWord, hnext, Bool.and_false]
  cases l with
  | primary =>
    rw [step, Level.sign, if_pos rfl, hopens, if_neg Bool.false_ne_true, hpending]
    rfl
  | secondary =>
    rw [step, Level.sign, if_neg (by decide), if_pos rfl, hinside, if_neg Bool.false_ne_true,
      hopens, if_neg Bool.false_ne_true, hpending]
    rfl

theorem beyond_quoted (r : Reader) (l : Level) (inside : Passage) :
    ((r.opened l.sign l).beyond inside.source).past l.sign r.pending =
      r.beyond (Passage.quoted l inside).source := by
  rw [beyond, beyond, past, opened, Passage.getLast?_quoted, Passage.source, List.length_cons,
    List.length_append, List.length_singleton]
  congr 1
  dsimp only
  omega

theorem beyond_spaced (r : Reader) (first second : Passage) :
    ((r.beyond first.source).beyond [' ']).beyond second.source =
      r.beyond (Passage.spaced first second).source := by
  rw [beyond_beyond _ _ second.source_ne_nil, List.singleton_append,
    beyond_beyond _ _ (List.cons_ne_nil _ _), Passage.source]

/-- No quote opens right behind a passage. -/
theorem opens_beyond (r : Reader) (p : Passage) : (r.beyond p.source).opens = false := by
  obtain ⟨c, hc, hend⟩ := p.isEnd_getLast
  rw [opens, beyond, hc, Option.all_some, Passage.not_isOpener_of_isEnd hend]
  rfl

end Reader

open Reader

/-- A passage is read as it is built, whatever quotations it stands in. -/
theorem Passage.reads (p : Passage) {r : Reader} {next : Option Char} (hready : r.IsReady)
    (hnext : EndsWord next) : Reads next r p.source p.marks (r.beyond p.source) := by
  induction p generalizing r next with
  | word w =>
    exact .plain w.ne_nil (fun c hc ↦ isPlain_of_isAlphanumeric (w.alphanumeric c hc)) r
  | quoted l inside ih =>
    have hsign : EndsWord (some l.sign) := by cases l <;> rfl
    have hinside := ih (r.isReady_opened l) hsign
    have hclosing := step_closing ((r.opened l.sign l).opens_beyond inside) hnext rfl
    rw [← r.beyond_quoted l inside]
    exact .cons (step_opening hready l _) (.append hinside (.single hclosing))
  | spaced first second ih ih' =>
    have hword : EndsWord (some ' ') := rfl
    have hblank : IsPlain ' ' := ⟨by decide, by decide⟩
    have hspace := step_of_isPlain hblank (r.beyond first.source) (second.source.head?.or next)
    rw [← r.beyond_spaced first second]
    exact .append (ih hready hword) (.cons hspace (ih' (isReady_space _) hnext))

/-- A passage leaves nothing open, and a quote that opens before it is left open. -/
theorem Passage.read_source (p : Passage) :
    read .start p.source = (p.marks, none) ∧ (read .start ('"' :: p.source)).2 = some 0 := by
  have hend : EndsWord ([] : List Char).head? := rfl
  constructor
  · have hreads := (p.reads isReady_start hend).read_append
    rw [List.append_nil] at hreads
    rw [hreads, read, List.append_nil]
    rfl
  · have hopening := step_opening isReady_start .primary (p.source.head?.or none)
    have hpassage := p.reads (start.isReady_opened .primary) hend
    have hreads : Reads ([] : List Char).head? .start ('"' :: p.source)
        (.quote .primaryOpening :: p.marks) ((start.opened '"' .primary).beyond p.source) :=
      .cons hopening hpassage
    have hread := hreads.read_append
    rw [List.append_nil] at hread
    rw [hread]
    rfl

/-- With a delimiter for each role, a passage is translated as it is built, and a double quote
before a passage is reported as left open. -/
theorem passages_are_translated {table : Json} {delimiter : Role → String}
    (h : Holds table delimiter) (p : Passage) :
    typographic? table (.ofList p.source) = .ok (.ofList (p.translation delimiter)) ∧
      typographic? table (.ofList ('"' :: p.source)) =
        .error (.unbalancedQuotes (.ofList ('"' :: p.source)) 0) := by
  obtain ⟨hpassage, hunclosed⟩ := p.read_source
  constructor
  · obtain ⟨t, htoList, heq⟩ := h.typographic?_eq (.ofList p.source)
    rw [String.toList_ofList, hpassage] at htoList heq
    rw [heq, p.translation_eq, ← htoList, String.ofList_toList]
  · obtain ⟨t, -, heq⟩ := h.typographic?_eq (.ofList ('"' :: p.source))
    rw [String.toList_ofList, hunclosed] at heq
    exact heq

/-- Quotations of both levels that begin and end at the same places. -/
theorem doublyQuotedWord_is_translated :
    Holds (dataOf english) (fun role ↦ (english.lookup role.key).getD "") ∧
    typographic? (dataOf english) "\"'so' '\"it\" is'\"" = .ok "```so' ```it'' is'''" ∧
      typographic? (dataOf english) "\"\"'so' '\"it\" is'\"" =
        .error (.unbalancedQuotes "\"\"'so' '\"it\" is'\"" 0) :=
  ⟨holds_english, passages_are_translated holds_english
    (.quoted .primary (.spaced
      (.quoted .secondary (.word ⟨['s', 'o'], by decide, List.all_eq_true.mp (by decide)⟩))
      (.quoted .secondary (.spaced
        (.quoted .primary (.word ⟨['i', 't'], by decide, List.all_eq_true.mp (by decide)⟩))
        (.word ⟨['i', 's'], by decide, List.all_eq_true.mp (by decide)⟩)))))⟩

end Typeset.Quotes

import Mathlib.Data.List.Forall2
import Typeset.Proofs.Latex.Faultless
import Typeset.Proofs.Quotes.Nesting

/-!
# Straight quotes find their roles

A straight quote opens, is an apostrophe, or closes the innermost quotation that is open. If each
quote of a text can play one of these parts and no quotation is left open, the quotations are nested
and the text is written with one delimiter for each quote. Otherwise the first quote that can play
none is reported, or the innermost quotation left open.
-/

namespace Typeset.Quotes

open Unicode

/-! ## What marks say about a text -/

/-- The mark shows the character: one that is no straight quote as it is, a double quote as part of
a primary quotation, and a single one as part of a secondary quotation or as an apostrophe. -/
inductive Mark.Shows : Mark → Char → Prop
  | plain {c : Char} : c ≠ '"' → c ≠ '\'' → Shows (.plain c) c
  | primaryOpening : Shows (.quote .primaryOpening) '"'
  | primaryClosing : Shows (.quote .primaryClosing) '"'
  | secondaryOpening : Shows (.quote .secondaryOpening) '\''
  | secondaryClosing : Shows (.quote .secondaryClosing) '\''
  | apostrophe : Shows (.quote .apostrophe) '\''

/-- What is written for a mark with a delimiter for each role. -/
def Mark.written (delimiter : Role → String) : Mark → List Char
  | .plain c => [c]
  | .quote role => (delimiter role).toList

/-- Every double quote is one of a primary quotation. -/
theorem count_double {ms : List Mark} {cs : List Char} (h : List.Forall₂ Mark.Shows ms cs) :
    cs.count '"' = (roles ms).count .primaryOpening + (roles ms).count .primaryClosing := by
  induction h with
  | nil => rfl
  | cons hshows _ ih =>
    cases hshows with
    | plain hdouble => simpa [hdouble] using ih
    | primaryOpening | primaryClosing => simp [ih]; omega
    | secondaryOpening | secondaryClosing | apostrophe => simp [ih]

/-! ## The roles a quote can play -/

section

variable (before after : List Char) (ms : List Mark)

/-- A quote behind some characters with these marks opens: it stands first, behind an opener or
right behind a quote that opens. -/
def Opens : Prop :=
  (∀ c, before.getLast? = some c → isOpener c = true) ∨
    ∃ l : Level, ms.getLast? = some (.quote l.opening)

/-- A quote between some characters stands inside a word. -/
def InsideWord : Prop :=
  (∃ c, before.getLast? = some c ∧ isAlphanumeric c = true) ∧
    ∃ c, after.head? = some c ∧ isAlphanumeric c = true

/-- A single quote is an apostrophe: it stands inside a word, or it does not open where no quotation
is open. -/
def IsApostrophe : Prop := InsideWord before after ∨ (¬ Opens before ms ∧ IsNested (roles ms))

/-- What a character can be shown as behind some characters with these marks. -/
inductive Places : Char → Mark → Prop
  | plain {c : Char} : c ≠ '"' → c ≠ '\'' → Places c (.plain c)
  | primaryOpening : Opens before ms → Places '"' (.quote .primaryOpening)
  | primaryClosing {i : Nat} : ¬ Opens before ms → IsInnermost ms .primary i →
      Places '"' (.quote .primaryClosing)
  | apostrophe : IsApostrophe before after ms → Places '\'' (.quote .apostrophe)
  | secondaryOpening : ¬ InsideWord before after → Opens before ms →
      Places '\'' (.quote .secondaryOpening)
  | secondaryClosing {i : Nat} : ¬ InsideWord before after → ¬ Opens before ms →
      IsInnermost ms .secondary i → Places '\'' (.quote .secondaryClosing)

/-- A quote that can play no role: it neither opens nor is an apostrophe nor closes the innermost
quotation that is open. -/
inductive IsStuck : Char → Prop
  | primary : ¬ Opens before ms → (∀ i, ¬ IsInnermost ms .primary i) → IsStuck '"'
  | secondary : ¬ Opens before ms → ¬ IsApostrophe before after ms →
      (∀ i, ¬ IsInnermost ms .secondary i) → IsStuck '\''

end

/-- The characters before the rest of a text with marks of roles they can play. -/
inductive Placed : List Char → List Char → List Mark → Prop
  | start (cs : List Char) : Placed [] cs []
  | next {before after : List Char} {ms : List Mark} {c : Char} {mark : Mark} :
      Placed before (c :: after) ms → Places before after ms c mark →
        Placed (before ++ [c]) after (ms ++ [mark])

namespace Placed

variable {before after cs : List Char} {ms : List Mark}

theorem shows (h : Placed before after ms) : List.Forall₂ Mark.Shows ms before := by
  induction h with
  | start => exact .nil
  | next _ hplaces ih =>
    refine List.rel_append ih (.cons ?_ .nil)
    cases hplaces with
    | plain hdouble hsingle => exact .plain hdouble hsingle
    | primaryOpening => exact .primaryOpening
    | primaryClosing => exact .primaryClosing
    | apostrophe => exact .apostrophe
    | secondaryOpening => exact .secondaryOpening
    | secondaryClosing => exact .secondaryClosing

/-- Where a quotation opens, the text has a straight quote. -/
theorem getElem?_of_isInnermost (h : Placed cs [] ms) {l : Level} {i : Nat}
    (hinnermost : IsInnermost ms l i) : cs[i]? = some '"' ∨ cs[i]? = some '\'' := by
  obtain ⟨hi, hmark⟩ := List.getElem?_eq_some_iff.mp hinnermost.opens
  have hi' : i < cs.length := h.shows.length_eq ▸ hi
  have hshows : Mark.Shows ms[i] cs[i] := h.shows.get hi hi'
  rw [hmark] at hshows
  rw [List.getElem?_eq_getElem hi']
  generalize cs[i] = c at hshows
  cases l with
  | primary => cases hshows; exact .inl rfl
  | secondary => cases hshows; exact .inr rfl

end Placed

/-! ## Reading -/

/-- What a reader remembers behind some characters with these marks. -/
structure Reader.Remembers (r : Reader) (before : List Char) (ms : List Mark) : Prop where
  position : r.position = before.length
  length : ms.length = before.length
  before : r.before = before.getLast?
  afterOpening : r.afterOpening = true ↔ ∃ l : Level, ms.getLast? = some (.quote l.opening)
  pending : LeavesOpen ms r.pending

namespace Reader.Remembers

variable {r : Reader} {before after : List Char} {ms : List Mark} {c : Char}

theorem start : start.Remembers [] [] where
  position := rfl
  length := rfl
  before := rfl
  afterOpening := by simp [Reader.start]
  pending := .none .nil

theorem opens_iff (h : r.Remembers before ms) : r.opens = true ↔ Opens before ms := by
  rw [Reader.opens, Bool.or_eq_true, h.afterOpening, h.before, Opens]
  cases before.getLast? <;> simp

theorem insideWord_iff (h : r.Remembers before ms) (after : List Char) :
    r.insideWord after.head? = true ↔ InsideWord before after := by
  rw [Reader.insideWord, Bool.and_eq_true, h.before]
  simp [InsideWord, Option.any_eq_true]

/-- The reader past a character that does not open, with the quotations that are left open. -/
theorem past (h : r.Remembers before ms) (c : Char) {mark : Mark} {pending : List (Level × Nat)}
    (hmark : ∀ l : Level, mark ≠ .quote l.opening) (hpending : LeavesOpen (ms ++ [mark]) pending) :
    (r.past c pending).Remembers (before ++ [c]) (ms ++ [mark]) where
  position := by simp [Reader.past, h.position]
  length := by simp [h.length]
  before := by simp [Reader.past]
  afterOpening := by simp [Reader.past, hmark]
  pending := hpending

/-- The reader past a quote that opens. -/
theorem opened (h : r.Remembers before ms) (c : Char) (l : Level) :
    (r.opened c l).Remembers (before ++ [c]) (ms ++ [.quote l.opening]) where
  position := by simp [Reader.opened, h.position]
  length := by simp [h.length]
  before := by simp [Reader.opened]
  afterOpening := by simp [Reader.opened]
  pending := by
    rw [Reader.opened, h.position, ← h.length]
    exact h.pending.concat_opening l

/-- Only the innermost quotation can be closed. -/
theorem not_isInnermost (h : r.Remembers before ms) {l : Level}
    (hpending : ∀ i rest, r.pending ≠ (l, i) :: rest) (i : Nat) : ¬ IsInnermost ms l i := by
  intro hinnermost
  have hopen := h.pending
  cases hrest : r.pending with
  | nil => exact hinnermost.not_isNested_roles (hopen.isNested_iff.mpr hrest)
  | cons entry rest =>
    obtain ⟨l', j⟩ := entry
    rw [hrest] at hopen
    obtain ⟨rfl, -⟩ := hinnermost.eq hopen.isInnermost
    exact hpending j rest hrest

/-- A character is read in a role that it can play, unless it is a quote that can play none. -/
def ReadsOn (r : Reader) (before after : List Char) (ms : List Mark) (c : Char) : Prop :=
  (∃ mark r', r.step c after.head? = some (mark, r') ∧ Places before after ms c mark ∧
    r'.Remembers (before ++ [c]) (ms ++ [mark])) ∨
      (r.step c after.head? = none ∧ IsStuck before after ms c)

theorem readsOn_double (h : r.Remembers before ms) (after : List Char) :
    ReadsOn r before after ms '"' := by
  have hopens := h.opens_iff
  unfold ReadsOn Reader.step
  rw [if_pos rfl]
  split
  · next hopen => exact .inl ⟨_, _, rfl, .primaryOpening (hopens.mp hopen), h.opened _ .primary⟩
  · next hopen =>
    have hopen : ¬ Opens before ms := fun ho ↦ hopen (hopens.mpr ho)
    split
    · next i rest hpending =>
      have hleft := hpending ▸ h.pending
      refine .inl ⟨_, _, rfl, .primaryClosing hopen hleft.isInnermost, ?_⟩
      exact h.past _ (Mark.quote_ne_opening rfl) hleft.concat_closing
    · next hpending => exact .inr ⟨rfl, .primary hopen (h.not_isInnermost hpending)⟩

theorem readsOn_single (h : r.Remembers before ms) (after : List Char) :
    ReadsOn r before after ms '\'' := by
  have hopens := h.opens_iff
  have hinside := h.insideWord_iff after
  have hapostrophe : LeavesOpen (ms ++ [.quote .apostrophe]) r.pending :=
    h.pending.append (.apostrophe .nil)
  unfold ReadsOn Reader.step
  rw [if_neg (by decide), if_pos rfl]
  split
  · next hword =>
    refine .inl ⟨_, _, rfl, .apostrophe (.inl (hinside.mp hword)), ?_⟩
    exact h.past _ (Mark.quote_ne_opening rfl) hapostrophe
  · next hword =>
    have hword : ¬ InsideWord before after := fun hw ↦ hword (hinside.mpr hw)
    split
    · next hopen =>
      exact .inl ⟨_, _, rfl, .secondaryOpening hword (hopens.mp hopen), h.opened _ .secondary⟩
    · next hopen =>
      have hopen : ¬ Opens before ms := fun ho ↦ hopen (hopens.mpr ho)
      split
      · next i rest hpending =>
        have hleft := hpending ▸ h.pending
        refine .inl ⟨_, _, rfl, .secondaryClosing hword hopen hleft.isInnermost, ?_⟩
        exact h.past _ (Mark.quote_ne_opening rfl) hleft.concat_closing
      · next hpending =>
        have hclosed := h.pending.isNested_iff.mpr hpending
        refine .inl ⟨_, _, rfl, .apostrophe (.inr ⟨hopen, hclosed⟩), ?_⟩
        exact h.past _ (Mark.quote_ne_opening rfl) (hpending ▸ hapostrophe)
      · next hsecondary hnone =>
        refine .inr ⟨rfl, .secondary hopen ?_ (h.not_isInnermost hsecondary)⟩
        rintro (hw | ⟨-, hclosed⟩)
        · exact hword hw
        · exact hnone (h.pending.isNested_iff.mp hclosed)

/-- Whatever comes next is read on. -/
theorem readsOn (h : r.Remembers before ms) (c : Char) (after : List Char) :
    ReadsOn r before after ms c := by
  by_cases hdouble : c = '"'
  · exact hdouble ▸ h.readsOn_double after
  · by_cases hsingle : c = '\''
    · exact hsingle ▸ h.readsOn_single after
    · refine .inl ⟨.plain c, r.past c r.pending, ?_, .plain hdouble hsingle, ?_⟩
      · rw [Reader.step, if_neg hdouble, if_neg hsingle]
      · exact h.past c (fun l ↦ nofun) (h.pending.append .nil)

end Reader.Remembers

/-- What is reported as a fault of a text: the first quote that can play no role, or, where each
quote can play one, the innermost opening that is left open. -/
inductive IsFault (cs : List Char) : Nat → Prop
  | stuck {before after : List Char} {c : Char} {ms : List Mark} : cs = before ++ c :: after →
      Placed before (c :: after) ms → IsStuck before after ms c → IsFault cs before.length
  | leftOpen {ms : List Mark} {l : Level} {i : Nat} : Placed cs [] ms → IsInnermost ms l i →
      IsFault cs i

theorem IsFault.getElem? {cs : List Char} {p : Nat} (h : IsFault cs p) :
    cs[p]? = some '"' ∨ cs[p]? = some '\'' := by
  cases h with
  | stuck hcs _ hstuck =>
    rw [hcs, List.getElem?_append_right (Nat.le_refl _), Nat.sub_self, List.getElem?_cons_zero]
    cases hstuck with
    | primary => exact .inl rfl
    | secondary => exact .inr rfl
  | leftOpen hplaced hinnermost => exact hplaced.getElem?_of_isInnermost hinnermost

/-- A text is read to its end with all quotations closed, or up to its fault. -/
theorem read_cases {r : Reader} {before after : List Char} {ms : List Mark}
    (h : r.Remembers before ms) (hplaced : Placed before after ms) :
    ((read r after).2 = none ∧ Placed (before ++ after) [] (ms ++ (read r after).1) ∧
      IsNested (roles (ms ++ (read r after).1))) ∨
        ∃ i, (read r after).2 = some i ∧ IsFault (before ++ after) i := by
  induction after generalizing r before ms with
  | nil =>
    have hplaced : Placed (before ++ []) [] ms := by rwa [List.append_nil]
    cases hpending : r.pending with
    | nil =>
      refine .inl ⟨by rw [read, hpending]; rfl, ?_, ?_⟩
      · rwa [read, List.append_nil ms]
      · rw [read, List.append_nil]
        exact h.pending.isNested_iff.mpr hpending
    | cons entry rest =>
      obtain ⟨l, i⟩ := entry
      have hinnermost := (hpending ▸ h.pending).isInnermost
      exact .inr ⟨i, by rw [read, hpending]; rfl, .leftOpen hplaced hinnermost⟩
  | cons c after ih =>
    rcases h.readsOn c after with ⟨mark, r', hstep, hplaces, hnext⟩ | ⟨hstep, hstuck⟩
    · have hrest := ih hnext (hplaced.next hplaces)
      simp only [List.append_assoc, List.singleton_append] at hrest
      simpa only [read, hstep] using hrest
    · refine .inr ⟨r.position, by rw [read, hstep], ?_⟩
      rw [h.position]
      exact .stuck rfl hplaced hstuck

/-! ## Writing -/

/-- A table has a delimiter for each role. -/
def Holds (table : Json) (delimiter : Role → String) : Prop :=
  ∀ role : Role, table.members.lookup role.key = some (.str (delimiter role))

namespace Holds

variable {table : Json} {delimiter : Role → String}

theorem exists_writeAll (h : Holds table delimiter) (ms : List Mark) :
    ∃ t, writeAll (delimitersOf table) ms = .ok t ∧
      t.toList = ms.flatMap (Mark.written delimiter) := by
  induction ms with
  | nil => exact ⟨"", rfl, rfl⟩
  | cons mark ms ih =>
    obtain ⟨rest, hrest, htoList⟩ := ih
    obtain ⟨first, hfirst, hwritten⟩ : ∃ t, write (delimitersOf table) mark = .ok t ∧
        t.toList = mark.written delimiter := by
      cases mark with
      | plain c => exact ⟨_, rfl, String.toList_singleton c⟩
      | quote role =>
        refine ⟨delimiter role, ?_, rfl⟩
        rw [write, lookup_delimitersOf, h role]
        rfl
    refine ⟨first ++ rest, by rw [writeAll, hfirst, hrest]; rfl, ?_⟩
    rw [String.toList_append, hwritten, htoList, List.flatMap_cons]

theorem entriesFault?_eq_none (h : Holds table delimiter) : entriesFault? table = none := by
  cases table with
  | obj members => rfl
  | _ => cases h .apostrophe

theorem delimiterFault?_eq_none (h : Holds table delimiter) (before : Nat) (ms : List Mark) :
    delimiterFault? table before ms = none := by
  induction ms generalizing before with
  | nil => rfl
  | cons mark ms ih =>
    cases mark with
    | plain c => exact ih _
    | quote role =>
      rw [delimiterFault?, h role]
      exact ih _

/-- Quotes are written for all marks, or the fault is reported. -/
theorem typographic?_eq (h : Holds table delimiter) (text : String) :
    ∃ t : String, t.toList = (read .start text.toList).1.flatMap (Mark.written delimiter) ∧
      typographic? table text = match (read .start text.toList).2 with
        | some p => .error (.unbalancedQuotes text p)
        | none => .ok t := by
  obtain ⟨t, hwriteAll, htoList⟩ := h.exists_writeAll (read .start text.toList).1
  refine ⟨t, htoList, ?_⟩
  unfold typographic? typographic
  dsimp only
  rw [h.entriesFault?_eq_none, h.delimiterFault?_eq_none, hwriteAll, ite_self]
  cases (read .start text.toList).2 <;> rfl

end Holds

/-- With a delimiter for each role, a text is written with its quotes in roles that they can play
and its quotations nested, or else its fault is reported; an odd number of double quotes is never
balanced. -/
theorem quotes_find_roles {table : Json} {delimiter : Role → String} (h : Holds table delimiter)
    (text : String) :
    (∀ out, typographic? table text = .ok out →
      ∃ ms, List.Forall₂ Mark.Shows ms text.toList ∧ Placed text.toList [] ms ∧
        out.toList = ms.flatMap (Mark.written delimiter) ∧ IsNested (roles ms)) ∧
    (∀ e, typographic? table text = .error e →
      ∃ p, e = .unbalancedQuotes text p ∧ IsFault text.toList p ∧
        (text.toList[p]? = some '"' ∨ text.toList[p]? = some '\'')) ∧
    (text.toList.count '"' % 2 = 1 →
      ∃ p, typographic? table text = .error (.unbalancedQuotes text p)) := by
  obtain ⟨t, htoList, heq⟩ := h.typographic?_eq text
  rcases read_cases Reader.Remembers.start (.start text.toList) with
    ⟨hfault, hplaced, hnested⟩ | ⟨p, hfault, hisFault⟩
  · simp only [List.nil_append] at hplaced hnested
    rw [heq, hfault]
    refine ⟨?_, nofun, ?_⟩
    · rintro out ⟨⟩
      exact ⟨_, hplaced.shows, hplaced, htoList, hnested⟩
    · intro hodd
      have hcount := count_double hplaced.shows
      have heven := hnested.count_primaryOpening
      omega
  · rw [List.nil_append] at hisFault
    rw [heq, hfault]
    refine ⟨nofun, ?_, fun _ ↦ ⟨p, rfl⟩⟩
    rintro e ⟨⟩
    exact ⟨p, rfl, hisFault, hisFault.getElem?⟩

theorem holds_english : Holds (dataOf english) fun role ↦ (english.lookup role.key).getD "" := by
  intro role
  cases role <;> decide

/-- A quotation within another one. -/
theorem nestedQuotes_find_roles :
    Holds (dataOf english) (fun role ↦ (english.lookup role.key).getD "") ∧
    ∃ ms, List.Forall₂ Mark.Shows ms "\"It's 'so'\"".toList ∧
      Placed "\"It's 'so'\"".toList [] ms ∧
      "``It's `so'''".toList =
        ms.flatMap (Mark.written fun role ↦ (english.lookup role.key).getD "") ∧
      IsNested (roles ms) :=
  ⟨holds_english, (quotes_find_roles holds_english "\"It's 'so'\"").1 "``It's `so'''" (by decide)⟩

end Typeset.Quotes

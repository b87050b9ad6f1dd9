import Mathlib.Computability.Language
import Mathlib.Data.List.TakeWhile
import Typeset.Text.Number

/-!
# The language of numbers

A number is a word of a regular language. It is recognised from left to right without ever going
back, since each part takes what it can: no part that follows can need a character that has been
taken.
-/

namespace Typeset.Text

open Unicode

/-! ## The language -/

/-- One character of the class. -/
def one (p : Char → Bool) : Language Char := {w | ∃ c, p c = true ∧ w = [c]}

/-- Characters of the class. -/
def many (p : Char → Bool) : Language Char := {w | ∀ c ∈ w, p c = true}

def exponent : Language Char :=
  one isExponentMark * ((1 + one isSign) * (one isDecimal * many isDecimal))

/-- What may follow the digits and the exponent of a number. -/
def numberEnd : Language Char := many isBlank * (1 + one (· == '%'))

/-- Numbers, such as a price or a share. -/
def numeral : Language Char :=
  (1 + one isComparison) * ((1 + one isSign) * ((1 + one isCurrency) *
    (one isDecimal * (many isNumberChar * ((1 + exponent) * numberEnd)))))

/-! ## Parts that take what they can -/

/-- A word of the language is one still without a character of the class in front. -/
def Absorbs (p : Char → Bool) (l : Language Char) : Prop :=
  ∀ c w, p c = true → c :: w ∈ l → w ∈ l

/-- All words of the language begin with a character of the class, but for the empty one. -/
def BeginsWith (l : Language Char) (q : Char → Prop) : Prop := ∀ c w, c :: w ∈ l → q c

variable {p : Char → Bool} {q q' : Char → Prop} {l l' : Language Char} {c : Char} {w : List Char}

theorem BeginsWith.absorbs (h : BeginsWith l q) (hp : ∀ c, q c → p c = false) : Absorbs p l := by
  intro c w hc hw
  rw [hp c (h c w hw)] at hc
  cases hc

theorem mem_one_mul : w ∈ one p * l ↔ ∃ c w', p c = true ∧ w = c :: w' ∧ w' ∈ l := by
  rw [Language.mem_mul]
  constructor
  · rintro ⟨_, ⟨c, hc, rfl⟩, w', hw', rfl⟩
    exact ⟨c, w', hc, rfl, hw'⟩
  · rintro ⟨c, w', hc, rfl, hw'⟩
    exact ⟨[c], ⟨c, hc, rfl⟩, w', hw', rfl⟩

theorem cons_mem_one_mul : c :: w ∈ one p * l ↔ p c = true ∧ w ∈ l := by
  rw [mem_one_mul]
  constructor
  · rintro ⟨_, _, hc, heq, hw⟩
    obtain ⟨rfl, rfl⟩ := List.cons.inj heq
    exact ⟨hc, hw⟩
  · rintro ⟨hc, hw⟩
    exact ⟨c, w, hc, rfl, hw⟩

theorem nil_notMem_one_mul : [] ∉ one p * l := by
  rw [mem_one_mul]
  rintro ⟨c, w', -, heq, -⟩
  cases heq

theorem mem_one_add_mul : w ∈ (1 + l') * l ↔ w ∈ l ∨ w ∈ l' * l := by
  rw [add_mul, one_mul, Language.mem_add]

theorem BeginsWith.one_mul (p : Char → Bool) (l : Language Char) :
    BeginsWith (one p * l) (p · = true) := fun _ _ hw ↦ (cons_mem_one_mul.mp hw).1

theorem BeginsWith.optional (p : Char → Bool) (h : BeginsWith l q) :
    BeginsWith ((1 + one p) * l) fun c ↦ p c = true ∨ q c := by
  intro c w hw
  rcases mem_one_add_mul.mp hw with hw | hw
  · exact .inr (h c w hw)
  · exact .inl (cons_mem_one_mul.mp hw).1

theorem BeginsWith.many (p : Char → Bool) (h : BeginsWith l q) :
    BeginsWith (many p * l) fun c ↦ p c = true ∨ q c := by
  intro c w hw
  obtain ⟨taken, htaken, rest, hrest, heq⟩ := Language.mem_mul.mp hw
  cases taken with
  | nil => exact .inr (h c w (heq ▸ hrest))
  | cons c' taken =>
    obtain ⟨rfl, rfl⟩ := List.cons.inj heq
    exact .inl (htaken c' List.mem_cons_self)

/-- A character that may be missing is taken if it is there. -/
theorem mem_optional_mul (h : Absorbs p l) : w ∈ (1 + one p) * l ↔ dropOne p w ∈ l := by
  rw [mem_one_add_mul]
  cases w with
  | nil => simp [dropOne, nil_notMem_one_mul]
  | cons c w =>
    rw [cons_mem_one_mul, dropOne]
    split
    · next hc =>
      constructor
      · rintro (hw | ⟨-, hw⟩)
        · exact h c w hc hw
        · exact hw
      · exact fun hw ↦ .inr ⟨hc, hw⟩
    · next hc => simp [hc]

/-- All characters of the class are taken. -/
theorem mem_many_mul (h : Absorbs p l) : w ∈ many p * l ↔ w.dropWhile p ∈ l := by
  have hdrop : ∀ w, w ∈ l → w.dropWhile p ∈ l := by
    intro w hw
    induction w with
    | nil => exact hw
    | cons c w ih =>
      rw [List.dropWhile_cons]
      split
      · next hc => exact ih (h c w hc hw)
      · exact hw
  rw [Language.mem_mul]
  constructor
  · rintro ⟨taken, htaken, rest, hrest, rfl⟩
    rw [List.dropWhile_append_of_pos htaken]
    exact hdrop rest hrest
  · intro hw
    exact ⟨w.takeWhile p, fun c hc ↦ List.mem_takeWhile_imp hc, _, hw,
      List.takeWhile_append_dropWhile⟩

theorem Absorbs.many (h : Absorbs p l) : Absorbs p (many p * l) := by
  intro c w hc hw
  rw [mem_many_mul h, List.dropWhile_cons_of_pos hc] at hw
  exact (mem_many_mul h).mpr hw

/-! ## Classes of characters -/

theorem isBlank_of_isDecimal (h : isDecimal c = true) : isBlank c = false := by
  have hapart : ∀ s ∈ decimalSpans, ∀ b ∈ blankSpans, s.2 < b.1 ∨ b.2 < s.1 := by decide +kernel
  rw [isDecimal] at h
  rw [isBlank]
  split at h
  · next hascii =>
    have hdigit : 48 ≤ c.toNat ∧ c.toNat ≤ 57 := by
      simpa [Char.isDigit, UInt32.le_iff_toNat_le] using h
    rw [if_pos hascii]
    simp only [Bool.or_eq_false_iff, Bool.and_eq_false_iff, decide_eq_false_iff_not]
    omega
  · next hwide =>
    obtain ⟨s, hs, hin⟩ := List.any_eq_true.mp h
    rw [if_neg hwide]
    refine List.any_eq_false.mpr fun b hb hin' ↦ ?_
    rw [Bool.and_eq_true, decide_eq_true_iff, decide_eq_true_iff] at hin hin'
    have := hapart s hs b hb
    omega

theorem not_isSign (h : isCurrency c = true ∨ isDecimal c = true) : isSign c = false := by
  refine Bool.eq_false_iff.mpr fun hsign ↦ ?_
  rw [isSign, Bool.or_eq_true, beq_iff_eq, beq_iff_eq] at hsign
  rcases hsign with rfl | rfl <;> revert h <;> decide

theorem not_isCurrency (h : isDecimal c = true) : isCurrency c = false := by
  refine Bool.eq_false_iff.mpr fun hcurrency ↦ ?_
  simp only [isCurrency, Bool.or_eq_true, beq_iff_eq] at hcurrency
  rcases hcurrency with (rfl | rfl) | rfl <;> revert h <;> decide

theorem not_isComparison (h : isSign c = true ∨ isCurrency c = true ∨ isDecimal c = true) :
    isComparison c = false := by
  refine Bool.eq_false_iff.mpr fun hcomparison ↦ ?_
  rw [isComparison, Bool.or_eq_true, beq_iff_eq, beq_iff_eq] at hcomparison
  rcases hcomparison with rfl | rfl <;> revert h <;> decide

theorem not_isExponentMark (h : isBlank c = true ∨ c = '%' ∨ isNumberChar c = true) :
    isExponentMark c = false := by
  refine Bool.eq_false_iff.mpr fun hmark ↦ ?_
  rw [isExponentMark, Bool.or_eq_true, beq_iff_eq, beq_iff_eq] at hmark
  rcases hmark with rfl | rfl <;> revert h <;> decide

/-! ## Numbers are recognised -/

/-- An exponent that may be missing is taken if it is there, with all its digits. -/
theorem mem_exponent_mul (h : BeginsWith l q) (hmark : ∀ c, q c → isExponentMark c = false)
    (hdecimal : ∀ c, q c → isDecimal c = false) :
    w ∈ (1 + exponent) * l ↔ afterExponent w ∈ l := by
  rw [mem_one_add_mul, exponent, mul_assoc, mul_assoc, mul_assoc]
  cases w with
  | nil => simp [afterExponent, nil_notMem_one_mul]
  | cons c w =>
    have hsign : Absorbs isSign (one isDecimal * (many isDecimal * l)) :=
      (BeginsWith.one_mul _ _).absorbs fun _ hc ↦ not_isSign (.inr hc)
    rw [cons_mem_one_mul, mem_optional_mul hsign, afterExponent]
    by_cases hc : isExponentMark c = true
    · have hcons : c :: w ∉ l := fun hw ↦ absurd (hmark c (h c w hw)) (by rw [hc]; exact nofun)
      rw [if_pos hc]
      cases dropOne isSign w with
      | nil => simp [hcons, nil_notMem_one_mul]
      | cons d ds =>
        rw [cons_mem_one_mul, mem_many_mul (h.absorbs hdecimal)]
        by_cases hd : isDecimal d = true
        · simp [hc, hcons, hd]
        · simp [hcons, hd]
    · simp [hc]

theorem beginsWith_one : BeginsWith 1 fun _ ↦ False := fun c w hw ↦ List.cons_ne_nil c w hw

theorem numberEnd_eq : numberEnd = many isBlank * ((1 + one (· == '%')) * 1) := by
  rw [numberEnd, mul_one]

theorem absorbs_isBlank : Absorbs isBlank ((1 + one (· == '%')) * 1) := by
  refine (beginsWith_one.optional (· == '%')).absorbs fun c hc ↦ ?_
  obtain rfl : c = '%' := by simpa using hc
  decide

theorem numberEnd_beginsWith : BeginsWith numberEnd fun c ↦ isBlank c = true ∨ c = '%' := by
  rw [numberEnd_eq]
  simpa using (beginsWith_one.optional (· == '%')).many isBlank

theorem mem_numberEnd_iff :
    w ∈ numberEnd ↔ (dropOne (· == '%') (w.dropWhile isBlank)).isEmpty = true := by
  rw [numberEnd_eq, mem_many_mul absorbs_isBlank,
    mem_optional_mul (beginsWith_one.absorbs fun _ ↦ False.elim), Language.mem_one,
    List.isEmpty_iff]

/-- A blank that follows the digits of a number counts as one among them. -/
theorem absorbs_isNumberChar : Absorbs isNumberChar ((1 + exponent) * numberEnd) := by
  intro c w hc hw
  rcases mem_one_add_mul.mp hw with hw | hw
  · refine mem_one_add_mul.mpr (.inl ?_)
    rcases numberEnd_beginsWith c w hw with hblank | rfl
    · rw [numberEnd_eq] at hw ⊢
      exact absorbs_isBlank.many c w hblank hw
    · exact absurd hc (by decide)
  · rw [exponent, mul_assoc, cons_mem_one_mul, not_isExponentMark (.inr (.inr hc))] at hw
    cases hw.1

/-- A text is a number exactly if it is a word of the language. -/
theorem isNumber_iff (t : String) : isNumber t = true ↔ t.toList ∈ numeral := by
  have hdigit : BeginsWith (one isDecimal * (many isNumberChar * ((1 + exponent) * numberEnd)))
    (isDecimal · = true) := .one_mul _ _
  have hcurrency := hdigit.absorbs fun _ ↦ not_isCurrency
  have hsign := (hdigit.optional isCurrency).absorbs fun _ ↦ not_isSign
  have hcomparison := ((hdigit.optional isCurrency).optional isSign).absorbs
    fun _ ↦ not_isComparison
  rw [numeral, mem_optional_mul hcomparison, mem_optional_mul hsign, mem_optional_mul hcurrency,
    isNumber, isNumberChars]
  cases dropOne isCurrency (dropOne isSign (dropOne isComparison t.toList)) with
  | nil => simp [nil_notMem_one_mul]
  | cons c w =>
    rw [Bool.and_eq_true, cons_mem_one_mul, mem_many_mul absorbs_isNumberChar,
      mem_exponent_mul numberEnd_beginsWith, mem_numberEnd_iff]
    · exact fun c hc ↦ not_isExponentMark (hc.imp_right .inl)
    · rintro c (hc | rfl)
      · refine Bool.eq_false_iff.mpr fun hdecimal ↦ ?_
        rw [isBlank_of_isDecimal hdecimal] at hc
        cases hc
      · decide

end Typeset.Text

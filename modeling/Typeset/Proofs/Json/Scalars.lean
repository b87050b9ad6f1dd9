import Typeset.Json.Printer
import Typeset.Json.Reader

/-!
# Strings and numbers of JSON

What is printed for a string or a number is read back as it was, whatever follows a string, and
before anything but a digit for a number. Only ASCII is printed.
-/

namespace Typeset.Json

/-! ## Digits to base sixteen -/

theorem hexValue?_hexDigit : ∀ n < 16, hexValue? (Text.hexDigit n) = some n := by decide

theorem hexDigit_lt_128 : ∀ n < 16, (Text.hexDigit n).toNat < 0x80 := by decide

theorem hex_four (n : Nat) :
    Text.hex 4 n = [Text.hexDigit (n / 4096 % 16), Text.hexDigit (n / 256 % 16),
      Text.hexDigit (n / 16 % 16), Text.hexDigit (n % 16)] := by
  simp [Text.hex, Nat.div_div_eq_div_mul]

/-- The four digits of a code unit write it. -/
theorem unit?_hex {n : Nat} (h : n < 0x10000) :
    unit? (Text.hexDigit (n / 4096 % 16)) (Text.hexDigit (n / 256 % 16))
      (Text.hexDigit (n / 16 % 16)) (Text.hexDigit (n % 16)) = some n := by
  have h₁ := hexValue?_hexDigit (n / 4096 % 16) (by omega)
  have h₂ := hexValue?_hexDigit (n / 256 % 16) (by omega)
  have h₃ := hexValue?_hexDigit (n / 16 % 16) (by omega)
  have h₄ := hexValue?_hexDigit (n % 16) (by omega)
  simp only [unit?, h₁, h₂, h₃, h₄, Option.bind_eq_bind, Option.bind_some, Option.pure_def,
    Option.some.injEq]
  omega

/-! ## Strings -/

/-- A code unit that is no surrogate is read as the character of its number. -/
theorem readChars_unitEscape {n : Nat} (h : n < 0x10000) (hs : n < 0xD800 ∨ 0xDFFF < n)
    (rest : List Char) :
    readChars (unitEscape n ++ rest) = (readChars rest).map (consChar (.ofNat n)) := by
  have hhigh : isHighSurrogate n = false := by
    simp only [isHighSurrogate, Bool.and_eq_false_iff, decide_eq_false_iff_not]
    omega
  have hlow : isLowSurrogate n = false := by
    simp only [isLowSurrogate, Bool.and_eq_false_iff, decide_eq_false_iff_not]
    omega
  rw [unitEscape, hex_four]
  simp [readChars, unit?_hex h, hhigh, hlow]

/-- Two surrogates are read as the character of the pair. -/
theorem readChars_surrogates {high low : Nat} (hhigh : isHighSurrogate high = true)
    (hlow : isLowSurrogate low = true) (rest : List Char) :
    readChars (unitEscape high ++ (unitEscape low ++ rest)) =
      (readChars rest).map (consChar (ofSurrogates high low)) := by
  have h₁ : high < 0x10000 := by
    simp only [isHighSurrogate, Bool.and_eq_true, decide_eq_true_eq] at hhigh
    omega
  have h₂ : low < 0x10000 := by
    simp only [isLowSurrogate, Bool.and_eq_true, decide_eq_true_eq] at hlow
    omega
  rw [unitEscape, unitEscape, hex_four, hex_four]
  simp [readChars, unit?_hex h₁, unit?_hex h₂, hhigh, hlow]

/-- A character that stands for itself is read as itself. -/
theorem readChars_cons {c : Char} (hquote : c ≠ '"') (hback : c ≠ '\\') (h : 0x20 ≤ c.toNat)
    (rest : List Char) : readChars (c :: rest) = (readChars rest).map (consChar c) := by
  have hplain : ¬ (c.toNat < 0x20 ∨ c = '\\') := not_or.mpr ⟨Nat.not_lt.mpr h, hback⟩
  rw [readChars.eq_def]
  split
  · next heq => cases heq
  · next heq => exact absurd (List.cons.inj heq).1 hquote
  · next heq => exact absurd (List.cons.inj heq).1 hback
  · next heq => exact absurd (List.cons.inj heq).1 hback
  · next heq =>
    obtain ⟨rfl, rfl⟩ := List.cons.inj heq
    exact if_neg hplain

/-- What is printed for a character is read as that character. -/
theorem readChars_charText (c : Char) (rest : List Char) :
    readChars (charText c ++ rest) = (readChars rest).map (consChar c) := by
  have hc : c.toNat < 0xD800 ∨ 0xDFFF < c.toNat ∧ c.toNat < 0x110000 := c.valid
  unfold charText
  split
  case h_8 h₁ h₂ _ _ _ _ _ =>
    dsimp only
    split
    · next h => exact readChars_cons h₁ h₂ h.1 rest
    · split
      · next h =>
        rw [readChars_unitEscape h (by omega), Char.ofNat_toNat]
      · next h =>
        have hhigh : isHighSurrogate (0xD800 + (c.toNat - 0x10000) / 0x400) = true := by
          simp only [isHighSurrogate, Bool.and_eq_true, decide_eq_true_eq]
          omega
        have hlow : isLowSurrogate (0xDC00 + (c.toNat - 0x10000) % 0x400) = true := by
          simp only [isLowSurrogate, Bool.and_eq_true, decide_eq_true_eq]
          omega
        have hpair : ofSurrogates (0xD800 + (c.toNat - 0x10000) / 0x400)
            (0xDC00 + (c.toNat - 0x10000) % 0x400) = c := by
          rw [ofSurrogates, show 0x10000 + (0xD800 + (c.toNat - 0x10000) / 0x400 - 0xD800) * 0x400 +
            (0xDC00 + (c.toNat - 0x10000) % 0x400 - 0xDC00) = c.toNat by omega, Char.ofNat_toNat]
        rw [List.append_assoc, readChars_surrogates hhigh hlow, hpair]
  all_goals simp [readChars, ofEscape?]

/-- What is printed for a string is read as that string. -/
theorem readChars_flatMap_charText (cs rest : List Char) :
    readChars (cs.flatMap charText ++ '"' :: rest) = some (cs, rest) := by
  induction cs with
  | nil => simp [readChars]
  | cons c cs ih =>
    rw [List.flatMap_cons, List.append_assoc, readChars_charText, ih]
    rfl

/-! ## Numbers -/

/-- The text does not go on with a digit. -/
def EndsNumber (cs : List Char) : Prop := ∀ c rest, cs = c :: rest → c.isDigit = false

theorem endsNumber_cons {c : Char} {rest : List Char} (h : c.isDigit = false) :
    EndsNumber (c :: rest) := by
  rintro _ _ ⟨rfl, rfl⟩
  exact h

theorem takeWhile_append_of_endsNumber {digits rest : List Char}
    (h : ∀ c ∈ digits, c.isDigit = true) (hrest : EndsNumber rest) :
    (digits ++ rest).takeWhile Char.isDigit = digits ∧
      (digits ++ rest).dropWhile Char.isDigit = rest := by
  induction digits with
  | nil =>
    cases rest with
    | nil => exact ⟨rfl, rfl⟩
    | cons c rest => simp [hrest c rest rfl]
  | cons c digits ih =>
    obtain ⟨htake, hdrop⟩ := ih fun d hd ↦ h d (.tail _ hd)
    simp [h c List.mem_cons_self, htake, hdrop]

/-- The digits of a number write it. -/
theorem natOf_toDigits (n : Nat) : natOf (Nat.toDigits 10 n) = n := by
  have h := Nat.ofDigitChars_ten_toDigits (n := n)
  rw [Nat.ofDigitChars_eq_foldl] at h
  rw [natOf]
  simpa [Nat.mul_comm] using h

theorem toDigits_head {n : Nat} (h : 0 < n) : ∃ c cs, Nat.toDigits 10 n = c :: cs ∧ c ≠ '0' := by
  induction n using Nat.strongRecOn with
  | ind n ih =>
    by_cases hn : n < 10
    · refine ⟨n.digitChar, [], Nat.toDigits_of_lt_base hn, ?_⟩
      simp
      omega
    · obtain ⟨c, cs, hcs, hc⟩ := ih (n / 10) (by omega) (by omega)
      refine ⟨c, cs ++ [(n % 10).digitChar], ?_, hc⟩
      rw [Nat.toDigits_of_base_le (by omega) (by omega), hcs]
      rfl

theorem readNat_toDigits (n : Nat) {rest : List Char} (h : EndsNumber rest) :
    readNat (Nat.toDigits 10 n ++ rest) = some (n, rest) := by
  rcases Nat.eq_zero_or_pos n with rfl | hn
  · simp [readNat]
  · obtain ⟨c, cs, hcs, hc⟩ := toDigits_head hn
    have hdigits : ∀ d ∈ Nat.toDigits 10 n, d.isDigit = true :=
      fun _ hd ↦ Nat.isDigit_of_mem_toDigits (by omega) (by omega) hd
    obtain ⟨htake, hdrop⟩ := takeWhile_append_of_endsNumber hdigits h
    have hnat := natOf_toDigits n
    rw [hcs] at htake hdrop hnat ⊢
    rw [readNat.eq_def]
    split
    · simp_all
    · rw [htake, hdrop]
      simp [hnat]

theorem isDigit_toDigits {n : Nat} {c : Char} {cs : List Char} (h : Nat.toDigits 10 n = c :: cs) :
    c.isDigit = true :=
  Nat.isDigit_of_mem_toDigits (by omega) (by omega) (h ▸ List.mem_cons_self)

/-- A number is printed as its digits, a minus sign before them if it is negative. -/
theorem toString_int (n : Int) : (toString n).toList =
    if n < 0 then '-' :: Nat.toDigits 10 n.natAbs else Nat.toDigits 10 n.natAbs := by
  cases n with
  | ofNat n => simp [toString, Int.repr]
  | negSucc n => simp [toString, Int.repr, Int.negSucc_lt_zero]

/-- What is printed for a number begins with a digit or a minus sign. -/
theorem toString_int_head (n : Int) :
    ∃ c cs, (toString n).toList = c :: cs ∧ (c = '-' ∨ c.isDigit = true) := by
  rw [toString_int]
  split
  · exact ⟨'-', _, rfl, .inl rfl⟩
  · cases h : Nat.toDigits 10 n.natAbs with
    | nil => exact absurd h Nat.toDigits_ne_nil
    | cons c cs => exact ⟨c, cs, rfl, .inr (isDigit_toDigits h)⟩

/-- What is printed for a number is read as that number, unless more digits follow. -/
theorem readInt_toString (n : Int) {rest : List Char} (h : EndsNumber rest) :
    readInt ((toString n).toList ++ rest) = some (n, rest) := by
  have hnat := readNat_toDigits n.natAbs h
  rw [toString_int]
  split
  · simp only [List.cons_append, readInt, hnat, Option.map_some]
    congr
    omega
  · cases hd : Nat.toDigits 10 n.natAbs with
    | nil => exact absurd hd Nat.toDigits_ne_nil
    | cons c cs =>
      have hc : c ≠ '-' := by
        rintro rfl
        exact absurd (isDigit_toDigits hd) (by decide)
      rw [hd] at hnat
      rw [readInt.eq_def]
      split
      · simp_all
      · simp only [hnat, Option.map_some]
        congr
        omega

/-! ## ASCII -/

/-- All characters of the text are ASCII. -/
def IsAscii (cs : List Char) : Prop := ∀ c ∈ cs, c.toNat < 0x80

@[simp] theorem isAscii_nil : IsAscii [] := fun _ h ↦ absurd h List.not_mem_nil

@[simp] theorem isAscii_cons {c : Char} {cs : List Char} :
    IsAscii (c :: cs) ↔ c.toNat < 0x80 ∧ IsAscii cs :=
  List.forall_mem_cons

@[simp] theorem isAscii_append {cs ds : List Char} :
    IsAscii (cs ++ ds) ↔ IsAscii cs ∧ IsAscii ds :=
  List.forall_mem_append

theorem isAscii_unitEscape (n : Nat) : IsAscii (unitEscape n) := by
  simp only [unitEscape, hex_four, isAscii_cons, isAscii_nil, and_true]
  refine ⟨by decide, by decide, ?_, ?_, ?_, ?_⟩
  all_goals exact hexDigit_lt_128 _ (by omega)

theorem isAscii_charText (c : Char) : IsAscii (charText c) := by
  unfold charText
  split
  case h_8 =>
    dsimp only
    split
    · next h =>
      simp only [isAscii_cons, isAscii_nil, and_true]
      omega
    · split
      · exact isAscii_unitEscape _
      · exact isAscii_append.mpr ⟨isAscii_unitEscape _, isAscii_unitEscape _⟩
  all_goals simp

@[simp] theorem isAscii_stringText (s : String) : IsAscii (stringText s) := by
  have h : IsAscii (s.toList.flatMap charText) := by
    intro c hc
    obtain ⟨d, -, hd⟩ := List.mem_flatMap.mp hc
    exact isAscii_charText d c hd
  simp [stringText, h]

@[simp] theorem isAscii_toString_int (n : Int) : IsAscii (toString n).toList := by
  have hdigits : IsAscii (Nat.toDigits 10 n.natAbs) := by
    intro c hc
    have := Nat.isDigit_of_mem_toDigits (by omega) (by omega) hc
    have h : c.toNat ≤ '9'.toNat := (Char.isDigit_iff_toNat.mp this).2
    have : '9'.toNat < 0x80 := by decide
    omega
  rw [toString_int]
  split
  · exact isAscii_cons.mpr ⟨by decide, hdigits⟩
  · exact hdigits

end Typeset.Json

import Typeset.Proofs.Assoc
import Typeset.Proofs.Json.Scalars

/-!
# Printing and reading JSON

What is printed for a value is read back as that value, if no object of it has two members of one
name: of such members the reader keeps only one. Members of distinct names come into one order
however they stood before, so a value is printed the same whatever the order of its members.
-/

namespace Typeset.Json

mutual

/-- No object in the value has two members of one name. -/
def hasDistinctNames : Json → Bool
  | .arr items => haveDistinctNames items
  | .obj members => decide (members.map (·.1)).Nodup && membersHaveDistinctNames members
  | _ => true
termination_by structural j => j

/-- No object in the items has two members of one name. -/
def haveDistinctNames : List Json → Bool
  | [] => true
  | item :: items => item.hasDistinctNames && haveDistinctNames items
termination_by structural js => js

/-- No object in the values of the members has two members of one name. -/
def membersHaveDistinctNames : List (String × Json) → Bool
  | [] => true
  | (_, value) :: members => value.hasDistinctNames && membersHaveDistinctNames members
termination_by structural ms => ms

end

/-! ## Blanks -/

/-- The text is white space. -/
def IsBlank (cs : List Char) : Prop := ∀ c ∈ cs, isSpace c = true

theorem isBlank_lineBreak (indent : Option Nat) (level : Nat) :
    IsBlank (lineBreak indent level) := by
  intro c hc
  cases indent with
  | none => exact absurd hc List.not_mem_nil
  | some n =>
    rcases List.mem_cons.mp hc with rfl | hc
    · rfl
    · rw [List.eq_of_mem_replicate hc]
      rfl

/-- A separator is a comma with white space behind it. -/
theorem separator_eq (indent : Option Nat) (level : Nat) :
    ∃ bs, separator indent level = ',' :: bs ∧ IsBlank bs := by
  cases indent with
  | none => exact ⟨[' '], rfl, by simp [IsBlank, isSpace]⟩
  | some n => exact ⟨lineBreak (some n) level, rfl, isBlank_lineBreak _ _⟩

theorem skipSpaces_append {bs : List Char} (h : IsBlank bs) (cs : List Char) :
    skipSpaces (bs ++ cs) = skipSpaces cs :=
  List.dropWhile_append_of_pos h

theorem skipSpaces_cons {c : Char} (h : isSpace c = false) (cs : List Char) :
    skipSpaces (c :: cs) = c :: cs := by
  simp [skipSpaces, h]

theorem endsNumber_append {bs cs : List Char} (h : IsBlank bs) (h' : EndsNumber cs) :
    EndsNumber (bs ++ cs) := by
  cases bs with
  | nil => exact h'
  | cons b bs =>
    refine endsNumber_cons ?_
    have hb := h b List.mem_cons_self
    simp only [isSpace, Bool.or_eq_true, beq_iff_eq] at hb
    rcases hb with ((rfl | rfl) | rfl) | rfl <;> rfl

/-! ## What stands behind a value -/

/-- The texts of items, separators between them. -/
def itemsText (indent : Option Nat) (level : Nat) : List Json → List Char
  | [] => []
  | item :: items => chars indent level item ++ itemChars indent level items

/-- The texts of members, separators between them. -/
def membersText (indent : Option Nat) (level : Nat) : List (String × Json) → List Char
  | [] => []
  | (key, value) :: members =>
    stringText key ++ [':', ' '] ++ chars indent level value ++ memberChars indent level members

theorem itemChars_cons (indent : Option Nat) (level : Nat) (item : Json) (items : List Json) :
    itemChars indent level (item :: items) =
      separator indent level ++ itemsText indent level (item :: items) := by
  simp [itemChars, itemsText]

theorem memberChars_cons (indent : Option Nat) (level : Nat) (member : String × Json)
    (members : List (String × Json)) :
    memberChars indent level (member :: members) =
      separator indent level ++ membersText indent level (member :: members) := by
  simp [memberChars, membersText]

/-- What is printed for a value begins with a character that is neither white space nor a closing
bracket. -/
theorem chars_head (indent : Option Nat) (level : Nat) (j : Json) :
    ∃ c cs, chars indent level j = c :: cs ∧ isSpace c = false ∧ c ≠ ']' := by
  cases j with
  | null => exact ⟨'n', _, rfl, by decide, by decide⟩
  | bool b => cases b <;> exact ⟨_, _, rfl, by decide, by decide⟩
  | int n =>
    obtain ⟨c, cs, h, hc⟩ := toString_int_head n
    refine ⟨c, cs, h, ?_, ?_⟩
    · cases hs : isSpace c with
      | false => rfl
      | true =>
        simp only [isSpace, Bool.or_eq_true, beq_iff_eq] at hs
        rcases hs with ((rfl | rfl) | rfl) | rfl <;> simp at hc
    · rintro rfl
      simp at hc
  | str s => exact ⟨'"', _, rfl, by decide, by decide⟩
  | arr items => cases items <;> exact ⟨'[', _, rfl, by decide, by decide⟩
  | obj members => rcases members with _ | ⟨⟨_, _⟩, _⟩ <;> exact ⟨'{', _, rfl, by decide, by decide⟩

theorem skipSpaces_chars (indent : Option Nat) (level : Nat) (j : Json) (rest : List Char) :
    skipSpaces (chars indent level j ++ rest) = chars indent level j ++ rest := by
  obtain ⟨c, cs, h, hc, -⟩ := chars_head indent level j
  rw [h]
  exact skipSpaces_cons hc _

theorem skipSpaces_itemsText (indent : Option Nat) (level : Nat) (item : Json) (items : List Json)
    (rest : List Char) :
    skipSpaces (itemsText indent level (item :: items) ++ rest) =
      itemsText indent level (item :: items) ++ rest := by
  rw [itemsText, List.append_assoc]
  exact skipSpaces_chars indent level item _

theorem skipSpaces_membersText (indent : Option Nat) (level : Nat) (member : String × Json)
    (members : List (String × Json)) (rest : List Char) :
    skipSpaces (membersText indent level (member :: members) ++ rest) =
      membersText indent level (member :: members) ++ rest := by
  simp only [membersText, stringText, List.cons_append]
  exact skipSpaces_cons rfl _

theorem readValue_stringText (fuel : Nat) (s : String) (rest : List Char) :
    readValue (fuel + 1) (stringText s ++ rest) = some (.str s, rest) := by
  simp [stringText, readValue, readChars_flatMap_charText]

theorem readValue_int (fuel : Nat) (n : Int) {rest : List Char} (h : EndsNumber rest) :
    readValue (fuel + 1) ((toString n).toList ++ rest) = some (.int n, rest) := by
  have hread := readInt_toString n h
  obtain ⟨c, cs, hcs, hc⟩ := toString_int_head n
  rw [hcs] at hread ⊢
  rw [readValue.eq_def]
  dsimp only
  split
  all_goals simp_all

/-- A member before the closing brace is read by its name and its value. -/
theorem readMembers_last (fuel : Nat) (key : String) {cs rest more : List Char} {value : Json}
    (h : readValue fuel (skipSpaces cs) = some (value, rest))
    (hrest : skipSpaces rest = '}' :: more) :
    readMembers (fuel + 1) (stringText key ++ ':' :: ' ' :: cs) = some ([(key, value)], more) := by
  have hvalue : readValue fuel (skipSpaces (' ' :: cs)) = some (value, rest) := h
  simp only [stringText, List.cons_append, List.append_assoc, List.nil_append, readMembers,
    readChars_flatMap_charText, skipSpaces_cons (show isSpace ':' = false from rfl), hvalue,
    String.ofList_toList, hrest]

/-- A member before a comma is read by its name and its value, and then the others are. -/
theorem readMembers_next (fuel : Nat) (key : String) {cs rest more : List Char} {value : Json}
    (h : readValue fuel (skipSpaces cs) = some (value, rest))
    (hrest : skipSpaces rest = ',' :: more) :
    readMembers (fuel + 1) (stringText key ++ ':' :: ' ' :: cs) =
      (readMembers fuel (skipSpaces more)).map fun r ↦ ((key, value) :: r.1, r.2) := by
  have hvalue : readValue fuel (skipSpaces (' ' :: cs)) = some (value, rest) := h
  simp only [stringText, List.cons_append, List.append_assoc, List.nil_append, readMembers,
    readChars_flatMap_charText, skipSpaces_cons (show isSpace ':' = false from rfl), hvalue,
    String.ofList_toList, hrest]

/-! ## Values -/

mutual

/-- What is printed for a value is read as that value. The fuel may be as small as the length of
the text. -/
theorem readValue_chars (indent : Option Nat) :
    ∀ (j : Json) (level fuel : Nat) (rest : List Char), j.hasDistinctNames = true →
      EndsNumber rest → (chars indent level j).length ≤ fuel →
      readValue fuel (chars indent level j ++ rest) = some (j, rest)
  | j, level, 0, _, _, _, hfuel => by
    obtain ⟨c, cs, h, -⟩ := chars_head indent level j
    simp [h] at hfuel
  | .null, _, _ + 1, _, _, _, _ => rfl
  | .bool true, _, _ + 1, _, _, _, _ => rfl
  | .bool false, _, _ + 1, _, _, _, _ => rfl
  | .int n, _, fuel + 1, _, _, hrest, _ => readValue_int fuel n hrest
  | .str s, _, fuel + 1, rest, _, _, _ => readValue_stringText fuel s rest
  | .arr [], _, _ + 1, _, _, _, _ => rfl
  | .obj [], _, _ + 1, _, _, _, _ => rfl
  | .arr (item :: items), level, fuel + 1, rest, hnames, _, hfuel => by
    have hread := readItems_chars indent item items (level + 1) fuel (lineBreak indent level) rest
      hnames (isBlank_lineBreak indent level) (by simp [chars, itemsText] at hfuel ⊢; omega)
    obtain ⟨c, cs, hcs, hspace, hc⟩ := chars_head indent (level + 1) item
    simp only [chars, List.cons_append, List.append_assoc, readValue]
    rw [skipSpaces_append (isBlank_lineBreak _ _), skipSpaces_chars]
    simp only [itemsText, List.append_assoc, hcs, List.cons_append, List.nil_append] at hread ⊢
    split
    · simp_all
    · rw [hread]
      rfl
  | .obj ((key, value) :: members), level, fuel + 1, rest, hnames, _, hfuel => by
    simp only [hasDistinctNames, Bool.and_eq_true, decide_eq_true_eq] at hnames
    have hread := readMembers_chars indent (key, value) members (level + 1) fuel
      (lineBreak indent level) rest hnames.2 (isBlank_lineBreak indent level)
      (by simp [chars, membersText] at hfuel ⊢; omega)
    simp only [chars, List.cons_append, List.append_assoc, readValue]
    rw [skipSpaces_append (isBlank_lineBreak _ _)]
    simp only [membersText, stringText, List.append_assoc, List.cons_append, List.nil_append]
      at hread ⊢
    rw [skipSpaces_cons rfl]
    change (readMembers fuel _).map _ = _
    rw [hread, Option.map_some, ofMembers, Assoc.lastWins_of_nodup hnames.1]

/-- The texts of items up to the closing bracket are read as those items. -/
theorem readItems_chars (indent : Option Nat) :
    ∀ (item : Json) (items : List Json) (level fuel : Nat) (bs rest : List Char),
      haveDistinctNames (item :: items) = true → IsBlank bs →
      (itemsText indent level (item :: items)).length < fuel →
      readItems fuel (itemsText indent level (item :: items) ++ bs ++ ']' :: rest) =
        some (item :: items, rest)
  | item, items, level, 0, _, _, _, _, hfuel => by omega
  | item, [], level, fuel + 1, bs, rest, hnames, hbs, hfuel => by
    simp only [haveDistinctNames, Bool.and_true] at hnames
    simp only [itemsText, itemChars, List.append_nil] at hfuel
    have hread := readValue_chars indent item level fuel (bs ++ ']' :: rest) hnames
      (endsNumber_append hbs (endsNumber_cons rfl)) (by omega)
    rw [readItems, itemsText, itemChars, List.append_nil, List.append_assoc, hread]
    dsimp only
    rw [skipSpaces_append hbs, skipSpaces_cons rfl]
    rfl
  | item, item' :: items, level, fuel + 1, bs, rest, hnames, hbs, hfuel => by
    rw [haveDistinctNames, Bool.and_eq_true] at hnames
    obtain ⟨blanks, hsep, hblanks⟩ := separator_eq indent level
    rw [itemsText, itemChars_cons, hsep] at hfuel ⊢
    simp only [List.length_append, List.length_cons] at hfuel
    have hitem := readValue_chars indent item level fuel
      (',' :: (blanks ++ (itemsText indent level (item' :: items) ++ (bs ++ ']' :: rest)))) hnames.1
      (endsNumber_cons rfl) (by omega)
    have hitems := readItems_chars indent item' items level fuel bs rest hnames.2 hbs (by omega)
    simp only [List.append_assoc, List.cons_append] at hitems ⊢
    rw [readItems, hitem]
    dsimp only
    rw [skipSpaces_cons rfl]
    change (readItems fuel (skipSpaces _)).map _ = _
    rw [skipSpaces_append hblanks, skipSpaces_itemsText, hitems]
    rfl

/-- The texts of members up to the closing brace are read as those members. -/
theorem readMembers_chars (indent : Option Nat) :
    ∀ (member : String × Json) (members : List (String × Json)) (level fuel : Nat)
      (bs rest : List Char),
      membersHaveDistinctNames (member :: members) = true → IsBlank bs →
      (membersText indent level (member :: members)).length < fuel →
      readMembers fuel (membersText indent level (member :: members) ++ bs ++ '}' :: rest) =
        some (member :: members, rest)
  | _, _, _, 0, _, _, _, _, hfuel => by omega
  | (key, value), [], level, fuel + 1, bs, rest, hnames, hbs, hfuel => by
    simp only [membersHaveDistinctNames, Bool.and_true] at hnames
    simp only [membersText, memberChars, List.append_nil, List.length_append] at hfuel
    have hread := readValue_chars indent value level fuel (bs ++ '}' :: rest) hnames
      (endsNumber_append hbs (endsNumber_cons rfl)) (by omega)
    rw [← skipSpaces_chars] at hread
    simp only [membersText, memberChars, List.append_nil, List.append_assoc, List.cons_append,
      List.nil_append]
    exact readMembers_last fuel key hread (by rw [skipSpaces_append hbs, skipSpaces_cons rfl])
  | (key, value), member :: members, level, fuel + 1, bs, rest, hnames, hbs, hfuel => by
    rw [membersHaveDistinctNames, Bool.and_eq_true] at hnames
    obtain ⟨blanks, hsep, hblanks⟩ := separator_eq indent level
    rw [membersText, memberChars_cons, hsep] at hfuel ⊢
    simp only [List.length_append, List.length_cons] at hfuel
    have hvalue := readValue_chars indent value level fuel
      (',' :: (blanks ++ (membersText indent level (member :: members) ++ (bs ++ '}' :: rest))))
      hnames.1 (endsNumber_cons rfl) (by omega)
    have hmembers := readMembers_chars indent member members level fuel bs rest hnames.2 hbs
      (by omega)
    rw [← skipSpaces_chars] at hvalue
    simp only [List.append_assoc, List.cons_append, List.nil_append] at hvalue hmembers ⊢
    rw [readMembers_next fuel key hvalue (skipSpaces_cons rfl _), skipSpaces_append hblanks,
      skipSpaces_membersText, hmembers]
    rfl

end

/-- The text of a value is read as the value with its members in order. -/
theorem parse_text (indent : Option Nat) {j : Json} (h : j.sorted.hasDistinctNames = true) :
    parse (text indent j) = some j.sorted := by
  have hread := readValue_chars indent j.sorted 0 ((chars indent 0 j.sorted).length + 1) [] h
    (by simp [EndsNumber]) (by omega)
  have hskip := skipSpaces_chars indent 0 j.sorted []
  rw [List.append_nil] at hread hskip
  rw [parse, text, String.toList_ofList, hskip, hread]
  rfl

/-! ## ASCII -/

@[simp] theorem isAscii_lineBreak (indent : Option Nat) (level : Nat) :
    IsAscii (lineBreak indent level) := by
  intro c hc
  have hspace := isBlank_lineBreak indent level c hc
  simp only [isSpace, Bool.or_eq_true, beq_iff_eq] at hspace
  rcases hspace with ((rfl | rfl) | rfl) | rfl <;> decide

@[simp] theorem isAscii_separator (indent : Option Nat) (level : Nat) :
    IsAscii (separator indent level) := by
  cases indent with
  | none => simp [separator]
  | some n => simp [separator]

mutual

/-- What is printed for a value is ASCII. -/
theorem isAscii_chars (indent : Option Nat) :
    ∀ (j : Json) (level : Nat), IsAscii (chars indent level j)
  | .null, _ => by simp [chars]
  | .bool true, _ => by simp [chars]
  | .bool false, _ => by simp [chars]
  | .int n, _ => isAscii_toString_int n
  | .str s, _ => isAscii_stringText s
  | .arr [], _ => by simp [chars]
  | .obj [], _ => by simp [chars]
  | .arr (item :: items), level => by
    simp [chars, isAscii_chars indent item, isAscii_itemChars indent items]
  | .obj ((key, value) :: members), level => by
    simp [chars, isAscii_chars indent value, isAscii_memberChars indent members]

theorem isAscii_itemChars (indent : Option Nat) :
    ∀ (items : List Json) (level : Nat), IsAscii (itemChars indent level items)
  | [], _ => by simp [itemChars]
  | item :: items, level => by
    simp [itemChars, isAscii_chars indent item, isAscii_itemChars indent items]

theorem isAscii_memberChars (indent : Option Nat) :
    ∀ (members : List (String × Json)) (level : Nat), IsAscii (memberChars indent level members)
  | [], _ => by simp [memberChars]
  | (key, value) :: members, level => by
    simp [memberChars, isAscii_chars indent value, isAscii_memberChars indent members]

end

/-! ## Insertion -/

theorem perm_insertSorted (m : String × Json) (ms : List (String × Json)) :
    (insertSorted m ms).Perm (m :: ms) := by
  induction ms with
  | nil => exact .refl _
  | cons n ms ih =>
    rw [insertSorted]
    split
    · exact (ih.cons n).trans (.swap m n ms)
    · exact .refl _

/-- Two members of different names may be inserted in either order. -/
theorem insertSorted_comm {m n : String × Json} (h : m.1 ≠ n.1) (ms : List (String × Json)) :
    insertSorted m (insertSorted n ms) = insertSorted n (insertSorted m ms) := by
  have hle : n.1 ≤ m.1 ↔ ¬ m.1 ≤ n.1 :=
    ⟨fun hnm hmn ↦ h (String.le_antisymm hmn hnm),
      fun hmn ↦ (String.le_total m.1 n.1).resolve_left hmn⟩
  induction ms with
  | nil =>
    by_cases hmn : m.1 ≤ n.1 <;> simp [insertSorted, hle, hmn]
  | cons k ms ih =>
    by_cases hkm : k.1 ≤ m.1
    · by_cases hkn : k.1 ≤ n.1
      · simp [insertSorted, hkm, hkn, ih]
      · have hnm : n.1 ≤ m.1 :=
          String.le_trans ((String.le_total k.1 n.1).resolve_left hkn) hkm
        simp [insertSorted, hkm, hkn, hnm]
    · by_cases hkn : k.1 ≤ n.1
      · have hmn : m.1 ≤ n.1 :=
          String.le_trans ((String.le_total k.1 m.1).resolve_left hkm) hkn
        simp [insertSorted, hkm, hkn, hmn]
      · by_cases hmn : m.1 ≤ n.1 <;> simp [insertSorted, hkm, hkn, hle, hmn]

/-! ## Values in order -/

@[simp] theorem sortedItems_eq (items : List Json) : sortedItems items = items.map sorted := by
  induction items with
  | nil => rfl
  | cons item items ih => rw [sortedItems, ih, List.map_cons]

theorem sortedMembers_eq (ms : List (String × Json)) :
    sortedMembers ms = (ms.map fun m ↦ (m.1, m.2.sorted)).foldr insertSorted [] := by
  induction ms with
  | nil => rfl
  | cons m ms ih =>
    obtain ⟨name, value⟩ := m
    rw [sortedMembers, ih, List.map_cons, List.foldr_cons]

/-- Putting members in order neither drops nor adds one. -/
theorem perm_sortedMembers (ms : List (String × Json)) :
    (sortedMembers ms).Perm (ms.map fun m ↦ (m.1, m.2.sorted)) := by
  induction ms with
  | nil => exact .refl _
  | cons m ms ih =>
    obtain ⟨name, value⟩ := m
    rw [sortedMembers, List.map_cons]
    exact (perm_insertSorted _ _).trans (ih.cons _)

theorem names_sortedMembers (ms : List (String × Json)) :
    ((sortedMembers ms).map (·.1)).Perm (ms.map (·.1)) := by
  have h := (perm_sortedMembers ms).map (·.1)
  rwa [List.map_map] at h

/-- Members of distinct names come into one order, however they stood. -/
theorem sortedMembers_of_perm {ms ns : List (String × Json)} (h : ms.Perm ns)
    (hnames : (ms.map (·.1)).Nodup) : sortedMembers ms = sortedMembers ns := by
  rw [sortedMembers_eq, sortedMembers_eq]
  refine (h.map _).foldr_eq' ?_ []
  intro m hm n hn ks
  by_cases hmn : m.1 = n.1
  · have hsorted : ((ms.map fun m ↦ (m.1, m.2.sorted)).map (·.1)).Nodup := by
      rwa [List.map_map]
    rw [List.inj_on_of_nodup_map hsorted hm hn hmn]
  · exact insertSorted_comm (Ne.symm hmn) ks

/-! ## Distinct names -/

theorem haveDistinctNames_iff (items : List Json) :
    haveDistinctNames items = true ↔ ∀ j ∈ items, j.hasDistinctNames = true := by
  induction items with
  | nil => simp [haveDistinctNames]
  | cons item items ih => simp [haveDistinctNames, ih]

theorem membersHaveDistinctNames_iff (ms : List (String × Json)) :
    membersHaveDistinctNames ms = true ↔ ∀ m ∈ ms, m.2.hasDistinctNames = true := by
  induction ms with
  | nil => simp [membersHaveDistinctNames]
  | cons m ms ih =>
    obtain ⟨name, value⟩ := m
    simp [membersHaveDistinctNames, ih]

mutual

/-- A value put in order has members of the same names as before. -/
theorem hasDistinctNames_sorted : ∀ j : Json, j.hasDistinctNames = true →
    j.sorted.hasDistinctNames = true
  | .null, h => h
  | .bool _, h => h
  | .int _, h => h
  | .str _, h => h
  | .arr items, h => by
    rw [sorted, hasDistinctNames, sortedItems_eq, haveDistinctNames_iff]
    intro j hj
    obtain ⟨i, hi, rfl⟩ := List.mem_map.mp hj
    exact haveDistinctNames_sorted items h i hi
  | .obj ms, h => by
    simp only [hasDistinctNames, Bool.and_eq_true, decide_eq_true_eq] at h
    rw [sorted, hasDistinctNames, Bool.and_eq_true, decide_eq_true_eq,
      membersHaveDistinctNames_iff]
    refine ⟨(names_sortedMembers ms).nodup_iff.mpr h.1, fun m hm ↦ ?_⟩
    obtain ⟨n, hn, rfl⟩ := List.mem_map.mp ((perm_sortedMembers ms).mem_iff.mp hm)
    exact membersHaveDistinctNames_sorted ms h.2 n hn

theorem haveDistinctNames_sorted : ∀ items : List Json, haveDistinctNames items = true →
    ∀ j ∈ items, j.sorted.hasDistinctNames = true
  | [], _, j, hj => absurd hj List.not_mem_nil
  | item :: items, h, j, hj => by
    rw [haveDistinctNames, Bool.and_eq_true] at h
    rcases List.mem_cons.mp hj with heq | hj
    · rw [heq]
      exact hasDistinctNames_sorted item h.1
    · exact haveDistinctNames_sorted items h.2 j hj

theorem membersHaveDistinctNames_sorted : ∀ ms : List (String × Json),
    membersHaveDistinctNames ms = true → ∀ m ∈ ms, m.2.sorted.hasDistinctNames = true
  | [], _, m, hm => absurd hm List.not_mem_nil
  | (name, value) :: ms, h, m, hm => by
    rw [membersHaveDistinctNames, Bool.and_eq_true] at h
    rcases List.mem_cons.mp hm with rfl | hm
    · exact hasDistinctNames_sorted value h.1
    · exact membersHaveDistinctNames_sorted ms h.2 m hm

end

/-- The text of a value without repeated names is read as the value in order. -/
theorem parse_text_of_hasDistinctNames (indent : Option Nat) {j : Json}
    (h : j.hasDistinctNames = true) : parse (text indent j) = some j.sorted :=
  parse_text indent (hasDistinctNames_sorted j h)

end Typeset.Json

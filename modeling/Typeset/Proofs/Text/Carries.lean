import Mathlib.Data.Nat.Find
import Typeset.Text.Cut
import Typeset.Text.Lines
import Typeset.Text.Trim

/-!
# Words that stand in a text

A text occurs in another one if it stands there in one piece. It still does when more is put around
the other text, and when the other text is trimmed of what the first one neither begins nor ends
with. A text carries a list of words if they stand in it one after the other: each begins behind the
place where the one before it begins, and may still be part of that one. A text keeps what it
carries when more is put around it and when it is trimmed, and texts in a row carry their words in a
row.
-/

namespace Typeset.Text

open Unicode

/-! ## One word -/

/-- The first text occurs in the second one. -/
def Occurs (s t : String) : Prop := s.toList <:+: t.toList

instance (s t : String) : Decidable (Occurs s t) := inferInstanceAs (Decidable (_ <:+: _))

/-- The text neither begins nor ends with white space. -/
structure IsCompact (s : String) : Prop where
  head : ∃ c cs, s.toList = c :: cs ∧ isBlank c = false
  last : ∃ c cs, s.toList = cs ++ [c] ∧ isBlank c = false

namespace Occurs

variable {s t : String}

theorem refl (s : String) : Occurs s s := List.infix_rfl

theorem append_right (h : Occurs s t) (u : String) : Occurs s (t ++ u) := by
  rw [Occurs, String.toList_append]
  exact List.IsInfix.trans h (List.prefix_append _ _).isInfix

theorem append_left (u : String) (h : Occurs s t) : Occurs s (u ++ t) := by
  rw [Occurs, String.toList_append]
  exact List.IsInfix.trans h (List.suffix_append _ _).isInfix

theorem ne_empty (h : Occurs s t) (hs : IsCompact s) : t.isEmpty = false := by
  obtain ⟨c, cs, hc, -⟩ := hs.head
  refine Bool.eq_false_iff.mpr fun he ↦ ?_
  rw [Occurs, String.isEmpty_iff.mp he, String.toList_empty, List.infix_nil, hc] at h
  cases h

/-- What is between two separators is there in one piece. -/
theorem intercalate {ts : List String} (ht : t ∈ ts) (h : Occurs s t) (separator : String) :
    Occurs s (String.intercalate separator ts) := by
  rw [Occurs, String.toList_intercalate]
  refine List.IsInfix.trans h ?_
  induction ts with
  | nil => exact absurd ht List.not_mem_nil
  | cons t' ts ih =>
    cases ts with
    | nil =>
      obtain rfl := List.mem_singleton.mp ht
      simp
    | cons u us =>
      rw [List.map_cons, List.map_cons, List.intercalate_cons_cons]
      rcases List.mem_cons.mp ht with rfl | ht
      · rw [List.append_assoc]
        exact (List.prefix_append _ _).isInfix
      · exact (ih ht).trans (List.suffix_append _ _).isInfix

theorem unlines {ts : List String} (ht : t ∈ ts) (h : Occurs s t) : Occurs s (unlines ts) :=
  h.intercalate ht "\n"

theorem join {ts : List String} (ht : t ∈ ts) (h : Occurs s t) : Occurs s (String.join ts) := by
  rw [Occurs, String.toList_join]
  refine List.IsInfix.trans h ?_
  obtain ⟨before, after, rfl⟩ := List.append_of_mem ht
  rw [List.flatMap_append, List.flatMap_cons]
  exact ⟨_, _, (List.append_assoc _ _ _)⟩

/-! ## Trimming -/

theorem of_dropWhile {p : Char → Bool} {c : Char} {cs bs : List Char} (hc : p c = false)
    (h : c :: cs <:+: bs) : c :: cs <:+: bs.dropWhile p := by
  induction bs with
  | nil => exact h
  | cons b bs ih =>
    rw [List.dropWhile_cons]
    split
    · next hb =>
      rcases List.infix_cons_iff.mp h with h | h
      · obtain ⟨rfl, -⟩ := List.cons_prefix_cons.mp h
        rw [hc] at hb
        cases hb
      · exact ih h
    · exact h

theorem of_dropEndWhile {p : Char → Bool} {c : Char} {cs bs : List Char} (hc : p c = false)
    (h : cs ++ [c] <:+: bs) : cs ++ [c] <:+: dropEndWhile p bs := by
  rw [dropEndWhile, ← List.reverse_infix, List.reverse_reverse, List.reverse_append]
  rw [← List.reverse_infix, List.reverse_append] at h
  exact of_dropWhile hc h

theorem trim {p : Char → Bool} (hp : ∀ c, isBlank c = false → p c = false) (hs : IsCompact s)
    {bs : List Char} (h : s.toList <:+: bs) : s.toList <:+: trim p bs := by
  obtain ⟨c, cs, hhead, hc⟩ := hs.head
  obtain ⟨d, ds, hlast, hd⟩ := hs.last
  have hfront : s.toList <:+: bs.dropWhile p := by
    rw [hhead] at h ⊢
    exact of_dropWhile (hp c hc) h
  rw [hlast] at hfront ⊢
  exact of_dropEndWhile (hp d hd) hfront

theorem strip (hs : IsCompact s) (h : Occurs s t) : Occurs s (strip t) := by
  rw [Occurs, Text.strip, String.toList_ofList]
  exact trim (fun _ hc ↦ hc) hs h

theorem isNewline_eq_false {c : Char} (h : isBlank c = false) : isNewline c = false := by
  refine Bool.eq_false_iff.mpr fun hc ↦ ?_
  obtain rfl := eq_of_beq hc
  exact absurd h (by decide)

theorem not_isBlankText (hs : IsCompact s) (h : Occurs s t) : isBlankText t = false := by
  obtain ⟨c, cs, hhead, hc⟩ := hs.head
  refine Bool.eq_false_iff.mpr fun hall ↦ ?_
  rw [isBlankText, List.all_eq_true] at hall
  have hmem : c ∈ t.toList := h.subset (by rw [hhead]; exact List.mem_cons_self)
  rw [hall c hmem] at hc
  cases hc

end Occurs

/-! ## Words in order -/

/-- The text carries the words. -/
inductive Carries : List String → List Char → Prop
  | nil (cs : List Char) : Carries [] cs
  | skip {ws : List String} {cs : List Char} (c : Char) : Carries ws cs → Carries ws (c :: cs)
  | word {w : String} {ws : List String} {c : Char} {cs : List Char} :
    w.toList <+: c :: cs → Carries ws cs → Carries (w :: ws) (c :: cs)

/-- The words neither begin nor end with white space. -/
def AreCompact (ws : List String) : Prop := ∀ w ∈ ws, IsCompact w

namespace AreCompact

variable {w : String} {ws vs : List String}

theorem nil : AreCompact [] := fun _ h ↦ absurd h List.not_mem_nil

theorem head (h : AreCompact (w :: ws)) : IsCompact w := h w List.mem_cons_self

theorem tail (h : AreCompact (w :: ws)) : AreCompact ws := fun v hv ↦ h v (.tail _ hv)

end AreCompact

namespace Carries

variable {w : String} {ws vs : List String} {cs ds : List Char}

theorem eq_nil (h : Carries ws []) : ws = [] := by cases h; rfl

theorem append_left (bs : List Char) (h : Carries ws cs) : Carries ws (bs ++ cs) := by
  induction bs with
  | nil => exact h
  | cons b bs ih => exact .skip b ih

/-- Texts in a row carry their words in a row. -/
theorem append (h : Carries ws cs) (h' : Carries vs ds) : Carries (ws ++ vs) (cs ++ ds) := by
  induction h with
  | nil cs => exact h'.append_left cs
  | skip c _ ih => exact .skip c ih
  | word hw _ ih => exact .word (hw.trans (List.prefix_append _ _)) ih

theorem append_right (h : Carries ws cs) (ds : List Char) : Carries ws (cs ++ ds) := by
  simpa using h.append (.nil ds)

/-- A word carries itself, and behind its first character what the rest of it carries. -/
theorem cons {c : Char} (hw : w.toList = c :: cs) (h : Carries ws cs) :
    Carries (w :: ws) w.toList := by
  rw [hw]
  exact .word (hw ▸ List.prefix_rfl) h

theorem of_inside {c : Char} {bs : List Char} (hw : w.toList = c :: bs) (h : w.toList <:+: cs) :
    Carries [w] cs := by
  obtain ⟨before, after, rfl⟩ := h
  refine ((cons hw (.nil bs)).append_left before).append_right after

/-- A text in which a word occurs carries it. -/
theorem of_occurs {t : String} (hw : IsCompact w) (h : Occurs w t) : Carries [w] t.toList := by
  obtain ⟨c, cs, hc, -⟩ := hw.head
  exact of_inside hc h

theorem of_cons (h : Carries (w :: ws) cs) : Carries ws cs := by
  generalize hvs : w :: ws = vs at h
  induction h with
  | nil => cases hvs
  | skip c _ ih => exact .skip c (ih hvs)
  | word _ h =>
    obtain ⟨-, rfl⟩ := List.cons.inj hvs
    exact .skip _ h

theorem infix_of_mem (h : Carries ws cs) (hw : w ∈ ws) : w.toList <:+: cs := by
  induction h with
  | nil => cases hw
  | skip c _ ih => exact (ih hw).trans (List.suffix_cons _ _).isInfix
  | word hfirst _ ih =>
    rcases List.mem_cons.mp hw with rfl | hw
    · exact hfirst.isInfix
    · exact (ih hw).trans (List.suffix_cons _ _).isInfix

theorem occurs {t : String} (h : Carries ws t.toList) (hw : w ∈ ws) : Occurs w t :=
  h.infix_of_mem hw

theorem of_sublist (h : Carries ws cs) (hvs : vs.Sublist ws) : Carries vs cs := by
  induction h generalizing vs with
  | nil cs =>
    rw [List.sublist_nil.mp hvs]
    exact .nil cs
  | skip c _ ih => exact .skip c (ih hvs)
  | word hw _ ih =>
    cases hvs with
    | cons _ hvs => exact .skip _ (ih hvs)
    | cons_cons _ hvs => exact .word hw (ih hvs)

/-! ## Deciding -/

/-- Whether the words can be found one after the other, each as early as it can be. -/
def find : List String → List Char → Bool
  | [], _ => true
  | _ :: _, [] => false
  | w :: ws, c :: cs =>
    if w.toList.isPrefixOf (c :: cs) then find ws cs else find (w :: ws) cs

theorem find_iff : find ws cs = true ↔ Carries ws cs := by
  induction cs generalizing ws with
  | nil =>
    cases ws with
    | nil => exact ⟨fun _ ↦ .nil [], fun _ ↦ rfl⟩
    | cons w ws => exact ⟨nofun, fun h ↦ nomatch h.eq_nil⟩
  | cons c cs ih =>
    cases ws with
    | nil => exact ⟨fun _ ↦ .nil _, fun _ ↦ by rw [find]⟩
    | cons w ws =>
      rw [find]
      split
      · next hw =>
        refine ih.trans ⟨fun h ↦ .word (List.isPrefixOf_iff_prefix.mp hw) h, fun h ↦ ?_⟩
        cases h with
        | skip _ h => exact h.of_cons
        | word _ h => exact h
      · next hw =>
        refine ih.trans ⟨fun h ↦ .skip c h, fun h ↦ ?_⟩
        cases h with
        | skip _ h => exact h
        | word h _ => exact absurd (List.isPrefixOf_iff_prefix.mpr h) hw

instance : Decidable (Carries ws cs) := decidable_of_iff _ find_iff

/-! ## Texts put together -/

theorem fill {template t : String} (h : Carries ws t.toList) :
    Carries (if holds template "%s" then ws else []) (fill template t).toList := by
  unfold Text.fill holds
  rw [show "%s".toList = ['%', 's'] from rfl]
  cases cut? ['%', 's'] template.toList with
  | none => exact .nil _
  | some parts =>
    simp only [Option.isSome_some, if_true, String.toList_append]
    exact (h.append_left _).append_right _

/-! ## Trimming -/

theorem of_dropWhile {p : Char → Bool} (hp : ∀ c, isBlank c = false → p c = false)
    (hws : AreCompact ws) (h : Carries ws cs) : Carries ws (cs.dropWhile p) := by
  induction h with
  | nil cs => exact .nil _
  | @skip ws cs c h ih =>
    rw [List.dropWhile_cons]
    split
    · exact ih hws
    · exact .skip c h
  | @word w ws c cs hw h ih =>
    obtain ⟨d, ds, hd, hblank⟩ := hws.head.head
    obtain ⟨rfl, -⟩ := List.cons_prefix_cons.mp (hd ▸ hw)
    rw [List.dropWhile_cons, hp d hblank]
    exact .word hw h

theorem dropEndWhile_append {p : Char → Bool} {c : Char} (hc : p c = false) (cs ds : List Char) :
    dropEndWhile p (cs ++ [c] ++ ds) = cs ++ [c] ++ dropEndWhile p ds := by
  unfold dropEndWhile
  rw [List.reverse_append, List.dropWhile_append]
  split
  · next h =>
    rw [List.isEmpty_iff.mp h, List.reverse_append, List.reverse_singleton, List.singleton_append,
      List.dropWhile_cons, hc]
    simp
  · simp

theorem dropEndWhile_cons (p : Char → Bool) (c : Char) (cs : List Char) :
    dropEndWhile p (c :: cs) =
      if dropEndWhile p cs = [] ∧ p c = true then [] else c :: dropEndWhile p cs := by
  unfold dropEndWhile
  rw [List.reverse_cons, List.dropWhile_append]
  simp only [List.isEmpty_iff, List.reverse_eq_nil_iff]
  by_cases h : cs.reverse.dropWhile p = []
  · cases hc : p c <;> simp [h, hc]
  · simp [h]

theorem of_dropEndWhile {p : Char → Bool} (hp : ∀ c, isBlank c = false → p c = false)
    (hws : AreCompact ws) (h : Carries ws cs) : Carries ws (dropEndWhile p cs) := by
  induction h with
  | nil cs => exact .nil _
  | @skip ws cs c h ih =>
    rw [dropEndWhile_cons]
    split
    · next hnil => exact hnil.1 ▸ ih hws
    · exact .skip c (ih hws)
  | @word w ws c cs hw h ih =>
    obtain ⟨d, ds, hd, hblank⟩ := hws.head.last
    obtain ⟨rest, hrest⟩ := hw
    have hkept : dropEndWhile p (c :: cs) = w.toList ++ dropEndWhile p rest := by
      rw [← hrest, hd, dropEndWhile_append (hp d hblank)]
    have hcons : dropEndWhile p (c :: cs) = c :: dropEndWhile p cs := by
      rw [dropEndWhile_cons] at hkept ⊢
      split at hkept
      · rw [hd] at hkept
        simp at hkept
      · next hne => rw [if_neg hne]
    rw [hcons]
    refine .word ?_ (ih hws.tail)
    rw [← hcons, hkept]
    exact List.prefix_append _ _

theorem trim {p : Char → Bool} (hp : ∀ c, isBlank c = false → p c = false) (hws : AreCompact ws)
    (h : Carries ws cs) : Carries ws (trim p cs) :=
  (h.of_dropWhile hp hws).of_dropEndWhile hp hws

theorem strip {t : String} (hws : AreCompact ws) (h : Carries ws t.toList) :
    Carries ws (strip t).toList := by
  rw [Text.strip, String.toList_ofList]
  exact h.trim (fun _ hc ↦ hc) hws

theorem stripNewlines {t : String} (hws : AreCompact ws) (h : Carries ws t.toList) :
    Carries ws (stripNewlines t).toList := by
  rw [Text.stripNewlines, String.toList_ofList]
  exact h.trim (fun _ hc ↦ Occurs.isNewline_eq_false hc) hws

theorem stripEnd {t : String} (hws : AreCompact ws) (h : Carries ws t.toList) :
    Carries ws (stripEnd t).toList := by
  rw [Text.stripEnd, String.toList_ofList]
  exact h.of_dropEndWhile (fun _ hc ↦ hc) hws

/-- Blank texts carry no words. -/
theorem eq_nil_of_isBlankText {t : String} (hws : AreCompact ws) (ht : isBlankText t = true)
    (h : Carries ws t.toList) : ws = [] := by
  cases ws with
  | nil => rfl
  | cons w ws =>
    have hoccurs : Occurs w t := h.infix_of_mem List.mem_cons_self
    rw [hoccurs.not_isBlankText hws.head] at ht
    cases ht

theorem eq_nil_of_isEmpty {t : String} (ht : t.isEmpty = true) (h : Carries ws t.toList) :
    ws = [] := by
  rw [String.isEmpty_iff.mp ht] at h
  exact h.eq_nil

/-- The part of a text that is left out when it is empty. -/
theorem of_nonempty {t : String} {ds : List Char} (h : Carries ws t.toList)
    (hds : t.isEmpty = false → Carries ws ds) : Carries ws ds := by
  cases ht : t.isEmpty with
  | true =>
    rw [h.eq_nil_of_isEmpty ht]
    exact .nil ds
  | false => exact hds ht

end Carries

/-! ## Texts in a row -/

/-- The texts carry the words, each text its own ones behind those of the texts before. -/
inductive CarriesAll : List String → List String → Prop
  | nil : CarriesAll [] []
  | cons {ws vs : List String} {t : String} {ts : List String} :
    Carries ws t.toList → CarriesAll vs ts → CarriesAll (ws ++ vs) (t :: ts)

namespace CarriesAll

variable {ws vs : List String} {t : String} {ts us : List String}

theorem none (ts : List String) : CarriesAll [] ts := by
  induction ts with
  | nil => exact .nil
  | cons t ts ih =>
    have hfirst : Carries [] t.toList := .nil _
    exact .cons hfirst ih

theorem single (h : Carries ws t.toList) : CarriesAll ws [t] := by
  simpa using CarriesAll.cons h .nil

theorem append (h : CarriesAll ws ts) (h' : CarriesAll vs us) :
    CarriesAll (ws ++ vs) (ts ++ us) := by
  induction h with
  | nil => exact h'
  | cons hfirst _ ih =>
    rw [List.append_assoc]
    exact .cons hfirst ih

theorem append_right (h : CarriesAll ws ts) (us : List String) : CarriesAll ws (ts ++ us) := by
  simpa using h.append (none us)

theorem append_left (us : List String) (h : CarriesAll ws ts) : CarriesAll ws (us ++ ts) :=
  (none us).append h

theorem of_mem (ht : t ∈ ts) (h : Carries ws t.toList) : CarriesAll ws ts := by
  obtain ⟨before, after, rfl⟩ := List.append_of_mem ht
  exact ((single h).append_right after).append_left before

theorem eq_nil (h : CarriesAll ws []) : ws = [] := by cases h; rfl

/-- Texts can be left out if they carry nothing, and changed if they keep what they carry. -/
theorem filter_map {p : String → Bool} {f : String → String} (hws : AreCompact ws)
    (h : CarriesAll ws ts)
    (hp : ∀ {vs t}, AreCompact vs → Carries vs t.toList → p t = false → vs = [])
    (hf : ∀ {vs t}, AreCompact vs → Carries vs t.toList → Carries vs (f t).toList) :
    CarriesAll ws ((ts.filter p).map f) := by
  induction h with
  | nil => exact .nil
  | @cons ws vs t ts hfirst _ ih =>
    have hhead : AreCompact ws := fun w hw ↦ hws w (List.mem_append_left _ hw)
    have ih := ih fun w hw ↦ hws w (List.mem_append_right _ hw)
    cases ht : p t with
    | true =>
      rw [List.filter_cons, if_pos ht]
      exact .cons (hf hhead hfirst) ih
    | false =>
      rw [List.filter_cons, if_neg (Bool.eq_false_iff.mp ht), hp hhead hfirst ht]
      exact ih

theorem intercalate (h : CarriesAll ws ts) (separator : String) :
    Carries ws (String.intercalate separator ts).toList := by
  rw [String.toList_intercalate]
  induction h with
  | nil => exact .nil _
  | @cons ws vs t ts hfirst hrest ih =>
    cases ts with
    | nil => simpa [hrest.eq_nil] using hfirst
    | cons u us =>
      rw [List.map_cons, List.map_cons, List.intercalate_cons_cons]
      exact (hfirst.append_right _).append ih

theorem unlines (h : CarriesAll ws ts) : Carries ws (unlines ts).toList := h.intercalate "\n"

theorem join (h : CarriesAll ws ts) : Carries ws (String.join ts).toList := by
  rw [String.toList_join]
  induction h with
  | nil => exact .nil _
  | cons hfirst _ ih => exact hfirst.append ih

end CarriesAll

/-! ## Cutting -/

/-- The word is neither taken apart by a cut at the pattern nor begins in the pattern. -/
structure IsUncut (pattern : List Char) (w : String) : Prop where
  before : ∀ cs ds, w.toList <+: cs ++ (pattern ++ ds) → w.toList <+: cs
  within : ∀ cs ds, cs ≠ [] → cs <:+ pattern → ¬ w.toList <+: cs ++ ds

namespace Carries

variable {ws : List String} {cs ds pattern : List Char}

theorem of_pattern (hws : ∀ w ∈ ws, IsUncut pattern w) (hcs : cs <:+ pattern)
    (h : Carries ws (cs ++ ds)) : Carries ws ds := by
  induction cs with
  | nil => exact h
  | cons c cs ih =>
    cases h with
    | nil => exact .nil _
    | skip _ h => exact ih ((List.suffix_cons c cs).trans hcs) h
    | word hw _ =>
      exact absurd hw ((hws _ List.mem_cons_self).within (c :: cs) ds (List.cons_ne_nil c cs) hcs)

/-- A cut takes the words apart with the text. -/
theorem split (hws : ∀ w ∈ ws, IsUncut pattern w) (h : Carries ws (cs ++ (pattern ++ ds))) :
    ∃ vs us, ws = vs ++ us ∧ Carries vs cs ∧ Carries us ds := by
  induction cs generalizing ws with
  | nil => exact ⟨[], ws, rfl, .nil _, h.of_pattern hws List.suffix_rfl⟩
  | cons c cs ih =>
    cases h with
    | nil => exact ⟨[], [], rfl, .nil _, .nil _⟩
    | skip _ h =>
      obtain ⟨vs, us, rfl, hvs, hus⟩ := ih hws h
      exact ⟨vs, us, rfl, .skip c hvs, hus⟩
    | word hw h =>
      obtain ⟨vs, us, rfl, hvs, hus⟩ := ih (fun w hw ↦ hws w (.tail _ hw)) h
      exact ⟨_ :: vs, us, rfl, .word ((hws _ List.mem_cons_self).before _ _ hw) hvs, hus⟩

/-- Of some words in a row, the number of those that stand before a cut. -/
def countIn (cs : List Char) (ws : List String) : Nat :=
  Nat.findGreatest (fun k ↦ Carries (ws.take k) cs) ws.length

theorem take_countIn (cs : List Char) (ws : List String) :
    Carries (ws.take (countIn cs ws)) cs :=
  Nat.findGreatest_spec (P := fun k ↦ Carries (ws.take k) cs) (Nat.zero_le _) (.nil cs)

theorem drop_countIn (hws : ∀ w ∈ ws, IsUncut pattern w) (h : Carries ws (cs ++ (pattern ++ ds))) :
    Carries (ws.drop (countIn cs ws)) ds := by
  obtain ⟨vs, us, rfl, hvs, hus⟩ := h.split hws
  have hle : vs.length ≤ countIn cs (vs ++ us) := by
    refine Nat.le_findGreatest (by simp) ?_
    rwa [List.take_left']
    rfl
  refine hus.of_sublist ?_
  rw [List.drop_append, List.drop_eq_nil_iff.mpr hle, List.nil_append]
  exact List.drop_sublist _ _

end Carries

end Typeset.Text

import Typeset.Latex.Escape

/-!
# Keys made safe

A text made a key has nothing but letters, digits and a few signs, and no hyphens at its ends, and
texts that are like that already stay as they are. What a run of other characters was does not
matter, only where it stood: each counts as one hyphen.
-/

namespace Typeset.Latex

variable {cs ds es run : List Char} {d : Char}

/-! ## What is kept -/

theorem isKeyChar_of_mem_joinUnsafe {inRun : Bool} {cs : List Char} {c : Char}
    (h : c ∈ joinUnsafe inRun cs) : isKeyChar c = true := by
  induction cs generalizing inRun with
  | nil => exact absurd h List.not_mem_nil
  | cons d cs ih =>
    unfold joinUnsafe at h
    split at h
    · next hd =>
      rcases List.mem_cons.mp h with rfl | h
      · exact hd
      · exact ih h
    · split at h
      · exact ih h
      · rcases List.mem_cons.mp h with rfl | h
        · rfl
        · exact ih h

/-- The text can be a key: it has only characters that keys may hold. -/
def IsKey (key : String) : Prop := ∀ c ∈ key.toList, isKeyChar c = true

instance (key : String) : Decidable (IsKey key) := List.decidableBAll ..

theorem isKey_labelKey (t : String) : IsKey (labelKey t) := by
  intro c h
  rw [labelKey, String.toList_ofList, keyChars, Text.trim, Text.dropEndWhile] at h
  refine isKeyChar_of_mem_joinUnsafe ((List.dropWhile_sublist _).mem
    (List.mem_reverse.mp ((List.dropWhile_sublist _).mem (List.mem_reverse.mp h))))

theorem forall_mem_joinUnsafe_iff (inRun : Bool) (cs : List Char) :
    (∀ c ∈ joinUnsafe inRun cs, (c == '-') = true) ↔ ∀ c ∈ cs, isKeyChar c = true → c = '-' := by
  induction cs generalizing inRun with
  | nil => exact ⟨fun _ _ h ↦ absurd h List.not_mem_nil, fun _ _ h ↦ absurd h List.not_mem_nil⟩
  | cons d cs ih =>
    rw [List.forall_mem_cons, joinUnsafe]
    split
    · next hd => rw [List.forall_mem_cons, ih, beq_iff_eq, imp_iff_right hd]
    · next hd =>
      have hvacuous : isKeyChar d = true → d = '-' := fun h ↦ absurd h hd
      split
      · rw [ih]
        exact (and_iff_right hvacuous).symm
      · rw [List.forall_mem_cons, ih]
        exact and_congr (iff_of_true rfl hvacuous) Iff.rfl

/-- Nothing is left of a key that has no characters but hyphens which keys may hold. -/
theorem labelKey_eq_empty_iff (key : String) :
    labelKey key = "" ↔ ∀ c ∈ key.toList, isKeyChar c = true → c = '-' := by
  rw [← forall_mem_joinUnsafe_iff false, ← Text.trim_eq_nil_iff, ← String.toList_inj,
    labelKey, String.toList_ofList, keyChars]
  rfl

theorem joinUnsafe_eq_self {inRun : Bool} {cs : List Char} (h : ∀ c ∈ cs, isKeyChar c = true) :
    joinUnsafe inRun cs = cs := by
  induction cs generalizing inRun with
  | nil => rfl
  | cons c cs ih =>
    rw [joinUnsafe, if_pos (h c List.mem_cons_self), ih fun d hd ↦ h d (.tail _ hd)]

/-- A key without hyphens at its ends stays as it is. -/
theorem labelKey_eq_self {key : String} (h : IsKey key)
    (hhead : key.toList.head?.any (· == '-') = false)
    (hlast : key.toList.getLast?.any (· == '-') = false) : labelKey key = key := by
  rw [labelKey, keyChars, joinUnsafe_eq_self h, Text.trim_eq_self hhead hlast, String.ofList_toList]

/-! ## Runs of other characters -/

/-- Texts of which the same is left, wherever they stand, can be replaced within a text. -/
theorem joinUnsafe_append_congr (h : ∀ inRun, joinUnsafe inRun ds = joinUnsafe inRun es)
    (inRun : Bool) (cs : List Char) :
    joinUnsafe inRun (cs ++ ds) = joinUnsafe inRun (cs ++ es) := by
  induction cs generalizing inRun with
  | nil => exact h inRun
  | cons c cs ih => simp only [List.cons_append, joinUnsafe, ih]

/-- No run goes on behind a character that is kept. -/
theorem joinUnsafe_append_cons (hd : isKeyChar d = true) (inRun : Bool) (cs ds : List Char) :
    joinUnsafe inRun (cs ++ d :: ds) = joinUnsafe inRun cs ++ d :: joinUnsafe false ds := by
  induction cs generalizing inRun with
  | nil =>
    rw [List.nil_append, joinUnsafe.eq_def, joinUnsafe, List.nil_append]
    exact if_pos hd
  | cons c cs ih =>
    simp only [List.cons_append, joinUnsafe, ih]
    split
    · rfl
    · split <;> rfl

/-- No run goes on before a character that is kept. -/
theorem joinUnsafe_true_eq (h : ∀ c ∈ cs.head?, isKeyChar c = true) :
    joinUnsafe true cs = joinUnsafe false cs := by
  cases cs with
  | nil => rfl
  | cons c cs => rw [joinUnsafe, joinUnsafe, if_pos (h c rfl), if_pos (h c rfl)]

theorem joinUnsafe_true_append (h : ∀ c ∈ run, isKeyChar c = false) (cs : List Char) :
    joinUnsafe true (run ++ cs) = joinUnsafe true cs := by
  induction run with
  | nil => rfl
  | cons c run ih =>
    have hc := h c List.mem_cons_self
    rw [List.cons_append, joinUnsafe, if_neg (by simp [hc]), if_pos rfl,
      ih fun d hd ↦ h d (.tail _ hd)]

/-- A run leaves one hyphen, whatever it is made of, and none if it only goes on. -/
theorem joinUnsafe_run_append (hne : run ≠ []) (h : ∀ c ∈ run, isKeyChar c = false)
    (inRun : Bool) (cs : List Char) :
    joinUnsafe inRun (run ++ cs) = (if inRun then [] else ['-']) ++ joinUnsafe true cs := by
  obtain ⟨c, run, rfl⟩ := List.exists_cons_of_ne_nil hne
  have hc := h c List.mem_cons_self
  have hrest := joinUnsafe_true_append (fun d hd ↦ h d (.tail _ hd)) cs
  rw [List.cons_append, joinUnsafe, if_neg (by simp [hc]), hrest]
  cases inRun <;> rfl

/-- A run that is as long as it can be counts as a hyphen. -/
theorem joinUnsafe_maximal_run (hne : run ≠ []) (h : ∀ c ∈ run, isKeyChar c = false)
    (hbefore : ∀ c ∈ cs.getLast?, isKeyChar c = true)
    (hbehind : ∀ c ∈ ds.head?, isKeyChar c = true) :
    joinUnsafe false (cs ++ (run ++ ds)) = joinUnsafe false (cs ++ '-' :: ds) := by
  have hself : joinUnsafe false (run ++ ds) = '-' :: joinUnsafe false ds := by
    rw [joinUnsafe_run_append hne h, joinUnsafe_true_eq hbehind]
    rfl
  have hhyphen : isKeyChar '-' = true := rfl
  rw [joinUnsafe_append_cons hhyphen]
  -- The run begins where none is open: at the front, or behind a character that is kept.
  rcases List.eq_nil_or_concat cs with rfl | ⟨cs, c, rfl⟩
  · rw [List.nil_append, hself, joinUnsafe, List.nil_append]
  · have hc : isKeyChar c = true := hbefore c (by simp)
    rw [List.concat_eq_append, List.append_assoc, List.singleton_append,
      joinUnsafe_append_cons hc, hself, joinUnsafe_append_cons hc, List.append_assoc]
    rfl

theorem labelKey_congr {key key' : String}
    (h : joinUnsafe false key.toList = joinUnsafe false key'.toList) :
    labelKey key = labelKey key' := by
  rw [labelKey, labelKey, keyChars, keyChars, h]

/-! ## Hyphens at the ends -/

theorem labelKey_hyphen_append (key : String) : labelKey ("-" ++ key) = labelKey key := by
  have hfront : joinUnsafe false ("-" ++ key).toList = '-' :: joinUnsafe false key.toList := by
    rw [String.toList_append]
    rfl
  rw [labelKey, labelKey, keyChars, keyChars, hfront, Text.trim_cons rfl]

theorem labelKey_append_hyphen (key : String) : labelKey (key ++ "-") = labelKey key := by
  have hback : joinUnsafe false (key ++ "-").toList = joinUnsafe false key.toList ++ ['-'] := by
    rw [String.toList_append]
    exact joinUnsafe_append_cons rfl false key.toList []
  rw [labelKey, labelKey, keyChars, keyChars, hback, Text.trim_concat rfl]

end Typeset.Latex

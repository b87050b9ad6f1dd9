import Mathlib.Data.List.Induction
import Mathlib.Data.List.Nodup
import Typeset.Assoc

/-!
# Association lists of distinct keys

Where no key has two entries, a list is as good as a map: what is looked up decides the entries up
to their order, and no entry gives way to a later one.
-/

namespace Typeset.Assoc

variable {α : Type} {β : Type} [BEq α] [LawfulBEq α]

theorem put_of_notMem {key : α} {entries : List (α × β)} (h : key ∉ entries.map (·.1)) (value : β) :
    put key value entries = entries ++ [(key, value)] := by
  induction entries with
  | nil => rfl
  | cons e rest ih =>
    obtain ⟨k, v⟩ := e
    simp only [List.map_cons, List.mem_cons, not_or] at h
    have hk : (k == key) = false := by simpa using Ne.symm h.1
    rw [put, hk, ih h.2]
    rfl

theorem map_fst_put (key : α) (value : β) (entries : List (α × β)) :
    (put key value entries).map (·.1) =
      if key ∈ entries.map (·.1) then entries.map (·.1) else entries.map (·.1) ++ [key] := by
  induction entries with
  | nil => rfl
  | cons e rest ih =>
    obtain ⟨k, v⟩ := e
    rw [put]
    split
    · next hk => simp [eq_of_beq hk]
    · next hk =>
      have hne : key ≠ k := fun h ↦ hk (by simp [h])
      rw [List.map_cons, ih]
      by_cases hmem : key ∈ rest.map (·.1) <;> simp [hmem, hne]

theorem nodup_put {key : α} {entries : List (α × β)} (h : (entries.map (·.1)).Nodup) (value : β) :
    ((put key value entries).map (·.1)).Nodup := by
  rw [map_fst_put]
  split
  · exact h
  · next hmem =>
    refine List.nodup_append.mpr ⟨h, List.nodup_singleton key, fun a ha b hb heq ↦ hmem ?_⟩
    rwa [← List.mem_singleton.mp hb, ← heq]

theorem mem_put {key : α} {value : β} {entries : List (α × β)} {e : α × β}
    (h : (entries.map (·.1)).Nodup) (he : e ∈ put key value entries) :
    e = (key, value) ∨ e ∈ entries ∧ e.1 ≠ key := by
  induction entries with
  | nil => exact .inl (List.mem_singleton.mp he)
  | cons e' rest ih =>
    obtain ⟨k, v⟩ := e'
    rw [List.map_cons, List.nodup_cons] at h
    rw [put] at he
    split at he
    · next hk =>
      obtain rfl := eq_of_beq hk
      refine (List.mem_cons.mp he).imp_right fun hmem ↦ ⟨.tail _ hmem, ?_⟩
      rintro rfl
      exact h.1 (List.mem_map.mpr ⟨e, hmem, rfl⟩)
    · next hk =>
      rcases List.mem_cons.mp he with rfl | he
      · exact .inr ⟨List.mem_cons_self, fun hkey ↦ hk (beq_iff_eq.mpr hkey)⟩
      · exact (ih h.2 he).imp_right (And.imp_left (.tail _))

theorem lookup_put_of_ne {key key' : α} (h : key' ≠ key) (value : β) (entries : List (α × β)) :
    (put key value entries).lookup key' = entries.lookup key' := by
  induction entries with
  | nil => simp [put, List.lookup_cons, beq_eq_false_iff_ne.mpr h]
  | cons e rest ih =>
    obtain ⟨k, v⟩ := e
    rw [put]
    split
    · next hk =>
      have hne : (key' == k) = false := by simpa [eq_of_beq hk] using h
      simp [List.lookup_cons, hne]
    · simp [List.lookup_cons, ih]

omit [LawfulBEq α] in
theorem remove_sublist (key : α) (entries : List (α × β)) :
    (remove key entries).Sublist entries := List.eraseP_sublist

/-- A removed key is gone if it had one entry only. -/
theorem ne_of_mem_remove {key : α} {entries : List (α × β)} {e : α × β}
    (h : (entries.map (·.1)).Nodup) (he : e ∈ remove key entries) : e.1 ≠ key := by
  induction entries with
  | nil => exact absurd he List.not_mem_nil
  | cons e' rest ih =>
    rw [List.map_cons, List.nodup_cons] at h
    rw [remove, List.eraseP_cons] at he
    cases hk : e'.1 == key with
    | true =>
      rw [hk] at he
      rintro rfl
      exact h.1 (eq_of_beq hk ▸ List.mem_map_of_mem he)
    | false =>
      rw [hk] at he
      rcases List.mem_cons.mp he with rfl | he
      · exact beq_eq_false_iff_ne.mp hk
      · exact ih h.2 he

theorem lookup_remove_of_ne {key key' : α} (h : key' ≠ key) (entries : List (α × β)) :
    (remove key entries).lookup key' = entries.lookup key' := by
  induction entries with
  | nil => rfl
  | cons e rest ih =>
    obtain ⟨k, v⟩ := e
    rw [remove, List.eraseP_cons]
    cases hk : k == key with
    | true =>
      have hne : (key' == k) = false := by simpa [eq_of_beq hk] using h
      simp [List.lookup_cons, hne]
    | false =>
      rw [cond_false, List.lookup_cons, List.lookup_cons, ← ih]
      rfl

theorem remove_append_of_notMem {key : α} {entries : List (α × β)}
    (h : key ∉ entries.map (·.1)) (value : β) (more : List (α × β)) :
    remove key (entries ++ (key, value) :: more) = entries ++ more := by
  induction entries with
  | nil => simp [remove]
  | cons e rest ih =>
    simp only [List.map_cons, List.mem_cons, not_or] at h
    have hk : (e.1 == key) = false := by simpa using Ne.symm h.1
    have ih := ih h.2
    rw [remove] at ih
    simp [remove, hk, ih]

omit [LawfulBEq α] in
theorem mem_register {key : α} {value : β} {entries : List (α × β)}
    {e : α × β} (h : e ∈ register key value entries) : e ∈ entries ∨ e = (key, value) := by
  unfold register at h
  split at h
  · exact .inl h
  · exact (List.mem_append.mp h).imp_right List.mem_singleton.mp

/-- Entries of distinct keys all stay, in their order. -/
theorem lastWins_of_nodup {entries : List (α × β)} (h : (entries.map (·.1)).Nodup) :
    lastWins entries = entries := by
  have hfold : ∀ (more acc : List (α × β)), ((acc ++ more).map (·.1)).Nodup →
      more.foldl (fun acc e ↦ put e.1 e.2 acc) acc = acc ++ more := by
    intro more
    induction more with
    | nil => simp
    | cons e more ih =>
      intro acc hacc
      have hput : put e.1 e.2 acc = acc ++ [e] := by
        apply put_of_notMem
        intro hmem
        rw [List.map_append, List.nodup_append] at hacc
        exact hacc.2.2 e.1 hmem e.1 (by simp) rfl
      rw [List.foldl_cons, hput, ih (acc ++ [e]) (by simpa using hacc), List.append_assoc]
      rfl
  exact hfold entries [] h

theorem mem_of_lookup {key : α} {value : β} {entries : List (α × β)}
    (h : entries.lookup key = some value) : (key, value) ∈ entries := by
  induction entries with
  | nil => simp at h
  | cons e rest ih =>
    obtain ⟨k, v⟩ := e
    rw [List.lookup_cons] at h
    split at h
    · next hk =>
      rw [eq_of_beq hk, Option.some.inj h]
      exact List.mem_cons_self
    · exact .tail _ (ih h)

/-- Under distinct keys every entry is found. -/
theorem lookup_of_mem {key : α} {value : β} {entries : List (α × β)}
    (hkeys : (entries.map (·.1)).Nodup) (h : (key, value) ∈ entries) :
    entries.lookup key = some value := by
  induction entries with
  | nil => exact absurd h List.not_mem_nil
  | cons e rest ih =>
    obtain ⟨k, v⟩ := e
    simp only [List.map_cons, List.nodup_cons] at hkeys
    rcases List.mem_cons.mp h with heq | hrest
    · obtain ⟨rfl, rfl⟩ := Prod.mk.inj heq
      simp
    · have hk : (key == k) = false := by
        refine beq_eq_false_iff_ne.mpr ?_
        rintro rfl
        exact hkeys.1 (List.mem_map.mpr ⟨(key, value), hrest, rfl⟩)
      simp [List.lookup_cons, hk, ih hkeys.2 hrest]

/-- Under distinct keys the values that are found decide the entries up to their order. -/
theorem perm_of_lookup {entries others : List (α × β)} (h : (entries.map (·.1)).Nodup)
    (h' : (others.map (·.1)).Nodup) (hlookup : ∀ key, entries.lookup key = others.lookup key) :
    entries.Perm others := by
  refine (List.perm_ext_iff_of_nodup (.of_map _ h) (.of_map _ h')).mpr fun e ↦ ?_
  obtain ⟨k, v⟩ := e
  constructor
  · intro he
    exact mem_of_lookup (hlookup k ▸ lookup_of_mem h he)
  · intro he
    exact mem_of_lookup (hlookup k ▸ lookup_of_mem h' he)

/-- Under distinct keys the order of the entries does not matter. -/
theorem lookup_of_perm {entries others : List (α × β)} (h : entries.Perm others)
    (hkeys : (others.map (·.1)).Nodup) (key : α) : entries.lookup key = others.lookup key := by
  have hkeys' : (entries.map (·.1)).Nodup := ((h.map _).nodup_iff).mpr hkeys
  apply Option.ext
  intro value
  constructor
  · intro hv
    exact lookup_of_mem hkeys (h.mem_iff.mp (mem_of_lookup hv))
  · intro hv
    exact lookup_of_mem hkeys' (h.mem_iff.mpr (mem_of_lookup hv))

/-- What stands under a key stands under its image too, if no other key has this image. -/
theorem lookup_map {f : α → α} {key : α} {entries : List (α × β)}
    (h : ∀ e ∈ entries, f e.1 = f key → e.1 = key) :
    (entries.map fun e ↦ (f e.1, e.2)).lookup (f key) = entries.lookup key := by
  induction entries with
  | nil => rfl
  | cons e entries ih =>
    rw [List.map_cons, List.lookup_cons, List.lookup_cons, ih fun e he ↦ h e (.tail _ he)]
    rcases eq_or_ne key e.1 with hk | hk
    · simp [hk]
    · have hne : f key ≠ f e.1 := fun heq ↦ hk (h e List.mem_cons_self heq.symm).symm
      simp [beq_eq_false_iff_ne.mpr hk, beq_eq_false_iff_ne.mpr hne]

/-! ## Other values -/

variable {γ : Type}

omit [LawfulBEq α] in
theorem lookup_map_snd (f : β → γ) (entries : List (α × β)) (key : α) :
    (entries.map fun e ↦ (e.1, f e.2)).lookup key = (entries.lookup key).map f := by
  induction entries with
  | nil => rfl
  | cons e entries ih =>
    rw [List.map_cons, List.lookup_cons, List.lookup_cons, ih]
    cases key == e.1 <;> rfl

omit [LawfulBEq α] in
theorem register_map_snd (f : β → γ) (key : α) (value : β) (entries : List (α × β)) :
    register key (f value) (entries.map fun e ↦ (e.1, f e.2)) =
      (register key value entries).map fun e ↦ (e.1, f e.2) := by
  rw [register, register, lookup_map_snd, Option.isSome_map]
  split
  · rfl
  · rw [List.map_append, List.map_singleton]

/-! ## Many entries -/

theorem put_put_self (key : α) (value other : β) (entries : List (α × β)) :
    put key value (put key other entries) = put key value entries := by
  induction entries with
  | nil => simp [put]
  | cons e rest ih =>
    obtain ⟨k, v⟩ := e
    cases hk : k == key with
    | true => simp [put, hk]
    | false => simp [put, hk, ih]

/-- Two keys can be entered in either order if this does not decide which of them comes first. -/
theorem put_comm {key key' : α} (hne : key' ≠ key) (value value' : β) {entries : List (α × β)}
    (h : key ∈ entries.map (·.1)) :
    put key value (put key' value' entries) = put key' value' (put key value entries) := by
  induction entries with
  | nil => exact absurd h List.not_mem_nil
  | cons e rest ih =>
    obtain ⟨k, v⟩ := e
    rcases eq_or_ne k key with rfl | hk
    · have hk' : (k == key') = false := beq_eq_false_iff_ne.mpr hne.symm
      simp [put, hk']
    · have hrest : key ∈ rest.map (·.1) := (List.mem_cons.mp h).resolve_left hk.symm
      have hkey : (k == key) = false := beq_eq_false_iff_ne.mpr hk
      cases hk' : k == key' with
      | true => simp [put, hk', hkey]
      | false => simp [put, hk', hkey, ih hrest]

theorem mem_map_fst_put {key key' : α} (value : β) {entries : List (α × β)}
    (h : key' ∈ entries.map (·.1)) : key' ∈ (put key value entries).map (·.1) := by
  rw [map_fst_put]
  split
  · exact h
  · exact List.mem_append_left _ h

theorem mem_map_fst_put_self (key : α) (value : β) (entries : List (α × β)) :
    key ∈ (put key value entries).map (·.1) := by
  rw [map_fst_put]
  split
  · next h => exact h
  · exact List.mem_append_right _ (List.mem_singleton.mpr rfl)

omit [LawfulBEq α] in
theorem lastWins_concat (entries : List (α × β)) (e : α × β) :
    lastWins (entries ++ [e]) = put e.1 e.2 (lastWins entries) :=
  List.foldl_concat ..

theorem nodup_lastWins (entries : List (α × β)) : ((lastWins entries).map (·.1)).Nodup := by
  induction entries using List.reverseRecOn with
  | nil => exact List.nodup_nil
  | append_singleton entries e ih =>
    rw [lastWins_concat]
    exact nodup_put ih e.2

section Fold

variable (f : γ → β)

/-- The list with values entered one after the other, each changed by the function. -/
def putAll (entries : List (α × γ)) (into : List (α × β)) : List (α × β) :=
  entries.foldl (fun acc e ↦ put e.1 (f e.2) acc) into

omit [LawfulBEq α] in
theorem putAll_append (entries more : List (α × γ)) (into : List (α × β)) :
    putAll f (entries ++ more) into = putAll f more (putAll f entries into) :=
  List.foldl_append

/-- A value that is entered first is as one that is entered last if its key has a place already and
nothing else is entered under it. -/
theorem putAll_put {key : α} {entries : List (α × γ)} {into : List (α × β)}
    (h : key ∉ entries.map (·.1)) (hinto : key ∈ into.map (·.1)) (value : β) :
    putAll f entries (put key value into) = put key value (putAll f entries into) := by
  induction entries generalizing into with
  | nil => rfl
  | cons e rest ih =>
    rw [List.map_cons, List.mem_cons, not_or] at h
    have hcomm := put_comm (Ne.symm h.1) value (f e.2) hinto
    calc putAll f (e :: rest) (put key value into)
        = putAll f rest (put key value (put e.1 (f e.2) into)) := by rw [hcomm]; rfl
      _ = put key value (putAll f (e :: rest) into) := ih h.2 (mem_map_fst_put _ hinto)

/-- Of distinct keys, the one whose value is replaced is as one whose value is entered again. -/
theorem putAll_of_put {key : α} {entries : List (α × γ)} (h : (entries.map (·.1)).Nodup)
    (value : γ) (into : List (α × β)) :
    putAll f (put key value entries) into = put key (f value) (putAll f entries into) := by
  induction entries generalizing into with
  | nil => rfl
  | cons e rest ih =>
    obtain ⟨k, v⟩ := e
    rw [List.map_cons, List.nodup_cons] at h
    rw [put]
    split
    · next hk =>
      obtain rfl := eq_of_beq hk
      have hagain := putAll_put f h.1 (mem_map_fst_put_self k (f v) into) (f value)
      rw [put_put_self] at hagain
      exact hagain
    · exact ih h.2 _

/-- Only the last value of each key counts. -/
theorem putAll_lastWins (entries : List (α × γ)) (into : List (α × β)) :
    putAll f (lastWins entries) into = putAll f entries into := by
  induction entries using List.reverseRecOn with
  | nil => rfl
  | append_singleton entries e ih =>
    rw [lastWins_concat, putAll_of_put f (nodup_lastWins entries), ih, putAll_append]
    rfl

theorem lookup_putAll (entries : List (α × γ)) (into : List (α × β)) (key : α) :
    (putAll f entries into).lookup key =
      ((entries.reverse.lookup key).map f).or (into.lookup key) := by
  induction entries using List.reverseRecOn with
  | nil => rfl
  | append_singleton entries e ih =>
    rw [putAll_append, List.reverse_concat, List.lookup_cons]
    change (put e.1 (f e.2) (putAll f entries into)).lookup key = _
    rcases eq_or_ne key e.1 with rfl | hne
    · rw [lookup_put_self, BEq.rfl]
      rfl
    · rw [lookup_put_of_ne hne, ih, beq_eq_false_iff_ne.mpr hne]

theorem map_fst_putAll {entries : List (α × γ)} {into : List (α × β)}
    (h : ∀ e ∈ entries, e.1 ∈ into.map (·.1)) :
    (putAll f entries into).map (·.1) = into.map (·.1) := by
  induction entries generalizing into with
  | nil => rfl
  | cons e rest ih =>
    have hput : (put e.1 (f e.2) into).map (·.1) = into.map (·.1) := by
      rw [map_fst_put, if_pos (h e List.mem_cons_self)]
    rw [← hput]
    exact ih fun e' he' ↦ hput ▸ h e' (List.mem_cons_of_mem _ he')

end Fold

theorem filter_put (p : α → Bool) (key : α) (value : β) (entries : List (α × β)) :
    (put key value entries).filter (fun e ↦ p e.1) =
      if p key then put key value (entries.filter fun e ↦ p e.1)
      else entries.filter fun e ↦ p e.1 := by
  induction entries with
  | nil => cases hp : p key <;> simp [put, hp]
  | cons e rest ih =>
    obtain ⟨k, v⟩ := e
    rw [put]
    split
    · next hk =>
      obtain rfl := eq_of_beq hk
      cases hp : p k <;> simp [put, hp]
    · next hk =>
      rw [List.filter_cons, ih]
      cases hp : p k <;> cases hkey : p key <;> simp [put, hp, hk]

/-- Whether the repeated keys go first or the keys of no use does not matter. -/
theorem filter_lastWins (p : α → Bool) (entries : List (α × β)) :
    (lastWins entries).filter (fun e ↦ p e.1) = lastWins (entries.filter fun e ↦ p e.1) := by
  induction entries using List.reverseRecOn with
  | nil => rfl
  | append_singleton entries e ih =>
    rw [lastWins_concat, filter_put, List.filter_append, ih]
    cases hp : p e.1 with
    | true => simp [hp, lastWins_concat]
    | false => simp [hp]

omit [LawfulBEq α] in
theorem map_fst_head?_put (key : α) (value : β) (entries : List (α × β)) :
    (put key value entries).head?.map (·.1) = (entries.head?.map (·.1)).or (some key) := by
  cases entries with
  | nil => rfl
  | cons e rest =>
    rw [put]
    split
    · rfl
    · rfl

omit [LawfulBEq α] in
/-- The key that arrived first is the first. -/
theorem map_fst_head?_lastWins (entries : List (α × β)) :
    (lastWins entries).head?.map (·.1) = entries.head?.map (·.1) := by
  induction entries using List.reverseRecOn with
  | nil => rfl
  | append_singleton entries e ih =>
    rw [lastWins_concat, map_fst_head?_put, ih, List.head?_append]
    cases entries.head? <;> rfl

/-- The first key that fulfills a condition is the same without repeated keys. -/
theorem map_fst_find?_lastWins (p : α → Bool) (entries : List (α × β)) :
    ((lastWins entries).find? fun e ↦ p e.1).map (·.1) =
      (entries.find? fun e ↦ p e.1).map (·.1) := by
  rw [← List.head?_filter, ← List.head?_filter, filter_lastWins, map_fst_head?_lastWins]

end Typeset.Assoc

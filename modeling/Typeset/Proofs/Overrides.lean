import Mathlib.Data.List.Forall2
import Typeset.Config.Settings
import Typeset.Proofs.Assoc

/-!
# Overriding options

Options come from a mapping that is read or from overrides, and it does not matter from which: what
counts is the last value of each name. Lists are sequences in either case.
-/

namespace Typeset

namespace Datum

/-- The value is a JSON value with sequences for its lists and for all lists in them. -/
inductive IsFrozen : Json → Datum → Prop
  | null : IsFrozen .null .null
  | bool (b : Bool) : IsFrozen (.bool b) (.bool b)
  | int (n : Int) : IsFrozen (.int n) (.int n)
  | str (s : String) : IsFrozen (.str s) (.str s)
  | arr {items : List Json} {values : List Datum} (h : List.Forall₂ IsFrozen items values) :
      IsFrozen (.arr items) (.seq values)
  | obj (members : List (String × Json)) : IsFrozen (.obj members) (.mapping members)

mutual

theorem isFrozen_freeze : ∀ j : Json, IsFrozen j (freeze j)
  | .null => .null
  | .bool b => .bool b
  | .int n => .int n
  | .str s => .str s
  | .arr items => .arr (forall₂_isFrozen_freezeItems items)
  | .obj members => .obj members

theorem forall₂_isFrozen_freezeItems :
    ∀ items : List Json, List.Forall₂ IsFrozen items (freezeItems items)
  | [] => .nil
  | item :: items => .cons (isFrozen_freeze item) (forall₂_isFrozen_freezeItems items)

end

end Datum

namespace Settings

open Assoc

variable {s : Settings} {c o : Entries} {name : String}

/-- Mappings as one: a name keeps its first place and its last value. -/
def merged (mappings : List Entries) : Entries := lastWins mappings.flatten

/-- The settings have every option: frozen, the last value that the entries give to it, or what it
was before if they do not name it. -/
structure IsUpdate (s : Settings) (o : Entries) (t : Settings) : Prop where
  names : t.map (·.1) = optionNames
  named : ∀ name ∈ optionNames, ∀ v, o.reverse.lookup name = some v →
    ∃ d, t.lookup name = some d ∧ Datum.IsFrozen v d
  unnamed : ∀ name ∈ optionNames, name ∉ o.map (·.1) → t.lookup name = s.lookup name

/-! ## Setting many options -/

theorem update_eq_putAll (s : Settings) (c : Entries) : s.update c = putAll Datum.freeze c s := rfl

theorem update_append (s : Settings) (c o : Entries) :
    s.update (c ++ o) = (s.update c).update o :=
  putAll_append ..

/-- Only the last value of each name counts. -/
theorem update_lastWins (s : Settings) (c : Entries) : s.update (lastWins c) = s.update c :=
  putAll_lastWins ..

/-- The options among entries. -/
def options (c : Entries) : Entries := c.filter fun e ↦ optionNames.contains e.1

theorem ofEntries_eq (c : Entries) : ofEntries c = default.update (options c) := rfl

theorem options_eq_self (h : ∀ e ∈ o, e.1 ∈ optionNames) : options o = o :=
  List.filter_eq_self.mpr fun e he ↦ List.contains_iff_mem.mpr (h e he)

theorem mem_optionNames_of_mem_options {e : String × Json} (he : e ∈ options c) :
    e.1 ∈ optionNames :=
  List.contains_iff_mem.mp (List.mem_filter.mp he).2

/-- Names without an entry have none in any order. -/
theorem lookup_reverse_eq_none (h : name ∉ o.map (·.1)) : o.reverse.lookup name = none := by
  refine Option.eq_none_iff_forall_ne_some.mpr fun v hv ↦ h ?_
  exact List.mem_map.mpr ⟨(name, v), List.mem_reverse.mp (mem_of_lookup hv), rfl⟩

/-- What is set is what was named, and every option stays. -/
theorem isUpdate_update (hs : s.map (·.1) = optionNames) (ho : ∀ e ∈ o, e.1 ∈ optionNames) :
    IsUpdate s o (s.update o) where
  names := by
    rw [update_eq_putAll, map_fst_putAll, hs]
    rwa [hs]
  named name _ v hv := by
    refine ⟨Datum.freeze v, ?_, Datum.isFrozen_freeze v⟩
    rw [update_eq_putAll, lookup_putAll, hv]
    rfl
  unnamed name _ hname := by
    rw [update_eq_putAll, lookup_putAll, lookup_reverse_eq_none hname]
    rfl

/-- An option has the same last value among the options as among all entries. -/
theorem lookup_reverse_options (hname : name ∈ optionNames) :
    (options c).reverse.lookup name = c.reverse.lookup name := by
  rw [options, ← List.filter_reverse]
  induction c.reverse with
  | nil => rfl
  | cons e es ih =>
    rw [List.filter_cons, List.lookup_cons]
    split
    · rw [List.lookup_cons, ih]
    · next he =>
      have hne : name ≠ e.1 := by
        rintro rfl
        exact he (List.contains_iff_mem.mpr hname)
      rw [ih, beq_eq_false_iff_ne.mpr hne]

theorem isUpdate_ofEntries (c : Entries) : IsUpdate default c (ofEntries c) := by
  have hupdate : IsUpdate default (options c) (ofEntries c) :=
    isUpdate_update rfl fun e he ↦ mem_optionNames_of_mem_options he
  refine ⟨hupdate.names, fun name hname v hv ↦ ?_, fun name hname hnone ↦ ?_⟩
  · exact hupdate.named name hname v ((lookup_reverse_options hname).trans hv)
  · refine hupdate.unnamed name hname fun hmem ↦ hnone ?_
    exact (List.filter_sublist.map _).mem hmem

/-! ## Overriding -/

theorem withOverrides_eq (s : Settings) (o : Entries) : s.withOverrides o =
    match (o.find? fun e ↦ !optionNames.contains e.1).map (·.1) with
    | some name => .error (.unknownOption name)
    | none => .ok (s.update o) := by
  rw [withOverrides]
  cases o.find? fun e ↦ !optionNames.contains e.1 with
  | none => rfl
  | some e => rfl

theorem withOverrides_of_forall (ho : ∀ e ∈ o, e.1 ∈ optionNames) :
    s.withOverrides o = .ok (s.update o) := by
  have hfind : (o.find? fun e ↦ !optionNames.contains e.1) = none :=
    List.find?_eq_none.mpr fun e he ↦ by simp [ho e he]
  rw [withOverrides_eq, hfind]
  rfl

/-- A name that is no option is refused, whatever else is named. -/
theorem exists_unknownOption (ho : ∃ e ∈ o, e.1 ∉ optionNames) :
    ∃ name ∈ o.map (·.1), name ∉ optionNames ∧
      s.withOverrides o = .error (.unknownOption name) := by
  cases hfind : o.find? fun e ↦ !optionNames.contains e.1 with
  | none =>
    obtain ⟨e, he, hname⟩ := ho
    exact absurd (by simpa using List.find?_eq_none.mp hfind e he) hname
  | some e =>
    refine ⟨e.1, List.mem_map_of_mem (List.mem_of_find?_eq_some hfind), ?_, ?_⟩
    · simpa using List.find?_some hfind
    · rw [withOverrides_eq, hfind]
      rfl

/-- Two steps of overriding are one with both. -/
theorem withOverrides_bind (s : Settings) (c o : Entries) :
    (s.withOverrides c >>= fun t ↦ t.withOverrides o) = s.withOverrides (c ++ o) := by
  rw [withOverrides_eq s c, withOverrides_eq s (c ++ o), List.find?_append]
  cases c.find? fun e ↦ !optionNames.contains e.1 with
  | some e => rfl
  | none =>
    show (s.update c).withOverrides o = _
    rw [withOverrides_eq, update_append]
    rfl

theorem withOverrides_lastWins (s : Settings) (o : Entries) :
    s.withOverrides (lastWins o) = s.withOverrides o := by
  rw [withOverrides_eq, withOverrides_eq,
    map_fst_find?_lastWins fun name ↦ !optionNames.contains name, update_lastWins]

theorem foldlM_withOverrides (s : Settings) (os : List Entries) :
    os.foldlM withOverrides s = s.withOverrides os.flatten := by
  induction os generalizing s with
  | nil => rfl
  | cons o os ih =>
    rw [List.foldlM_cons, List.flatten_cons, ← withOverrides_bind]
    exact congrArg (s.withOverrides o >>= ·) (funext ih)

/-- The options of a mapping overridden are those of the mapping with the overrides in it. -/
theorem withOverrides_ofEntries (c : Entries) (ho : ∀ e ∈ o, e.1 ∈ optionNames) :
    (ofEntries c).withOverrides o = .ok (ofEntries (merged [c, o])) := by
  have hoptions : options (merged [c, o]) = lastWins (options c ++ o) := by
    rw [merged, options, filter_lastWins, List.flatten_cons, List.flatten_singleton,
      List.filter_append, ← options, ← options, options_eq_self ho]
  rw [withOverrides_of_forall ho, ofEntries_eq, ofEntries_eq, hoptions, update_lastWins,
    update_append]

/-- Options that are read and options that override act alike: overriding what was read is reading
the mapping with the overrides in it, overriding step by step is overriding once with the later
values, and no override changes nothing. Either way an option that is named has its last value, with
sequences for lists, and any other stays as it was. A name that is no option is passed over when it
is read and refused when it overrides. -/
theorem overriding_is_reading :
    (∀ c o : Entries, (∀ e ∈ o, e.1 ∈ optionNames) →
      (ofEntries c).withOverrides o = .ok (ofEntries (merged [c, o]))) ∧
    (∀ (s : Settings) (os : List Entries),
      os.foldlM withOverrides s = s.withOverrides (merged os)) ∧
    (∀ s : Settings, s.withOverrides [] = .ok s) ∧
    (∀ c : Entries, IsUpdate default c (ofEntries c)) ∧
    (∀ (s : Settings) (o : Entries), s.map (·.1) = optionNames → (∀ e ∈ o, e.1 ∈ optionNames) →
      ∃ t, s.withOverrides o = .ok t ∧ IsUpdate s o t) ∧
    ∀ (s : Settings) (o : Entries), (∃ e ∈ o, e.1 ∉ optionNames) →
      ∃ name ∈ o.map (·.1), name ∉ optionNames ∧
        s.withOverrides o = .error (.unknownOption name) := by
  refine ⟨fun c _ ho ↦ withOverrides_ofEntries c ho, fun s os ↦ ?_, fun _ ↦ rfl,
    isUpdate_ofEntries, fun s o hs ho ↦ ?_, fun _ _ ho ↦ exists_unknownOption ho⟩
  · rw [foldlM_withOverrides, merged, withOverrides_lastWins]
  · exact ⟨_, withOverrides_of_forall ho, isUpdate_update hs ho⟩

/-- A template that was read gives way to another, pairs are set as they are given, and an option
that does not exist is refused. -/
theorem overriding_is_reading_template :
    (ofEntries [("template", .str "book"), ("unknown_key", .null)]).withOverrides
        [("template", .str "article")] =
      .ok (ofEntries [("template", .str "article"), ("unknown_key", .null)]) ∧
    (∃ t, default.withOverrides [("listings_options", .arr [.arr [.str "frame", .str "single"]])] =
        .ok t ∧
      IsUpdate default [("listings_options", .arr [.arr [.str "frame", .str "single"]])] t) ∧
    default.withOverrides [("template", .null), ("no_such_option", .int 1)] =
      .error (.unknownOption "no_such_option") := by
  obtain ⟨hread, _, _, _, hset, hunknown⟩ := overriding_is_reading
  refine ⟨hread _ _ (by decide), hset _ _ rfl (by decide), ?_⟩
  obtain ⟨name, hname, hnone, herror⟩ :=
    hunknown default [("template", .null), ("no_such_option", .int 1)] (by decide)
  rcases List.mem_pair.mp hname with rfl | rfl
  · exact absurd (by decide) hnone
  · exact herror

end Settings

end Typeset

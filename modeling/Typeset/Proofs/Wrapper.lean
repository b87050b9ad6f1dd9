import Mathlib.Data.List.TakeWhile
import Mathlib.Logic.Function.Iterate
import Mathlib.Logic.Relation
import Typeset.Wrapper

/-!
# Taking wrappers off one at a time

Wrappers that hold no brace never overlap, so that two of them can be taken off in either order.
Each time the text gets shorter. So whichever is taken off first, the same text is left in the end,
and this is the text that sweeps over all wrappers at once leave.
-/

namespace Typeset.Wrapper

open Relation (ReflTransGen)

variable {cs ds es before after x : List Char} {name body name' body' after' : List Char}

/-! ## Braces -/

/-- The text holds no brace. -/
def IsBraceFree (cs : List Char) : Prop := ∀ c ∈ cs, isBrace c = false

instance (cs : List Char) : Decidable (IsBraceFree cs) :=
  List.decidableBAll (isBrace · = false) cs

theorem IsBraceFree.of_cons {c : Char} (h : IsBraceFree (c :: cs)) : IsBraceFree cs :=
  fun d hd ↦ h d (.tail _ hd)

theorem IsBraceFree.append (h : IsBraceFree cs) (h' : IsBraceFree ds) : IsBraceFree (cs ++ ds) :=
  fun c hc ↦ (List.mem_append.mp hc).elim (h c) (h' c)

/-- The first brace of a text stands in one place. -/
theorem eq_of_append_brace {c d : Char} (hcs : IsBraceFree cs) (hds : IsBraceFree ds)
    (hc : isBrace c = true) (hd : isBrace d = true) (h : cs ++ c :: after = ds ++ d :: after') :
    cs = ds ∧ c = d ∧ after = after' := by
  induction cs generalizing ds with
  | nil =>
    cases ds with
    | nil => exact ⟨rfl, List.cons.inj h⟩
    | cons e ds =>
      rw [(List.cons.inj h).1, hds e List.mem_cons_self] at hc
      cases hc
  | cons e cs ih =>
    cases ds with
    | nil =>
      rw [← (List.cons.inj h).1, hcs e List.mem_cons_self] at hd
      cases hd
    | cons e' ds =>
      obtain ⟨rfl, htail⟩ := List.cons.inj h
      obtain ⟨rfl, hrest⟩ := ih hcs.of_cons hds.of_cons htail
      exact ⟨rfl, hrest⟩

/-- A text holds no brace or is cut at its first one. -/
theorem isBraceFree_or_exists (cs : List Char) : IsBraceFree cs ∨
    ∃ before c after, cs = before ++ c :: after ∧ IsBraceFree before ∧ isBrace c = true := by
  induction cs with
  | nil => exact .inl fun c hc ↦ absurd hc List.not_mem_nil
  | cons c cs ih =>
    cases hc : isBrace c with
    | true => exact .inr ⟨[], c, cs, rfl, fun d hd ↦ absurd hd List.not_mem_nil, hc⟩
    | false =>
      rcases ih with hfree | ⟨before, d, after, rfl, hbefore, hd⟩
      · exact .inl (List.forall_mem_cons.mpr ⟨hc, hfree⟩)
      · exact .inr ⟨c :: before, d, after, rfl, List.forall_mem_cons.mpr ⟨hc, hbefore⟩, hd⟩

/-! ## Wrappers -/

/-- The names of the commands, letter by letter. -/
abbrev names : List (List Char) := commands.map String.toList

theorem plain_of_mem_names : ∀ name ∈ names, '@' ∉ name ∧ IsBraceFree name := by decide

/-- A text that begins with a wrapper. -/
def wrapped (name body after : List Char) : List Char :=
  '@' :: (name ++ '{' :: (body ++ '}' :: after))

theorem wrapped_append : wrapped name body after ++ ds = wrapped name body (after ++ ds) := by
  simp [wrapped]

theorem length_wrapped :
    (wrapped name body after).length = name.length + 3 + (body ++ after).length := by
  simp [wrapped]
  omega

/-- A wrapper behind the beginning of another one is the same or stands behind it. -/
theorem wrapped_eq_append (hname : name ∈ names) (hbody : IsBraceFree body)
    (hname' : name' ∈ names) (hbody' : IsBraceFree body')
    (h : wrapped name body after = x ++ wrapped name' body' after') :
    (x = [] ∧ name = name' ∧ body = body' ∧ after = after') ∨
      ∃ between, x = wrapped name body between ∧ after = between ++ wrapped name' body' after' := by
  obtain ⟨hat, hfree⟩ := plain_of_mem_names name hname
  have hfree' := (plain_of_mem_names name' hname').2
  have hopening : IsBraceFree ('@' :: name) := List.forall_mem_cons.mpr ⟨rfl, hfree⟩
  have hopening' : IsBraceFree ('@' :: name') := List.forall_mem_cons.mpr ⟨rfl, hfree'⟩
  rcases isBraceFree_or_exists x with hx | ⟨p, c, q, rfl, hp, hc⟩
  · -- the first brace is the one that opens both wrappers
    left
    have hfirst : ('@' :: name) ++ '{' :: (body ++ '}' :: after) =
        (x ++ '@' :: name') ++ '{' :: (body' ++ '}' :: after') := by
      rw [List.append_assoc]
      exact h
    obtain ⟨hstart, -, hrest⟩ :=
      eq_of_append_brace hopening (hx.append hopening') rfl rfl hfirst
    obtain ⟨rfl, -, rfl⟩ := eq_of_append_brace hbody hbody' rfl rfl hrest
    cases x with
    | nil => exact ⟨rfl, (List.cons.inj hstart).2, rfl, rfl⟩
    | cons d x =>
      refine absurd ?_ hat
      rw [(List.cons.inj hstart).2]
      exact List.mem_append_right x List.mem_cons_self
  · right
    have hfirst : ('@' :: name) ++ '{' :: (body ++ '}' :: after) =
        p ++ c :: (q ++ wrapped name' body' after') := by
      rwa [List.append_assoc] at h
    obtain ⟨rfl, rfl, hrest⟩ := eq_of_append_brace hopening hp rfl hc hfirst
    rcases isBraceFree_or_exists q with hq | ⟨p, d, between, rfl, hp, hd⟩
    · -- the second brace closes the first wrapper, and would have to open the other one
      have hsecond : body ++ '}' :: after =
          (q ++ '@' :: name') ++ '{' :: (body' ++ '}' :: after') := by
        rw [List.append_assoc]
        exact hrest
      have hbrace := (eq_of_append_brace hbody (hq.append hopening') rfl rfl hsecond).2.1
      exact absurd hbrace (by decide)
    · have hsecond : body ++ '}' :: after =
          p ++ d :: (between ++ wrapped name' body' after') := by
        rwa [List.append_assoc] at hrest
      obtain ⟨rfl, rfl, rfl⟩ := eq_of_append_brace hbody hp rfl hd hsecond
      exact ⟨between, rfl, rfl⟩

/-! ## Single steps -/

/-- One wrapper that holds no brace is replaced by its body. -/
inductive Step : List Char → List Char → Prop
  | unwrap (before after : List Char) {name body : List Char} : name ∈ names → IsBraceFree body →
      Step (before ++ wrapped name body after) (before ++ (body ++ after))

theorem Step.append_left (h : Step cs ds) (before : List Char) :
    Step (before ++ cs) (before ++ ds) := by
  cases h with
  | unwrap front after hname hbody =>
    rw [← List.append_assoc before, ← List.append_assoc before]
    exact .unwrap (before ++ front) after hname hbody

theorem Step.exists_wrapped (h : Step cs ds) : ∃ before name body after, name ∈ names ∧
    IsBraceFree body ∧ cs = before ++ wrapped name body after ∧ ds = before ++ (body ++ after) := by
  cases h with
  | unwrap before after hname hbody => exact ⟨before, _, _, after, hname, hbody, rfl, rfl⟩

theorem Step.length_lt (h : Step cs ds) : ds.length < cs.length := by
  obtain ⟨before, name, body, after, -, -, rfl, rfl⟩ := h.exists_wrapped
  simp only [List.length_append, length_wrapped]
  omega

/-- Two wrappers, the second one not before the first, come off in either order. -/
theorem join_of_wrapped_eq (before : List Char) (hname : name ∈ names) (hbody : IsBraceFree body)
    (hname' : name' ∈ names) (hbody' : IsBraceFree body')
    (h : wrapped name body after = x ++ wrapped name' body' after') :
    before ++ (body ++ after) = before ++ x ++ (body' ++ after') ∨
      ∃ es, Step (before ++ (body ++ after)) es ∧ Step (before ++ x ++ (body' ++ after')) es := by
  rcases wrapped_eq_append hname hbody hname' hbody' h with
    ⟨rfl, rfl, rfl, rfl⟩ | ⟨between, rfl, rfl⟩
  · left
    rw [List.append_nil]
  · refine .inr ⟨before ++ (body ++ between) ++ (body' ++ after'), ?_, ?_⟩
    · rw [← List.append_assoc body, ← List.append_assoc before]
      exact .unwrap _ _ hname' hbody'
    · have hjoined := Step.unwrap before (between ++ (body' ++ after')) hname hbody
      rw [← wrapped_append] at hjoined
      simpa only [List.append_assoc] using hjoined

/-- Whichever of two wrappers is taken off first, one step leads to the same text. -/
theorem Step.diamond (h : Step cs ds) (h' : Step cs es) :
    ds = es ∨ ∃ fs, Step ds fs ∧ Step es fs := by
  obtain ⟨before, after, hname, hbody⟩ := h
  generalize hcs : before ++ wrapped _ _ after = cs at h'
  obtain ⟨before', after', hname', hbody'⟩ := h'
  rcases List.append_eq_append_iff.mp hcs with ⟨x, rfl, h⟩ | ⟨x, rfl, h⟩
  · exact join_of_wrapped_eq _ hname hbody hname' hbody' h
  · rcases join_of_wrapped_eq before' hname' hbody' hname hbody h with heq | ⟨fs, h, h'⟩
    · exact .inl heq.symm
    · exact .inr ⟨fs, h', h⟩

/-- Whatever has been taken off a text, the same can be left in the end. -/
theorem join_of_steps (h : ReflTransGen Step cs ds) (h' : ReflTransGen Step cs es) :
    ∃ fs, ReflTransGen Step ds fs ∧ ReflTransGen Step es fs := by
  refine Relation.church_rosser (fun a b c hb hc ↦ ?_) h h'
  rcases hb.diamond hc with rfl | ⟨d, hbd, hcd⟩
  · exact ⟨b, .refl, .refl⟩
  · exact ⟨d, .single hbd, .single hcd⟩

/-! ## Sweeps -/

theorem exists_of_wrapper? (h : wrapper? cs = some (name, body)) :
    name ∈ names ∧ IsBraceFree body ∧ ∃ after, cs = wrapped name body after := by
  unfold wrapper? at h
  split at h
  · next rest =>
    split at h
    · cases h
    · next found hfound =>
      dsimp only at h
      split at h
      · next after hclosed =>
        cases h
        have hname : name ++ ['{'] <+: rest := List.isPrefixOf_iff_prefix.mp
          (List.find?_some (p := fun name ↦ (name ++ ['{']).isPrefixOf rest) hfound)
        have hbody := List.prefix_iff_eq_append.mp
          (List.takeWhile_prefix (!isBrace ·) (l := rest.drop (name.length + 1)))
        rw [hclosed] at hbody
        refine ⟨List.mem_of_find?_eq_some hfound, fun c hc ↦ ?_, after, ?_⟩
        · simpa using List.mem_takeWhile_imp hc
        · have hopened := List.prefix_iff_eq_append.mp hname
          rw [List.append_assoc, List.length_append, List.length_singleton] at hopened
          rw [wrapped, hbody]
          exact congrArg ('@' :: ·) hopened.symm
      · cases h
  · cases h

theorem wrapper?_wrapped (hname : name ∈ names) (hbody : IsBraceFree body) (after : List Char) :
    wrapper? (wrapped name body after) = some (name, body) := by
  let rest := name ++ '{' :: (body ++ '}' :: after)
  have hfound : names.find? (fun name' ↦ (name' ++ ['{']).isPrefixOf rest) = some name := by
    have hprefix : name ++ ['{'] <+: rest := ⟨_, List.append_assoc name ['{'] _⟩
    have hsome : (names.find? fun name' ↦ (name' ++ ['{']).isPrefixOf rest).isSome = true :=
      List.find?_isSome.mpr ⟨name, hname, List.isPrefixOf_iff_prefix.mpr hprefix⟩
    obtain ⟨found, hfound⟩ := Option.isSome_iff_exists.mp hsome
    obtain ⟨inner, hinner⟩ := List.isPrefixOf_iff_prefix.mp
      (List.find?_some (p := fun name' ↦ (name' ++ ['{']).isPrefixOf rest) hfound)
    rw [List.append_assoc] at hinner
    have hmem := List.mem_of_find?_eq_some hfound
    obtain ⟨rfl, -⟩ := eq_of_append_brace (plain_of_mem_names found hmem).2
      (plain_of_mem_names name hname).2 rfl rfl hinner
    exact hfound
  have hinner : rest.drop (name.length + 1) = body ++ '}' :: after := by simp [rest]
  have hbody : (body ++ '}' :: after).takeWhile (!isBrace ·) = body := by
    rw [List.takeWhile_append_of_pos fun c hc ↦ by simp [hbody c hc]]
    simp [isBrace]
  show wrapper? ('@' :: rest) = _
  rw [wrapper?, hfound]
  simp only [hinner, hbody, List.drop_left]

/-- A sweep passes over what is still to be passed over. -/
theorem unwrap_eq_drop (skip : Nat) (cs : List Char) :
    unwrap skip cs = unwrap 0 (cs.drop skip) := by
  induction cs generalizing skip with
  | nil => rw [List.drop_nil, unwrap, unwrap]
  | cons c cs ih =>
    cases skip with
    | zero => rfl
    | succ skip => rw [unwrap, ih, List.drop_succ_cons]

theorem unwrap_wrapped (hname : name ∈ names) (hbody : IsBraceFree body) (after : List Char) :
    unwrap 0 (wrapped name body after) = body ++ unwrap 0 after := by
  have hwrapper := wrapper?_wrapped hname hbody after
  rw [wrapped] at hwrapper ⊢
  rw [unwrap, hwrapper]
  dsimp only
  rw [unwrap_eq_drop]
  have hdrop : (name ++ '{' :: (body ++ '}' :: after)).drop (name.length + body.length + 2) =
      after := by
    rw [show name.length + body.length + 2 = name.length + (1 + (body.length + 1)) by omega]
    rw [← List.drop_drop, List.drop_left, ← List.drop_drop, List.drop_succ_cons, List.drop_zero,
      ← List.drop_drop, List.drop_left, List.drop_succ_cons, List.drop_zero]
  rw [hdrop]

theorem unwrap_cons {c : Char} (h : wrapper? (c :: cs) = none) :
    unwrap 0 (c :: cs) = c :: unwrap 0 cs := by
  rw [unwrap, h]

/-- What holds behind each wrapper, and behind each other character, holds of all texts. -/
theorem sweepInduction {motive : List Char → Prop} (nil : motive [])
    (wrapped : ∀ {name body}, name ∈ names → IsBraceFree body → ∀ after, motive after →
      motive (wrapped name body after))
    (cons : ∀ c cs, wrapper? (c :: cs) = none → motive cs → motive (c :: cs)) (cs : List Char) :
    motive cs := by
  induction hlength : cs.length using Nat.strong_induction_on generalizing cs with
  | _ length ih =>
    subst hlength
    cases cs with
    | nil => exact nil
    | cons c cs =>
      cases hwrapper : wrapper? (c :: cs) with
      | none => exact cons c cs hwrapper (ih cs.length (Nat.lt_succ_self _) cs rfl)
      | some found =>
        obtain ⟨name, body⟩ := found
        obtain ⟨hname, hbody, after, heq⟩ := exists_of_wrapper? hwrapper
        rw [heq]
        refine wrapped hname hbody after (ih after.length ?_ after rfl)
        rw [heq, length_wrapped, List.length_append]
        omega

/-- A sweep takes wrappers off one after the other. -/
theorem steps_unwrap (cs : List Char) : ReflTransGen Step cs (unwrap 0 cs) := by
  induction cs using sweepInduction with
  | nil => rw [unwrap]
  | wrapped hname hbody after ih =>
    rw [unwrap_wrapped hname hbody]
    refine .head (.unwrap [] after hname hbody) ?_
    exact ih.lift _ fun _ _ h ↦ h.append_left _
  | cons c cs hnone ih =>
    rw [unwrap_cons hnone]
    exact ih.lift (c :: ·) fun _ _ h ↦ h.append_left [c]

/-- A sweep makes a text shorter, or leaves it as it is. -/
theorem unwrap_eq_or_length_lt (cs : List Char) :
    unwrap 0 cs = cs ∨ (unwrap 0 cs).length < cs.length := by
  have hshorter : ∀ {ds es}, ReflTransGen Step ds es → es.length ≤ ds.length := by
    intro ds es h
    induction h with
    | refl => exact Nat.le_refl _
    | tail _ hstep ih => exact Nat.le_trans (Nat.le_of_lt hstep.length_lt) ih
  rcases (steps_unwrap cs).cases_head with heq | ⟨ds, hstep, hsteps⟩
  · exact .inl heq.symm
  · exact .inr (Nat.lt_of_le_of_lt (hshorter hsteps) hstep.length_lt)

/-- In what a sweep leaves as it is there is no wrapper to take off. -/
theorem not_step_of_unwrap_eq (h : unwrap 0 cs = cs) : ¬ Step cs ds := by
  induction cs using sweepInduction generalizing ds with
  | nil => exact fun hstep ↦ Nat.not_lt_zero _ hstep.length_lt
  | @wrapped name body hname hbody after ih =>
    rw [unwrap_wrapped hname hbody] at h
    have hlength := congrArg List.length h
    rw [length_wrapped, List.length_append, List.length_append] at hlength
    rcases unwrap_eq_or_length_lt after with heq | hlt
    · rw [heq] at hlength
      omega
    · omega
  | cons c cs hnone ih =>
    rw [unwrap_cons hnone] at h
    intro hstep
    obtain ⟨before, name, body, after, hname, hbody, heq, -⟩ := hstep.exists_wrapped
    cases before with
    | nil =>
      rw [heq, List.nil_append, wrapper?_wrapped hname hbody] at hnone
      cases hnone
    | cons d before =>
      have hrest : Step cs (before ++ (body ++ after)) := by
        rw [(List.cons.inj heq).2]
        exact .unwrap before after hname hbody
      exact ih (List.cons.inj h).2 hrest

/-- Sweeps are made until one of them changes nothing. -/
theorem exists_sweeps (cs : List Char) :
    (∃ n, (unwrap 0)^[n] cs = stripChars cs) ∧ unwrap 0 (stripChars cs) = stripChars cs := by
  induction cs using stripChars.induct with
  | case1 cs hshorter ih =>
    have hstep : stripChars cs = stripChars (unwrap 0 cs) := by rw [stripChars, if_pos hshorter]
    obtain ⟨⟨n, hn⟩, hstill⟩ := ih
    rw [hstep]
    exact ⟨⟨n + 1, hn⟩, hstill⟩
  | case2 cs hshorter =>
    have hstripped : stripChars cs = cs := by rw [stripChars, if_neg hshorter]
    rw [hstripped]
    exact ⟨⟨0, rfl⟩, (unwrap_eq_or_length_lt cs).resolve_right hshorter⟩

theorem steps_stripChars (cs : List Char) : ReflTransGen Step cs (stripChars cs) := by
  induction cs using stripChars.induct with
  | case1 cs hshorter ih =>
    rw [stripChars, if_pos hshorter]
    exact (steps_unwrap cs).trans ih
  | case2 cs hshorter => rw [stripChars, if_neg hshorter]

theorem not_step_stripChars (cs : List Char) : ¬ Step (stripChars cs) ds :=
  not_step_of_unwrap_eq (exists_sweeps cs).2

/-- Whatever has been taken off a text already, the rest can be taken off as well. -/
theorem steps_to_stripChars (h : ReflTransGen Step cs ds) :
    ReflTransGen Step ds (stripChars cs) := by
  obtain ⟨es, hds, hstripped⟩ := join_of_steps h (steps_stripChars cs)
  rcases hstripped.cases_head with rfl | ⟨fs, hstep, -⟩
  · exact hds
  · exact absurd hstep (not_step_stripChars cs)

theorem stripChars_stripChars (cs : List Char) : stripChars (stripChars cs) = stripChars cs := by
  rcases (steps_stripChars (stripChars cs)).cases_head with heq | ⟨ds, hstep, -⟩
  · exact heq.symm
  · exact absurd hstep (not_step_stripChars cs)

/-! ## Texts -/

@[simp] theorem strip_strip (t : String) : strip (strip t) = strip t := by
  simp [strip, stripChars_stripChars]

/-- One wrapper that holds no brace is taken off a text: its body stays. -/
def Unwraps (s t : String) : Prop :=
  ∃ before name body after : String, name ∈ commands ∧ IsBraceFree body.toList ∧
    s = before ++ "@" ++ name ++ "\x7b" ++ body ++ "\x7d" ++ after ∧ t = before ++ body ++ after

theorem unwraps_iff {s t : String} : Unwraps s t ↔ Step s.toList t.toList := by
  constructor
  · rintro ⟨before, name, body, after, hname, hbody, rfl, rfl⟩
    have hstep := Step.unwrap before.toList after.toList (List.mem_map_of_mem hname) hbody
    simpa [wrapped] using hstep
  · intro h
    obtain ⟨before, name, body, after, hname, hbody, hs, ht⟩ := h.exists_wrapped
    obtain ⟨command, hcommand, rfl⟩ := List.mem_map.mp hname
    refine ⟨.ofList before, command, .ofList body, .ofList after, hcommand, by simpa using hbody,
      ?_, ?_⟩
    · rw [← String.toList_inj, hs]
      simp [wrapped]
    · rw [← String.toList_inj, ht]
      simp

theorem steps_iff {s t : String} :
    ReflTransGen Unwraps s t ↔ ReflTransGen Step s.toList t.toList := by
  refine ⟨fun h ↦ h.lift String.toList fun _ _ ↦ unwraps_iff.mp, fun h ↦ ?_⟩
  have hlift : ReflTransGen Unwraps (.ofList s.toList) (.ofList t.toList) :=
    h.lift String.ofList fun cs ds hstep ↦ unwraps_iff.mpr (by simpa using hstep)
  simpa using hlift

/-- No sequence of texts goes on forever by taking a wrapper off each time. -/
theorem exists_not_unwraps (texts : ℕ → String) : ∃ n, ¬ Unwraps (texts n) (texts (n + 1)) := by
  by_contra hforever
  have hstep : ∀ n, Unwraps (texts n) (texts (n + 1)) := by simpa using hforever
  have hbound : ∀ n, (texts n).toList.length + n ≤ (texts 0).toList.length := by
    intro n
    induction n with
    | zero => exact Nat.le_refl _
    | succ n ih =>
      have hshorter := (unwraps_iff.mp (hstep n)).length_lt
      omega
  have hlong := hbound ((texts 0).toList.length + 1)
  omega

/-- All wrappers of a text that hold no brace, replaced by their bodies at once. -/
def sweep (t : String) : String := .ofList (unwrap 0 t.toList)

theorem toList_iterate_sweep (n : ℕ) (t : String) :
    (sweep^[n] t).toList = (unwrap 0)^[n] t.toList := by
  have hsemiconj : Function.Semiconj String.toList sweep (unwrap 0) := fun t ↦ by simp [sweep]
  exact (hsemiconj.iterate_right n).eq t

@[simp] theorem toList_strip (t : String) : (strip t).toList = stripChars t.toList := by
  simp [strip]

/-- Sweeps over a text come to an end, which is reached by taking off one wrapper at a time. There
nothing is left to take off. However the wrappers are chosen that are taken off one at a time, this
comes to an end, and to this one. So to strip a text once more changes nothing. -/
theorem strip_is_normal_form (t : String) :
    ((∃ n, sweep^[n] t = strip t) ∧ sweep (strip t) = strip t) ∧
      ReflTransGen Unwraps t (strip t) ∧ (∀ u, ¬ Unwraps (strip t) u) ∧
      (∀ u, ReflTransGen Unwraps t u → ReflTransGen Unwraps u (strip t)) ∧
      (∀ u, ReflTransGen Unwraps t u → (∀ v, ¬ Unwraps u v) → u = strip t) ∧
      (∀ texts : ℕ → String, ∃ n, ¬ Unwraps (texts n) (texts (n + 1))) ∧
      strip (strip t) = strip t := by
  have hon : ∀ u, ReflTransGen Unwraps t u → ReflTransGen Unwraps u (strip t) := by
    intro u hu
    rw [steps_iff, toList_strip]
    exact steps_to_stripChars (steps_iff.mp hu)
  have hend : ∀ u, ¬ Unwraps (strip t) u := by
    intro u hu
    rw [unwraps_iff, toList_strip] at hu
    exact not_step_stripChars _ hu
  obtain ⟨⟨n, hn⟩, hstill⟩ := exists_sweeps t.toList
  refine ⟨⟨⟨n, ?_⟩, ?_⟩, hon t .refl, hend, hon, fun u hu hnone ↦ ?_, exists_not_unwraps, ?_⟩
  · rw [← String.toList_inj, toList_iterate_sweep, hn, toList_strip]
  · rw [sweep, toList_strip, hstill, strip]
  · rcases (hon u hu).cases_head with heq | ⟨v, hstep, -⟩
    · exact heq
    · exact absurd hstep (hnone v)
  · exact strip_strip t

/-- A wrapper that comes up only when another one is taken off. -/
theorem strip_createdWrapper :
    Unwraps "@code\x7b@var\x7d\x7bx\x7d" "@var\x7bx\x7d" ∧ Unwraps "@var\x7bx\x7d" "x" ∧
      strip "@code\x7b@var\x7d\x7bx\x7d" = "x" := by
  have houter : Unwraps "@code\x7b@var\x7d\x7bx\x7d" "@var\x7bx\x7d" :=
    ⟨"", "code", "@var", "\x7bx\x7d", by decide, by decide, by decide, by decide⟩
  have hinner : Unwraps "@var\x7bx\x7d" "x" :=
    ⟨"", "var", "x", "", by decide, by decide, by decide, by decide⟩
  refine ⟨houter, hinner, ?_⟩
  obtain ⟨-, -, -, -, hunique, -, -⟩ := strip_is_normal_form "@code\x7b@var\x7d\x7bx\x7d"
  refine (hunique "x" (.head houter (.single hinner)) fun v hv ↦ ?_).symm
  obtain ⟨before, name, body, after, -, -, heq, -⟩ := (unwraps_iff.mp hv).exists_wrapped
  have hlength := congrArg List.length heq
  rw [List.length_append, length_wrapped, show "x".toList.length = 1 from rfl] at hlength
  omega

end Typeset.Wrapper

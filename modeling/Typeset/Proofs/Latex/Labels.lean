import Typeset.Proofs.Latex.Pieces

/-!
# Labels in environments

A command for a label is passed on whole, and what is printed of a node that has a label holds the
label wherever it is not empty.
-/

namespace Typeset.Latex

open Text

/-- A word is not cut at the end of a table's head if it does not begin like it, its last character
is none of it, and it does not hold it. -/
theorem isUncut_headEnd {w : String} {c d last : Char} {cs ds : List Char}
    (hfront : w.toList = c :: d :: cs) (hlast : w.toList = ds ++ [last])
    (hc : c ∉ "endhead\n".toList) (hd : d ≠ 'e') (hlast' : last ∉ headEnd)
    (hinside : ¬ headEnd <:+: w.toList) : IsUncut headEnd w where
  before := by
    intro bs es h
    rcases List.prefix_or_prefix_of_prefix h (List.prefix_append bs _) with h' | ⟨rest, hrest⟩
    · exact h'
    · rw [← hrest] at h
      have hrest' : rest <+: headEnd ++ es := (List.prefix_append_right_inj _).mp h
      rcases List.prefix_or_prefix_of_prefix hrest' (List.prefix_append headEnd _) with h' | h'
      · rcases List.eq_nil_or_concat rest with rfl | ⟨rest, l, rfl⟩
        · simp [← hrest]
        · have hl : l = last := by
            rw [List.concat_eq_append, ← List.append_assoc, hlast] at hrest
            exact (List.cons.inj (List.append_inj_right' hrest rfl)).1
          exact absurd (hl ▸ h'.subset (by simp)) hlast'
      · exact absurd (h'.isInfix.trans (hrest ▸ (List.suffix_append bs rest).isInfix)) hinside
  within := by
    intro bs es hbs hsuffix h
    rw [hfront] at h
    rcases bs with _ | ⟨b, bs⟩
    · exact hbs rfl
    · obtain ⟨rfl, hrest⟩ := List.cons_prefix_cons.mp h
      rcases List.suffix_cons_iff.mp hsuffix with heq | htail
      · obtain ⟨-, rfl⟩ := List.cons.inj heq
        exact hd (List.cons_prefix_cons.mp hrest).1
      · exact hc (htail.subset List.mem_cons_self)

/-- The end of a table's head does not occur in a text with no backslash but at its front. -/
theorem not_inside_headEnd {c d : Char} {cs : List Char} (hd : d ≠ 'e') (h : '\\' ∉ d :: cs) :
    ¬ headEnd <:+: c :: d :: cs := by
  intro hinside
  rcases List.infix_cons_iff.mp hinside with hprefix | hinside
  · exact hd (List.cons_prefix_cons.mp (List.cons_prefix_cons.mp hprefix).2).1.symm
  · exact h (hinside.subset List.mem_cons_self)

theorem isWhole_labelCommand {label : String} (h : '\\' ∉ label.toList) :
    IsWhole (labelCommand label) := by
  have hfront : (labelCommand label).toList =
      '\\' :: 'l' :: ("abel\x7b".toList ++ label.toList ++ ['\x7d']) := by
    simp [labelCommand, command, braced]
  have hlast : (labelCommand label).toList =
      ('\\' :: 'l' :: ("abel\x7b".toList ++ label.toList)) ++ ['\x7d'] := hfront
  refine ⟨⟨⟨_, _, hfront, by decide⟩, ⟨_, _, hlast, by decide⟩⟩, ?_⟩
  refine isUncut_headEnd hfront hlast (by decide) (by decide) (by decide) ?_
  rw [hfront]
  exact not_inside_headEnd (by decide) (by simpa using h)

theorem isWhole_labelOption {label : String} (h : '\\' ∉ label.toList) :
    IsWhole ("label" ++ "=" ++ braced label) := by
  have hfront : ("label" ++ "=" ++ braced label).toList =
      'l' :: 'a' :: ("bel=\x7b".toList ++ label.toList ++ ['\x7d']) := by
    simp [braced]
  have hlast : ("label" ++ "=" ++ braced label).toList =
      ('l' :: 'a' :: ("bel=\x7b".toList ++ label.toList)) ++ ['\x7d'] := hfront
  refine ⟨⟨⟨_, _, hfront, by decide⟩, ⟨_, _, hlast, by decide⟩⟩, ?_⟩
  refine isUncut_headEnd hfront hlast (by decide) (by decide) (by decide) ?_
  rw [hfront]
  exact not_inside_headEnd (by decide) (by simpa using h)

/-! ## Where labels are printed -/

theorem labelLine_some {label : String} (h : label ≠ "") :
    labelLine (some label) = [labelCommand label] := by
  unfold labelLine
  split <;> simp_all

theorem occurs_captionText_label {label : String} (h : label ≠ "") (float : Option String)
    (caption : String) : Occurs (labelCommand label) (captionText float caption (some label)) := by
  unfold captionText
  rw [labelLine_some h]
  exact (Occurs.refl _).unlines (List.mem_append_right _ (List.mem_singleton.mpr rfl))

theorem occurs_sectionText_label {config : Config} {g : Heading}
    {title label contents t : String} (ht : sectionText config g title label contents = .ok t) :
    Occurs (labelCommand label) t := by
  unfold sectionText at ht
  split at ht
  · obtain rfl := Except.ok.inj ht
    refine Occurs.append_right (.append_right (.append_right (.append_right ?_ _) _) _) _
    exact (Occurs.refl _).append_left _
  · cases hc : commandsOf config g.level with
    | error e =>
      rw [hc] at ht
      cases ht
    | ok commands =>
      rw [hc] at ht
      obtain rfl := Except.ok.inj ht
      exact (((Occurs.refl _).append_left _).append_right _).append_right _

theorem occurs_specialText_label {label : String} (h : label ≠ "") (config : Config)
    (type contents : String) (attributes : Attributes) :
    Occurs (labelCommand label) (specialText config type attributes (some label) contents) := by
  unfold specialText
  rw [labelLine_some h]
  refine Occurs.append_right (.append_right (.append_right (.append_left _ ?_) _) _) _
  exact ((Occurs.refl _).append_right "\n").join (List.mem_singleton.mpr rfl)

theorem occurs_displayText_label {label : String} (h : label ≠ "") (source : String) :
    Occurs (labelCommand label) (displayText source (some label)) := by
  unfold displayText
  dsimp only
  split
  · next heq => cases heq
  · next heq => exact absurd (Option.some.inj heq) h
  · next heq =>
    obtain rfl := Option.some.inj heq
    split
    · exact (((Occurs.refl _).append_right _).append_right _).append_right _
    · split
      · refine Occurs.append_right (.append_right (.append_right ?_ _) _) _
        exact (Occurs.refl _).append_left _
      · exact ((Occurs.refl _).append_left _).append_right _

/-- The text with which a listing defines its label: an option of the package listings, or a
command. -/
def Listing.definition (config : Config) (label : String) : String :=
  match config.codeBackend with
  | .listings => "label" ++ "=" ++ braced label
  | _ => labelCommand label

theorem occurs_listing_label {config : Config} {l : Listing} {label : String} (h : label ≠ "")
    (hl : l.label = some label) : Occurs (Listing.definition config label) (l.print config) := by
  have hlabelled : l.isLabelled = true := by simp [Listing.isLabelled, hl, labelLine_some h]
  have hcaption := occurs_captionText_label h none l.caption
  unfold Listing.print Listing.definition
  cases config.codeBackend with
  | listings =>
    have hfront : ("label" ++ "=" ++ braced label).toList =
        'l' :: ("abel=".toList ++ (braced label).toList) := by simp
    have hself : Carries ["label" ++ "=" ++ braced label] _ := .of_inside hfront List.infix_rfl
    exact (carries_listings "label" label (by simp [hl]) h hself).occurs List.mem_cons_self
  | minted =>
    simp only [Listing.minted, hlabelled, hl, if_pos]
    exact (((hcaption.append_left _).append_right _).append_right _).append_right _
  | verbatim =>
    simp only [Listing.verbatim, hlabelled, hl, if_pos]
    exact ((((hcaption.append_left _).append_right _).append_right _).append_right _).append_right _

end Typeset.Latex

import Typeset.Proofs.Notes.Account

/-!
# What becomes of notes at a node

When a node is printed, the notes in its parts go on with its text, go with it into the buffer of a
zone or into a row that is held back, or are lost. The account stays right each time.
-/

namespace Typeset

open Action Context Latex Render Text

variable {config : Config} {doc : Node} {above : List Occurrence} {o : Occurrence}
  {c d : Context} {l : Ledger} {us : List Use} {notes : Branch → List Note} {parts : Parts}
  {output : Option String}

/-! ## What is passed on -/

namespace Occurrence

variable {α : Type}

/-- What is passed on and what is dropped is all there is. -/
theorem perm_passed [DecidableEq α] (xs : Branch → List α) :
    (Branch.printOrder.flatMap xs).Perm (o.passed config c xs ++ o.dropped config c xs) := by
  rw [List.perm_iff_count]
  intro x
  have hon : ∀ b, (xs b).count x = (o.passedOn config c xs b).count x +
      (if o.passes config c b then [] else xs b).count x := by
    intro b
    unfold passedOn
    cases o.passes config c b <;> simp
  have htitle := hon .title
  have htag := hon .tag
  have hcaption := hon .caption
  have hchildren := hon .children
  unfold passed dropped
  simp only [Branch.printOrder, List.flatMap_cons, List.flatMap_nil, List.count_append,
    List.count_nil]
  split <;> simp only [List.count_append] <;> omega

/-- What is passed on has the order in which it was printed, if nothing that matters is dropped or
stands before a caption below it. -/
theorem filter_passed {p : α → Bool} {xs : Branch → List α}
    (hdropped : ∀ x ∈ o.dropped config c xs, p x = false)
    (horder : o.captionsAbove config = false → xs .caption = [] ∨ xs .children = []) :
    (Branch.printOrder.flatMap xs).filter p = (o.passed config c xs).filter p := by
  have hon : ∀ b, (xs b).filter p = (o.passedOn config c xs b).filter p := by
    intro b
    unfold passedOn
    cases hpass : o.passes config c b with
    | true => rfl
    | false =>
      rw [List.filter_eq_nil_iff.mpr, if_neg nofun, List.filter_nil]
      intro x hx
      rw [hdropped x]
      · nofun
      · exact List.mem_flatMap.mpr ⟨b, Branch.mem_printOrder b, by rwa [hpass]⟩
  unfold passed
  simp only [Branch.printOrder, List.flatMap_cons, List.flatMap_nil, List.append_nil,
    List.filter_append, hon]
  cases habove : o.captionsAbove config with
  | true => simp
  | false =>
    have hnil : ∀ b, xs b = [] → (o.passedOn config c xs b).filter p = [] := by
      intro b hb
      rw [← hon, hb, List.filter_nil]
    rcases horder habove with h | h
    · simp [hnil _ h]
    · simp [hnil _ h]

end Occurrence

/-- The notes of an occurrence on its branches: they stand in its parts. If the document leaves notes
where they stand, there are none where no reference stands, and if it keeps them all, none where the
occurrence does not pass them on. -/
structure Occurrence.Bears (config : Config) (doc : Node) (above : List Occurrence) (o : Occurrence)
    (parts : Parts) (notes : Branch → List Note) : Prop where
  mem : o ∈ doc.occurrences (.ofRoot 0)
  stand : ∀ b, StandIn (notes b) (parts.on b)
  childless : o.node.children = [] → notes .children = []
  citing : doc.keepsPlace config = true → ∀ b, o.node.citesOn b = false → notes b = []
  passing : doc.keepsNotes config = true → ∀ c : Context, c.ancestors = above →
    ∀ b, o.passes config c b = false → notes b = []

namespace Occurrence.Bears

variable (h : o.Bears config doc above parts notes)

include h

theorem eq_nil_of_cites (hkeeps : doc.keepsPlace config = true) (hcites : o.node.cites = false)
    (b : Branch) : notes b = [] := by
  refine h.citing hkeeps b (Bool.eq_false_iff.mpr fun hon ↦ ?_)
  rw [Node.cites_of_citesOn hon] at hcites
  cases hcites

theorem eq_nil_of_captionsBelow (hkeeps : doc.keepsOrder config = true)
    (hbelow : o.captionsAbove config = false) : notes .caption = [] ∨ notes .children = [] := by
  have hplace := h.citing (Node.keepsPlace_of_keepsOrder hkeeps)
  exact (Node.citesOn_of_captionsBelow hkeeps h.mem hbelow).imp (hplace _) (hplace _)

theorem dropped_eq_nil (hkeeps : doc.keepsNotes config = true) (habove : c.ancestors = above) :
    o.dropped config c notes = [] := by
  refine List.flatMap_eq_nil_iff.mpr fun b _ ↦ ?_
  split
  · rfl
  · next hpass => exact h.passing hkeeps c habove b (Bool.eq_false_iff.mpr hpass)

theorem eq_nil_of_ne_children (hkeeps : doc.keepsNotes config = true)
    (hheading : o.node.kind ≠ .heading) (hitem : o.node.kind ≠ .item) {b : Branch}
    (hcaption : b = .caption → printsCaption o.node = false) (hb : b ≠ .children) :
    notes b = [] :=
  h.passing hkeeps { Context.empty with ancestors := above } rfl b
    (Occurrence.passes_of_ne_children hheading hitem hcaption hb)

/-- Of the notes of an occurrence, some are passed on and the others are lost. -/
theorem account_passed
    (haccount : Account config doc above (us ++ (Branch.printOrder.flatMap notes).map Note.toUse)
      c l) : Account config doc above (us ++ (o.passed config c notes).map Note.toUse) c
      (l.lose (o.dropped config c notes)) := by
  refine haccount.rearrange (Occurrence.perm_passed notes) (fun hkeeps hdropped ↦ ?_) fun hkeeps ↦ ?_
  · exact Occurrence.filter_passed hdropped (h.eq_nil_of_captionsBelow hkeeps)
  · exact h.dropped_eq_nil hkeeps haccount.ancestors

end Occurrence.Bears

/-! ## Headings of zones -/

/-- A heading of a zone takes its notes into the buffer of the zone. -/
theorem account_of_zone (h : o.Bears config doc above parts notes)
    (haccount : Account config doc above (us ++ (Branch.printOrder.flatMap notes).map Note.toUse) c l)
    (hzone : o.node.zone ≠ .body) {expand : Occurrence → Action String}
    (hrun : transcribeElement config expand o parts c = (.ok output, d)) :
    output = none ∧ Account config doc above us d ((l.lose (o.dropped config c notes)).route o.node.zone
      (c.reservations.lookup o.place) (o.passed config c notes)) := by
  cases he : o.node.element with
  | heading g =>
    simp only [transcribeElement, he, heading_eq, if_neg hzone] at hrun
    obtain ⟨t, c₁, ht, hrun⟩ := ok_of_bind hrun
    obtain ⟨⟨⟩, c₂, hroute, hrun⟩ := ok_of_bind hrun
    cases hrun
    have hsame : SameNotes c c₁ :=
      (KeepsNotes.plain doc.index).sectionOf config o g parts c haccount.index t c₁ ht
    have hstand : StandIn (o.passed config c notes) t := by
      have htext := carries_of_sectionOf (h.stand .title) (h.stand .children) ht
      rw [StandIn, ← Occurrence.passed_map, Occurrence.passed_of_heading _ he]
      exact htext
    refine ⟨rfl, ?_⟩
    rw [← hsame.reservations]
    refine ((h.account_passed haccount).same hsame).route hzone hstand (fun hkeeps ↦ ?_) hroute
    have hnone := h.eq_nil_of_cites hkeeps (Node.cites_of_zone hkeeps h.mem hzone)
    rw [Occurrence.passed_of_heading _ he, hnone, hnone]
    simp
  | _ => exact absurd (by simp [Node.zone, he]) hzone

/-! ## Long tables -/

theorem Note.isUncut_command {n : Note} (h : ¬ headEnd <:+: n.command.toList) :
    IsUncut headEnd n.command := by
  have hfront : ∃ d cs ds last, n.command.toList = '\\' :: d :: cs ∧ n.command.toList = ds ++ [last] ∧
      d ≠ 'e' ∧ last ∉ headEnd := by
    unfold command
    split
    · refine ⟨'f', "ootnote\x7b".toList ++ (strip n.text).toList ++ ['\x7d'],
        "\\footnote\x7b".toList ++ (strip n.text).toList, '\x7d', ?_, ?_, by decide, by decide⟩ <;>
      simp [footnoteText, Latex.command, braced]
    · refine ⟨'f', "ootnotemark[".toList ++ (toString n.number).toList ++ [']'],
        "\\footnotemark[".toList ++ (toString n.number).toList, ']', ?_, ?_, by decide,
        by decide⟩ <;>
      simp
  obtain ⟨d, cs, ds, last, hfront, hlast, hd, hlast'⟩ := hfront
  exact isUncut_headEnd hfront hlast (by decide) hd hlast' h

/-- A long table lets its rows go after all else. -/
theorem ok_of_longTable {ix : LinkIndex} (hindex : c.references.index = ix)
    (hlong : isLong config o.node = true) {t : String}
    (hrun : table config o parts c = (.ok t, d)) :
    ∃ c', SameNotes c c' ∧ d = (Context.release o.place c').2 := by
  obtain ⟨label, c', hlabel, hrun⟩ := ok_of_table hrun
  rw [if_pos hlong] at hrun
  exact ⟨c', (KeepsNotes.plain ix).label? o _ hindex _ _ hlabel, hrun.2⟩

/-- A table without a footer has no foot that could be put between its rows. -/
theorem Account.children_eq_nil_of_foot (haccount : Account config doc above us c l)
    (h : o.Bears config doc above parts notes) (hkeeps : doc.keepsNotes config = true)
    (he : o.node.element = .table) (hlong : isLong config o.node = true)
    (hfoot : longFoot config (Table.geometry config o.node) (c.rowsOf o.place) ≠ "") :
    notes .children = [] := by
  refine h.citing (Node.keepsPlace_of_keepsNotes hkeeps) _ ?_
  refine Node.citesOn_of_footer hkeeps h.mem he hlong ?_
  by_contra hnone
  rw [Option.not_isSome_iff_eq_none] at hnone
  have hrows : c.rowsOf o.place = [] := by
    by_contra hne
    obtain ⟨table, htable, hplace, hfooter⟩ := haccount.footers _ hne
    have hself := Node.at?_of_mem_occurrences rfl htable
    rw [hplace, Node.at?_of_mem_occurrences rfl h.mem] at hself
    rw [← Option.some.inj hself, hnone] at hfooter
    cases hfooter
  exact hfoot (by simp [longFoot, hnone, hrows])

/-- The notes of a long table: those in its caption and its rows that are whole, and the others. -/
theorem account_of_whole (torn : Note → Bool)
    (haccount : Account config doc above (us ++ (Branch.printOrder.flatMap notes).map Note.toUse)
      c l)
    (hwhole : doc.keepsNotes config = true →
      notes .title ++ notes .tag ++ (notes .children).filter torn = []) :
    Account config doc above
      (us ++ (notes .caption ++ (notes .children).filter fun n ↦ !torn n).map Note.toUse) c
      (l.lose (notes .title ++ notes .tag ++ (notes .children).filter torn)) := by
  refine haccount.rearrange (List.perm_iff_count.mpr fun n ↦ ?_) (fun _ hlost ↦ ?_) hwhole
  · have hsplit := (List.filter_append_perm torn (notes .children)).count_eq n
    simp only [Branch.printOrder, List.flatMap_cons, List.flatMap_nil, List.count_append,
      List.count_nil] at hsplit ⊢
    omega
  · have hnil : ∀ b, (∀ n ∈ notes b, n.isNew = false) → (notes b).filter (·.isNew) = [] :=
      fun b h ↦ List.filter_eq_nil_iff.mpr fun n hn ↦ by simp [h n hn]
    have hwhole : (notes .children).filter (·.isNew) =
        ((notes .children).filter fun n ↦ !torn n).filter (·.isNew) := by
      rw [List.filter_filter]
      refine List.filter_congr fun n hn ↦ ?_
      cases htorn : torn n with
      | false => simp
      | true => simp [hlost n (List.mem_append_right _ (List.mem_filter.mpr ⟨hn, htorn⟩))]
    have htitle := hnil .title fun n hn ↦
      hlost n (List.mem_append_left _ (List.mem_append_left _ hn))
    have htag := hnil .tag fun n hn ↦
      hlost n (List.mem_append_left _ (List.mem_append_right _ hn))
    simp only [Branch.printOrder, List.flatMap_cons, List.flatMap_nil, List.append_nil,
      List.filter_append, htitle, htag, List.nil_append, hwhole]

/-- A long table lets the notes in the rows of its foot go on before those in the rows that follow
its head. -/
theorem account_of_longTable (h : o.Bears config doc above parts notes)
    (haccount : Account config doc above (us ++ (Branch.printOrder.flatMap notes).map Note.toUse) c l)
    (he : o.node.element = .table) (hlong : isLong config o.node = true) {t : String}
    (hrun : table config o parts c = (.ok t, d)) :
    StandIn (Ledger.passedByLong config c o parts.contents notes l) t ∧
      Account config doc above
        (us ++ (Ledger.passedByLong config c o parts.contents notes l).map Note.toUse) d
        ((l.lose (notes .title ++ notes .tag ++
          (notes .children).filter (Ledger.isTorn config c o))).release o.place) := by
  constructor
  · have hcontents : Carries (((notes .children).filter fun n ↦
        !Ledger.isTorn config c o n).map Note.command) parts.contents.toList :=
      Carries.of_sublist (h.stand .children) (List.filter_sublist.map _)
    have htext := carries_of_longTable hlong (h.stand .caption) hcontents
      (haccount.mirrors.rows o.place).carriesAll (fun hfoot w hw ↦ ?_) hrun
    · unfold Ledger.passedByLong
      rw [StandIn]
      simpa [List.map_take, List.map_drop] using htext
    · obtain ⟨n, hn, rfl⟩ := List.mem_map.mp hw
      have hwhole := (List.mem_filter.mp hn).2
      refine Note.isUncut_command fun hinside ↦ ?_
      simp [Ledger.isTorn, hfoot, hinside] at hwhole
  · obtain ⟨c', hsame, rfl⟩ := ok_of_longTable haccount.index hlong hrun
    have hkind : o.node.kind = .table := by rw [Node.kind, he, Element.kind]
    have hwhole := account_of_whole (Ledger.isTorn config c o) haccount fun hkeeps ↦ by
      have hothers : ∀ b, b = .title ∨ b = .tag → notes b = [] := fun b hb ↦
        h.eq_nil_of_ne_children hkeeps (by simp [hkind]) (by simp [hkind])
          (by rcases hb with rfl | rfl <;> simp) (by rcases hb with rfl | rfl <;> simp)
      rw [hothers .title (.inl rfl), hothers .tag (.inr rfl), List.nil_append, List.nil_append,
        List.filter_eq_nil_iff]
      intro n hn htorn
      obtain ⟨hfoot, -⟩ := Bool.and_eq_true_iff.mp htorn
      rw [haccount.children_eq_nil_of_foot h hkeeps he hlong (by simpa using hfoot)] at hn
      cases hn
    have hreleased := (hwhole.same hsame).release o.place
    rw [List.append_assoc, ← List.map_append] at hreleased
    rw [← Ledger.lose_nil (Ledger.release _ _)]
    refine hreleased.rearrange (List.perm_iff_count.mpr fun n ↦ ?_) (fun hkeeps _ ↦ ?_)
      fun _ ↦ rfl
    · unfold Ledger.passedByLong
      dsimp only
      generalize (notes .children).filter _ = ns
      have hcount := congrArg (List.count n) (List.take_append_drop
        (countBeforeFoot parts.contents (ns.map Note.command)) ns)
      simp only [List.count_append, List.count_nil, Ledger.rowsOf, Ledger.lose] at hcount ⊢
      omega
    · have hstill := haccount.still (Node.keepsPlace_of_keepsOrder hkeeps)
      have hrows := hstill.flatten_rowsOf o.place
      unfold Ledger.passedByLong
      dsimp only
      rw [show (l.lose _).rowsOf o.place = l.rowsOf o.place from rfl, hrows, List.append_nil,
        List.append_nil, List.take_append_drop]

/-! ## Rows of a foot -/

/-- The notes in the contents go on, and all others are lost. -/
theorem account_of_contents
    (haccount : Account config doc above (us ++ (Branch.printOrder.flatMap notes).map Note.toUse)
      c l) (hothers : doc.keepsNotes config = true → ∀ b, b ≠ .children → notes b = []) :
    Account config doc above (us ++ (notes .children).map Note.toUse) c
      (l.lose (notes .title ++ notes .tag ++ notes .caption)) := by
  refine haccount.rearrange (List.perm_iff_count.mpr fun n ↦ ?_) (fun _ hlost ↦ ?_)
    fun hkeeps ↦ ?_
  · simp only [Branch.printOrder, List.flatMap_cons, List.flatMap_nil, List.count_append,
      List.count_nil]
    omega
  · have hnil := List.filter_eq_nil_iff.mpr fun n hn ↦ Bool.eq_false_iff.mp (hlost n hn)
    simp only [List.filter_append, List.append_eq_nil_iff] at hnil
    simp [Branch.printOrder, hnil]
  · simp [hothers hkeeps]

/-- A row that is held back is one of the foot of a long table above it. -/
theorem mem_footRows_of_heldFor? (ho : o ∈ doc.occurrences (.ofRoot 0))
    (habove : ∀ u ∈ c.ancestors, u ∈ doc.occurrences (.ofRoot 0)) {p : Place}
    (h : o.heldFor? config c = some p) :
    ∃ table ∈ doc.occurrences (.ofRoot 0), table.place = p ∧ table.node.kind = .table ∧
      isLong config table.node = true ∧ o.node ∈ table.node.footRows config := by
  obtain ⟨table, htable, h⟩ := Option.bind_eq_some_iff.mp h
  obtain ⟨index, hindex, h⟩ := Option.bind_eq_some_iff.mp h
  obtain ⟨i, hi, hindex⟩ := Option.bind_eq_some_iff.mp hindex
  split at h
  · next hfoot =>
    obtain ⟨hlong, hfoot⟩ := Bool.and_eq_true_iff.mp hfoot
    have hmem := habove table (List.mem_of_find?_eq_some htable)
    have hself := Node.at?_of_mem_occurrences rfl ho
    have hrow : table.node.children[i]? = some o.node := by
      unfold Place.childIndex? at hi
      split at hi
      · next j above hsteps =>
        split at hi
        · next heq =>
          obtain rfl := Option.some.inj hi
          rw [hsteps, Node.at?, heq.2, Node.at?_of_mem_occurrences rfl hmem] at hself
          exact hself
        · cases hi
      · cases hi
    refine ⟨table, hmem, Option.some.inj h, ?_, hlong, Node.mem_footRows hrow hindex hfoot⟩
    simpa using List.find?_some htable
  · cases h

/-- A row that is held back keeps its notes with it. -/
theorem account_of_heldRow (h : o.Bears config doc above parts notes)
    (haccount : Account config doc above (us ++ (Branch.printOrder.flatMap notes).map Note.toUse)
      c l) (hkind : o.node.kind = .tableRow) {p : Place} (hheld : o.heldFor? config c = some p)
    (hrun : tableRow config o parts.contents c = (.ok output, d)) :
    output = none ∧ Account config doc above us d
      ((l.lose (notes .title ++ notes .tag ++ notes .caption)).hold p (notes .children)) := by
  rcases carries_of_tableRow (h.stand .children) hrun with ⟨p', t, hheld', hhold, rfl, ht⟩ | ⟨hnone, -⟩
  · obtain rfl := Option.some.inj (hheld.symm.trans hheld')
    have hothers : doc.keepsNotes config = true → ∀ b, b ≠ .children → notes b = [] :=
      fun hkeeps b ↦ h.eq_nil_of_ne_children hkeeps (by simp [hkind]) (by simp [hkind])
        fun _ ↦ by simp [printsCaption, Node.isFigure, hkind]
    obtain ⟨table, htable, rfl, htable', hlong, hrow⟩ :=
      mem_footRows_of_heldFor? h.mem (haccount.ancestors ▸ haccount.above) hheld
    refine ⟨rfl, (account_of_contents haccount hothers).hold ht ?_ (fun hkeeps ↦ ?_) hhold⟩
    · exact ⟨table, htable, rfl, Node.isSome_footer_of_mem_footRows hrow⟩
    · exact h.eq_nil_of_cites hkeeps (Node.cites_of_mem_footRows hkeeps htable htable' hlong hrow) _
  · rw [hheld] at hnone
    cases hnone

/-! ## All other nodes -/

/-- A node that neither stands in a zone nor holds or lets rows go leaves all that has to do with
notes alone. -/
theorem sameNotes_of_transcribeElement {ix : LinkIndex} (hindex : c.references.index = ix)
    (hzone : o.node.zone = .body)
    (htable : ¬ (o.node.kind = .table ∧ isLong config o.node = true))
    (hrow : o.node.kind ≠ .tableRow) (hreference : o.node.kind ≠ .footnoteReference)
    {expand : Occurrence → Action String}
    (hrun : transcribeElement config expand o parts c = (.ok output, d)) : SameNotes c d := by
  refine (KeepsNotes.plain ix).transcribeElement config o parts (fun h ↦ absurd hzone h)
    (fun hkind hlong ↦ absurd ⟨hkind, hlong⟩ htable) (fun h ↦ absurd h hrow) (fun label he ↦ ?_)
    c hindex output d hrun
  exact absurd (by rw [Node.kind, he, Element.kind]) hreference

/-- Any other node passes notes on with its text. -/
theorem account_of_others (h : o.Bears config doc above parts notes)
    (haccount : Account config doc above (us ++ (Branch.printOrder.flatMap notes).map Note.toUse) c l)
    (hzone : o.node.zone = .body)
    (htable : ¬ (o.node.kind = .table ∧ isLong config o.node = true))
    (hheld : o.heldRowFor? config c = none) (hreference : o.node.kind ≠ .footnoteReference)
    {expand : Occurrence → Action String}
    (hrun : transcribeElement config expand o parts c = (.ok output, d)) :
    StandIn (o.passed config c notes) (output.getD "") ∧
      Account config doc above (us ++ (o.passed config c notes).map Note.toUse) d
        (l.lose (o.dropped config c notes)) := by
  have hpassed := h.account_passed haccount
  by_cases hrow : o.node.kind = .tableRow
  · rw [Occurrence.heldRowFor?, if_pos hrow] at hheld
    cases he : o.node.element with
    | tableRow kind =>
      simp only [transcribeElement, he] at hrun
      rcases carries_of_tableRow (h.stand .children) hrun with ⟨p, t, hsome, -⟩ | ⟨-, rfl, ht⟩
      · rw [hheld] at hsome
        cases hsome
      · refine ⟨?_, hpassed⟩
        rw [Occurrence.passed_eq_contents _ (by simp [hrow]) (by simp [hrow])
          (by simp [printsCaption, Node.isFigure, hrow])]
        have hpasses : o.passes config d .children = o.passesCells config d.ancestors := by
          simp only [Occurrence.passes, he]
        rw [hpasses]
        split
        · next hpass => exact ht hpass
        · exact .nil _
    | _ => simp [Node.kind, he, Element.kind] at hrow
  · refine ⟨?_, hpassed.same ?_⟩
    · rw [StandIn, ← Occurrence.passed_map]
      refine carries_of_transcribeElement hzone hrow (fun hkind ↦ ?_) hreference (fun b ↦ ?_)
        h.stand (fun hchildren ↦ ?_) hrun
      · exact Bool.eq_false_iff.mpr fun hlong ↦ htable ⟨hkind, hlong⟩
      · exact Note.areCompact_commands _
      · rw [h.childless hchildren, List.map_nil]
    · exact sameNotes_of_transcribeElement haccount.index hzone htable hrow hreference hrun

/-! ## The ledger at a node -/

/-- When a node other than a reference has been printed, the notes that it passes on stand in what
it prints, and the account is right. -/
theorem account_of_settle (h : o.Bears config doc above parts notes)
    (haccount : Account config doc above (us ++ (Branch.printOrder.flatMap notes).map Note.toUse) c l)
    (hreference : o.node.kind ≠ .footnoteReference) {expand : Occurrence → Action String}
    (hrun : transcribeElement config expand o parts c = (.ok output, d)) :
    StandIn (Ledger.settle config c o parts.contents notes l).1 (output.getD "") ∧
      Account config doc above
        (us ++ (Ledger.settle config c o parts.contents notes l).1.map Note.toUse) d
        (Ledger.settle config c o parts.contents notes l).2 := by
  unfold Ledger.settle
  dsimp only
  split
  · next hzone =>
    obtain ⟨-, hrouted⟩ := account_of_zone h haccount hzone hrun
    exact ⟨.nil _, by simpa using hrouted⟩
  · next hzone =>
    have hzone : o.node.zone = .body := not_not.mp hzone
    split
    · next hlong =>
      cases he : o.node.element with
      | table =>
        simp only [transcribeElement, he] at hrun
        obtain ⟨t, ht, rfl⟩ := ok_of_map hrun
        exact account_of_longTable h haccount he hlong.2 ht
      | _ => simp [Node.kind, he, Element.kind] at hlong
    · next hlong =>
      split
      · next p hheld =>
        have hrow : o.node.kind = .tableRow := by
          by_contra hne
          rw [Occurrence.heldRowFor?, if_neg hne] at hheld
          cases hheld
        rw [Occurrence.heldRowFor?, if_pos hrow] at hheld
        cases he : o.node.element with
        | tableRow kind =>
          simp only [transcribeElement, he] at hrun
          obtain ⟨-, hheld⟩ := account_of_heldRow h haccount hrow hheld hrun
          exact ⟨.nil _, by simpa using hheld⟩
        | _ => simp [Node.kind, he, Element.kind] at hrow
      · next hheld => exact account_of_others h haccount hzone hlong hheld hreference hrun

/-- Where there are no notes at all, none is passed on. -/
theorem settle_eq_nil (hnotes : ∀ b, notes b = []) (hstill : l.IsStill) (contents : String) :
    (Ledger.settle config c o contents notes l).1 = [] := by
  have hpassed : o.passed config c notes = [] := by
    simp [Occurrence.passed, Occurrence.passedOn, hnotes]
  unfold Ledger.settle
  dsimp only
  split
  · rfl
  · split
    · simp [Ledger.passedByLong, hnotes, hstill.flatten_rowsOf]
    · split
      · rfl
      · exact hpassed

end Typeset

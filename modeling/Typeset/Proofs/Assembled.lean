import Typeset.Proofs.Render.Shown
import Typeset.Proofs.Text.Carries
import Typeset.Proofs.Tree.Prepared

/-!
# What gets into a document

A document without a template is what the zones hold, one after the other. Line feeds at the ends of
the chunks and blank chunks are left out, so words that are not blank stay.
-/

namespace Typeset

open Action Context Render Text

namespace Assembly

variable {ws : List String} {s t : String} {body : String} {chunks : Zone → List String}

theorem mem_zoneOrder (z : Zone) : z ∈ zoneOrder := by cases z <;> decide

theorem carries_joinChunks {texts : List String} (hws : AreCompact ws) (h : CarriesAll ws texts) :
    Carries ws (joinChunks texts).toList := by
  have hkept : ∀ {vs : List String} {t : String}, AreCompact vs → Carries vs t.toList →
      (!isBlankText t) = false → vs = [] :=
    fun hvs h ht ↦ h.eq_nil_of_isBlankText hvs (by simpa using ht)
  exact (h.filter_map hws hkept fun hvs h ↦ h.stripNewlines hvs).intercalate "\n\n"

theorem carries_stack {texts : List String} (hws : AreCompact ws) (h : CarriesAll ws texts) :
    Carries ws (stack texts).toList := by
  have hkept : ∀ {vs : List String} {t : String}, AreCompact vs → Carries vs t.toList →
      (!t.isEmpty) = false → vs = [] :=
    fun _ h ht ↦ h.eq_nil_of_isEmpty (by rwa [Bool.not_eq_eq_eq_not] at ht)
  have hself := h.filter_map hws hkept (f := id) fun _ h ↦ h
  rw [List.map_id] at hself
  unfold stack
  split
  · next hnil =>
    rw [hnil] at hself
    exact hself.eq_nil ▸ .nil _
  · rw [String.toList_append]
    exact (hself.intercalate _).append_right _

/-- The document carries what the zones carry, one zone after the other. -/
theorem carries_minimal {zones : Zone → String} (hws : AreCompact ws)
    (h : CarriesAll ws (zoneOrder.map zones)) : Carries ws (minimal zones).toList :=
  carries_stack hws h

theorem carries_minimal_zone {zones : Zone → String} (hws : AreCompact ws) {z : Zone}
    (h : Carries ws (zones z).toList) : Carries ws (minimal zones).toList :=
  carries_minimal hws (.of_mem (List.mem_map_of_mem (mem_zoneOrder z)) h)

/-- The document carries what the body carries. -/
theorem carries_minimal_body (hws : AreCompact ws) (h : Carries ws body.toList) :
    Carries ws (minimal (zoneText body chunks)).toList :=
  carries_minimal_zone hws (z := .body) (h.stripNewlines hws)

/-- The document carries what a chunk of a zone carries. -/
theorem carries_minimal_chunk (hws : AreCompact ws) {z : Zone} (hz : z ≠ .body)
    (ht : t ∈ chunks z) (h : Carries ws t.toList) :
    Carries ws (minimal (zoneText body chunks)).toList := by
  have hjoined : Carries ws (joinChunks (chunks z)).toList := carries_joinChunks hws (.of_mem ht h)
  refine carries_minimal_zone hws (z := z) ?_
  cases z with
  | body => exact absurd rfl hz
  | _ => exact hjoined

theorem areCompact_singleton (hs : IsCompact s) : AreCompact [s] :=
  fun _ hw ↦ List.mem_singleton.mp hw ▸ hs

/-- What is in the body gets into the document. -/
theorem occurs_minimal_body (hs : IsCompact s) (h : Occurs s body) :
    Occurs s (minimal (zoneText body chunks)) :=
  (carries_minimal_body (areCompact_singleton hs) (.of_occurs hs h)).occurs List.mem_cons_self

/-- What is in a chunk of a zone gets into the document. -/
theorem occurs_minimal_chunk (hs : IsCompact s) {z : Zone} (hz : z ≠ .body) (ht : t ∈ chunks z)
    (h : Occurs s t) : Occurs s (minimal (zoneText body chunks)) :=
  (carries_minimal_chunk (areCompact_singleton hs) hz ht (.of_occurs hs h)).occurs
    List.mem_cons_self

/-! ## The zones follow each other -/

/-- The text can stand between blank lines: it is not empty and no line feed is at its ends. -/
structure IsFlush (t : String) : Prop where
  ne_empty : t ≠ ""
  head : t.toList.head? ≠ some '\n'
  last : t.toList.getLast? ≠ some '\n'

/-- The chunks that are not blank, without line feeds at their ends. -/
def keptChunks (texts : List String) : List String :=
  (texts.filter fun t ↦ !isBlankText t).map stripNewlines

/-- What a zone adds to a document without a template. -/
def zonePieces (body : String) (chunks : Zone → List String) : Zone → List String
  | .body => [stripNewlines body].filter fun t ↦ !t.isEmpty
  | z => keptChunks (chunks z)

/-- What a document without a template consists of. -/
def pieces (body : String) (chunks : Zone → List String) : List String :=
  [Zone.frontmatter, .body, .appendix, .index, .backmatter, .copying].flatMap
    (zonePieces body chunks)

/-- The texts with one blank line between two and a line feed at the end. No text, no line. -/
def page : List String → String
  | [] => ""
  | ts => String.intercalate "\n\n" ts ++ "\n"

theorem any_isNewline_eq_false_iff {o : Option Char} :
    o.any isNewline = false ↔ o ≠ some '\n' := by
  cases o with
  | none => exact iff_of_true rfl nofun
  | some c => simp [isNewline]

/-- A text without the line feeds at its ends is flush if anything is left. -/
theorem isFlush_stripNewlines (h : stripNewlines t ≠ "") : IsFlush (stripNewlines t) := by
  refine ⟨h, any_isNewline_eq_false_iff.mp ?_, any_isNewline_eq_false_iff.mp ?_⟩
  · rw [stripNewlines, String.toList_ofList]
    exact any_head?_trim ..
  · rw [stripNewlines, String.toList_ofList]
    exact any_getLast?_trim ..

theorem IsFlush.stripNewlines_eq (h : IsFlush t) : stripNewlines t = t := by
  rw [stripNewlines, trim_eq_self (any_isNewline_eq_false_iff.mpr h.head)
    (any_isNewline_eq_false_iff.mpr h.last), String.ofList_toList]

theorem isBlankText_eq_false_iff :
    isBlankText t = false ↔ ∃ c ∈ t.toList, Unicode.isBlank c = false := by
  rw [isBlankText, List.all_eq_false]
  simp only [Bool.not_eq_true]

theorem ne_empty_of_isBlankText (h : isBlankText t = false) : t ≠ "" := by
  rintro rfl
  cases h

/-- Line feeds are white space, so a text that is not blank stays so without them. -/
theorem isBlankText_stripNewlines (h : isBlankText t = false) :
    isBlankText (stripNewlines t) = false := by
  obtain ⟨c, hc, hblank⟩ := isBlankText_eq_false_iff.mp h
  refine isBlankText_eq_false_iff.mpr ⟨c, ?_, hblank⟩
  rw [stripNewlines, String.toList_ofList]
  refine mem_trim hc (Bool.eq_false_iff.mpr fun hnewline ↦ ?_)
  rw [beq_iff_eq.mp hnewline] at hblank
  exact absurd hblank (by decide)

theorem isBlankText_of_mem_keptChunks {texts : List String} (ht : t ∈ keptChunks texts) :
    isBlankText t = false := by
  obtain ⟨chunk, hchunk, rfl⟩ := List.mem_map.mp ht
  exact isBlankText_stripNewlines (by simpa using (List.mem_filter.mp hchunk).2)

theorem isFlush_of_mem_keptChunks {texts : List String} (ht : t ∈ keptChunks texts) :
    IsFlush t := by
  have hne := ne_empty_of_isBlankText (isBlankText_of_mem_keptChunks ht)
  obtain ⟨chunk, _, rfl⟩ := List.mem_map.mp ht
  exact isFlush_stripNewlines hne

theorem isFlush_of_mem_zonePieces {z : Zone} (ht : t ∈ zonePieces body chunks z) :
    IsFlush t := by
  cases z with
  | body =>
    obtain ⟨hmem, hne⟩ := List.mem_filter.mp ht
    obtain rfl := List.mem_singleton.mp hmem
    exact isFlush_stripNewlines (by simpa using hne)
  | _ => exact isFlush_of_mem_keptChunks ht

/-- No piece is empty and none brings a line feed of its own to a seam. -/
theorem isFlush_of_mem_pieces (ht : t ∈ pieces body chunks) : IsFlush t := by
  obtain ⟨_, _, hz⟩ := List.mem_flatMap.mp ht
  exact isFlush_of_mem_zonePieces hz

section Join

variable {sep : String} {ts : List String} {groups : List (List String)}

theorem ne_empty_intercalate (h : t ≠ "") : String.intercalate sep (t :: ts) ≠ "" := by
  cases ts with
  | nil => rwa [String.intercalate_singleton]
  | cons u us =>
    rw [String.intercalate_cons_cons]
    simp [h]

theorem isBlankText_intercalate (h : isBlankText t = false) :
    isBlankText (String.intercalate sep (t :: ts)) = false := by
  obtain ⟨c, hc, hblank⟩ := isBlankText_eq_false_iff.mp h
  refine isBlankText_eq_false_iff.mpr ⟨c, ?_, hblank⟩
  cases ts with
  | nil => rwa [String.intercalate_singleton]
  | cons u us =>
    rw [String.intercalate_cons_cons, String.toList_append, String.toList_append]
    exact List.mem_append_left _ (List.mem_append_left _ hc)

/-- Flush texts stay flush when they are joined: the ends are those of the first and the last. -/
theorem isFlush_intercalate (ht : IsFlush t) (hts : ∀ u ∈ ts, IsFlush u) :
    IsFlush (String.intercalate sep (t :: ts)) := by
  induction ts generalizing t with
  | nil => rwa [String.intercalate_singleton]
  | cons u us ih =>
    have hrest := ih (hts u List.mem_cons_self) fun v hv ↦ hts v (List.mem_cons_of_mem _ hv)
    have hhead : t.toList ≠ [] := String.toList_eq_nil_iff.not.mpr ht.ne_empty
    have hlast : (String.intercalate sep (u :: us)).toList ≠ [] :=
      String.toList_eq_nil_iff.not.mpr hrest.ne_empty
    refine ⟨ne_empty_intercalate ht.ne_empty, ?_, ?_⟩
    · rw [String.intercalate_cons_cons, String.toList_append, String.toList_append,
        List.append_assoc, List.head?_append_of_ne_nil _ hhead]
      exact ht.head
    · rw [String.intercalate_cons_cons, String.toList_append,
        List.getLast?_append_of_ne_nil _ hlast]
      exact hrest.last

theorem isEmpty_intercalate (h : ∀ t ∈ ts, t ≠ "") :
    (String.intercalate sep ts).isEmpty = ts.isEmpty := by
  cases ts with
  | nil => rfl
  | cons t ts =>
    rw [List.isEmpty_cons, ← Bool.not_eq_true, String.isEmpty_iff]
    exact ne_empty_intercalate (h t List.mem_cons_self)

/-- Joining the joined groups is joining all of them at once, if no group is empty. -/
theorem intercalate_map_intercalate (h : ∀ g ∈ groups, g ≠ []) :
    String.intercalate sep (groups.map (String.intercalate sep)) =
      String.intercalate sep groups.flatten := by
  induction groups with
  | nil => rfl
  | cons g gs ih =>
    have hg := h g List.mem_cons_self
    have hgs := ih fun g' hg' ↦ h g' (List.mem_cons_of_mem _ hg')
    cases gs with
    | nil => rw [List.map_singleton, String.intercalate_singleton, List.flatten_singleton]
    | cons g' gs =>
      have hrest : (g' :: gs).flatten ≠ [] := by
        rw [List.flatten_cons]
        exact List.append_ne_nil_of_left_ne_nil (h g' (by simp)) _
      rw [List.map_cons, String.intercalate_cons_of_ne_nil (by simp), hgs,
        List.flatten_cons (l := g), String.intercalate_append_of_ne_nil hg hrest]

/-- The joined groups that are not empty are the joined texts of those that have some. -/
theorem filter_map_intercalate (h : ∀ g ∈ groups, ∀ t ∈ g, t ≠ "") :
    (groups.map (String.intercalate sep)).filter (fun t ↦ !t.isEmpty) =
      (groups.filter fun g ↦ !g.isEmpty).map (String.intercalate sep) := by
  rw [List.filter_map]
  congr 1
  exact List.filter_congr fun g hg ↦ congrArg (!·) (isEmpty_intercalate (h g hg))

/-- Joining in stages, with the groups that come out empty left out, is joining at once. -/
theorem intercalate_filter_map (h : ∀ g ∈ groups, ∀ t ∈ g, t ≠ "") :
    String.intercalate sep
        ((groups.map (String.intercalate sep)).filter fun t ↦ !t.isEmpty) =
      String.intercalate sep groups.flatten := by
  rw [filter_map_intercalate h, intercalate_map_intercalate fun g hg ↦ ?_,
    List.flatten_filter_not_isEmpty]
  simpa using (List.mem_filter.mp hg).2

end Join

theorem joinChunks_eq (texts : List String) :
    joinChunks texts = String.intercalate "\n\n" (keptChunks texts) := rfl

/-- Of chunks that are empty or flush and not blank, the first are left out and the others stay as
they are. -/
theorem keptChunks_eq_filter {texts : List String}
    (h : ∀ t ∈ texts, t = "" ∨ IsFlush t ∧ isBlankText t = false) :
    keptChunks texts = texts.filter fun t ↦ !t.isEmpty := by
  have hfilter : (texts.filter fun t ↦ !isBlankText t) = texts.filter fun t ↦ !t.isEmpty := by
    refine List.filter_congr fun t ht ↦ ?_
    rcases h t ht with rfl | ⟨hflush, hblank⟩
    · rfl
    · rw [hblank, Bool.eq_false_iff.mpr (String.isEmpty_iff.not.mpr hflush.ne_empty)]
  rw [keptChunks, hfilter, List.map_congr_left, List.map_id]
  intro t ht
  obtain ⟨hmem, hne⟩ := List.mem_filter.mp ht
  rcases h t hmem with rfl | ⟨hflush, _⟩
  · cases hne
  · exact hflush.stripNewlines_eq

theorem joinChunks_eq_empty_or (texts : List String) :
    joinChunks texts = "" ∨
      IsFlush (joinChunks texts) ∧ isBlankText (joinChunks texts) = false := by
  rw [joinChunks_eq]
  cases h : keptChunks texts with
  | nil => exact .inl rfl
  | cons t ts =>
    have hmem : ∀ u ∈ t :: ts, u ∈ keptChunks texts := fun u hu ↦ h ▸ hu
    have ht := hmem t List.mem_cons_self
    refine .inr ⟨isFlush_intercalate (isFlush_of_mem_keptChunks ht) fun u hu ↦ ?_,
      isBlankText_intercalate (isBlankText_of_mem_keptChunks ht)⟩
    exact isFlush_of_mem_keptChunks (hmem u (List.mem_cons_of_mem _ hu))

theorem keptChunks_flatten (groups : List (List String)) :
    keptChunks groups.flatten = (groups.map keptChunks).flatten := by
  rw [keptChunks, List.filter_flatten, List.map_flatten, List.map_map]
  rfl

/-- Chunks that were joined in groups join to what all of them join to. -/
theorem joinChunks_map_joinChunks (groups : List (List String)) :
    joinChunks (groups.map joinChunks) = joinChunks groups.flatten := by
  have hkept : keptChunks (groups.map joinChunks) =
      ((groups.map keptChunks).map (String.intercalate "\n\n")).filter fun t ↦ !t.isEmpty := by
    rw [keptChunks_eq_filter, List.map_map]
    · rfl
    · intro t ht
      obtain ⟨texts, _, rfl⟩ := List.mem_map.mp ht
      exact joinChunks_eq_empty_or texts
  rw [joinChunks_eq, hkept, intercalate_filter_map, joinChunks_eq, keptChunks_flatten]
  intro g hg t ht
  obtain ⟨texts, _, rfl⟩ := List.mem_map.mp hg
  exact (isFlush_of_mem_keptChunks ht).ne_empty

theorem zoneText_eq (body : String) (chunks : Zone → List String) (z : Zone) :
    zoneText body chunks z = String.intercalate "\n\n" (zonePieces body chunks z) := by
  cases z with
  | body =>
    rw [zoneText, zonePieces, List.filter_singleton]
    cases h : (stripNewlines body).isEmpty with
    | true => exact String.isEmpty_iff.mp h
    | false => exact String.intercalate_singleton.symm
  | _ => rfl

theorem page_of_ne_nil {ts : List String} (h : ts ≠ []) :
    page ts = String.intercalate "\n\n" ts ++ "\n" := by
  cases ts with
  | nil => exact absurd rfl h
  | cons t ts => rfl

theorem stack_eq (texts : List String) : stack texts = page (texts.filter fun t ↦ !t.isEmpty) := by
  rw [stack]
  split
  · next h => rw [h, page]
  · next h => exact (page_of_ne_nil h).symm

/-- The joined texts of groups are stacked like the texts themselves. -/
theorem stack_map_intercalate {groups : List (List String)} (h : ∀ g ∈ groups, ∀ t ∈ g, t ≠ "") :
    stack (groups.map (String.intercalate "\n\n")) = page groups.flatten := by
  rw [stack_eq, filter_map_intercalate h, ← List.flatten_filter_not_isEmpty (L := groups)]
  have hkept : ∀ g ∈ groups.filter fun g ↦ !g.isEmpty, g ≠ [] :=
    fun g hg ↦ by simpa using (List.mem_filter.mp hg).2
  generalize groups.filter (fun g ↦ !g.isEmpty) = kept at hkept
  cases kept with
  | nil => rfl
  | cons g gs =>
    rw [page_of_ne_nil (by simp), intercalate_map_intercalate hkept, page_of_ne_nil]
    rw [List.flatten_cons]
    exact List.append_ne_nil_of_left_ne_nil (hkept g List.mem_cons_self) _

/-- A document without a template is the page of its pieces. -/
theorem minimal_zoneText (body : String) (chunks : Zone → List String) :
    minimal (zoneText body chunks) = page (pieces body chunks) := by
  have hzones : zoneOrder.map (zoneText body chunks) =
      (zoneOrder.map (zonePieces body chunks)).map (String.intercalate "\n\n") := by
    rw [List.map_map]
    exact List.map_congr_left fun z _ ↦ zoneText_eq body chunks z
  rw [minimal, hzones, stack_map_intercalate, pieces, List.flatMap_def]
  · rfl
  · intro g hg t ht
    obtain ⟨z, _, rfl⟩ := List.mem_map.mp hg
    exact (isFlush_of_mem_zonePieces ht).ne_empty

/-- A template that the configuration does not have is as none, but for a warning. -/
theorem assemble_of_not_mem {config : Config} {name : String} {properties : Attributes}
    (h : config.templates.lookup name = none ∨ config.templates.lookup name = some .null) :
    assemble config body chunks (.str name) properties =
      .ok (minimal (zoneText body chunks),
        ["No template named " ++ quoted name ++ "; using the minimal template"]) := by
  have hfault : (Datum.str name).keyFault? = none := rfl
  have hlookup : ((Datum.str name).text?.bind fun n ↦ config.templates.lookup n) =
      config.templates.lookup name := rfl
  have hfind : findTemplate config (.str name) = .error (.missingTemplate (.str name)) := by
    rw [findTemplate, hfault]
    dsimp only
    rw [hlookup]
    rcases h with h | h <;> rw [h]
  rw [assemble]
  · rw [hfind]
    rfl
  · exact Datum.noConfusion

/-- A document without a template, or with the name of one that the configuration does not have, is
the pieces of its zones in their order with one blank line between two and a line feed at the end:
the body and each chunk that is not blank, once. The missing template is the only warning. Chunks
may be joined in stages. -/
theorem zones_follow_each_other (config : Config) (body : String) (chunks : Zone → List String)
    (properties : Attributes) :
    (∀ t ∈ pieces body chunks, IsFlush t) ∧
      assemble config body chunks .null properties = .ok (page (pieces body chunks), []) ∧
      (∀ name : String,
        config.templates.lookup name = none ∨ config.templates.lookup name = some .null →
          assemble config body chunks (.str name) properties =
            .ok (page (pieces body chunks),
              ["No template named " ++ quoted name ++ "; using the minimal template"])) ∧
      ∀ groups : List (List String),
        joinChunks (groups.map joinChunks) = joinChunks groups.flatten := by
  refine ⟨fun t ht ↦ isFlush_of_mem_pieces ht, ?_, fun name hname ↦ ?_, joinChunks_map_joinChunks⟩
  · rw [← minimal_zoneText]
    rfl
  · rw [← minimal_zoneText]
    exact assemble_of_not_mem hname

/-- A preface in two chunks, one of them blank, stands before the body. -/
theorem zones_follow_each_other_letter :
    Config.default.templates.lookup "letter" = none ∧
      assemble Config.default "\n\nDear reader\n"
          (fun | .frontmatter => [" \n", "\nPreface"] | _ => []) (.str "letter") [] =
        .ok ("Preface\n\nDear reader\n",
          ["No template named 'letter'; using the minimal template"]) := by
  have hname : Config.default.templates.lookup "letter" = none := by decide
  have hpage : page (pieces "\n\nDear reader\n"
      (fun | .frontmatter => [" \n", "\nPreface"] | _ => [])) = "Preface\n\nDear reader\n" := by
    decide +kernel
  refine ⟨hname, ?_⟩
  rw [(zones_follow_each_other Config.default _ _ []).2.2.1 "letter" (.inl hname), hpage]
  decide +kernel

end Assembly

/-- A proper document is printed with its index, and what comes out is put together. -/
theorem print_eq {doc : Node} (hdoc : doc.isProper = true) (config : Config) : print config doc =
    match occurrence config ⟨.ofRoot 0, doc⟩ doc.start with
    | (.error e, _) => .error e
    | (.ok body, c) => do
      let (text, warnings) ←
        Assembly.assemble config (body.getD "") c.buffers.chunks config.template doc.properties
      return ⟨text, c.warnings ++ warnings⟩ := by
  have hempty : References.empty.index.HasOffsets := fun e he ↦ absurd he List.not_mem_nil
  rw [print, Render.document, (References.add?_of_isProper hempty hdoc (.ofRoot 0)).1]
  show (match occurrence config ⟨.ofRoot 0, doc⟩ doc.start with
    | (.error e, _) => throw e
    | (.ok body, c) => _ : Except Failure (String × Context)) >>= _ = _
  cases occurrence config ⟨.ofRoot 0, doc⟩ doc.start with
  | mk r c =>
    cases r with
    | error e => rfl
    | ok body => exact bind_assoc ..

/-- A document that has been typeset has been prepared, printed and put together. -/
theorem exists_printed_of_typeset {config : Config} {doc : Node} {t : Typescript}
    (hdoc : doc.isProper = true) (h : typeset config doc = .ok t) :
    ∃ tree body r warnings, prepare? doc = .ok tree ∧ tree.isProper = true ∧
      occurrence config ⟨.ofRoot 0, tree⟩ tree.start = (.ok body, r) ∧
        Assembly.assemble config (body.getD "") r.buffers.chunks config.template
          tree.properties = .ok (t.text, warnings) := by
  obtain ⟨tree, htree, h⟩ := exists_of_bind_eq_ok h
  have hproper := isProper_of_prepare? hdoc htree
  rw [print_eq hproper] at h
  split at h
  · cases h
  · next body r hrun =>
    obtain ⟨⟨text, warnings⟩, htext, h⟩ := exists_of_bind_eq_ok h
    obtain rfl := Except.ok.inj h
    exact ⟨tree, body, r, warnings, htree, hproper, hrun, htext⟩

/-- A document without a template is what the zones hold when it has been printed. -/
theorem exists_run_of_typeset {config : Config} {doc : Node} {t : Typescript}
    (htemplate : config.template = .null) (hdoc : doc.isProper = true)
    (h : typeset config doc = .ok t) :
    ∃ tree body r, prepare? doc = .ok tree ∧ tree.isProper = true ∧
      occurrence config ⟨.ofRoot 0, tree⟩ tree.start = (.ok body, r) ∧
        t.text = Assembly.minimal (Assembly.zoneText (body.getD "") r.buffers.chunks) := by
  obtain ⟨tree, body, r, warnings, htree, hproper, hrun, htext⟩ := exists_printed_of_typeset hdoc h
  rw [htemplate] at htext
  exact ⟨tree, body, r, htree, hproper, hrun, (Prod.mk.inj (Except.ok.inj htext)).1.symm⟩

end Typeset

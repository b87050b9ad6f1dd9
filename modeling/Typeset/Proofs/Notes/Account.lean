import Typeset.Proofs.Notes.Keeping
import Typeset.Proofs.Notes.Tally

/-!
# Accounts

While a document is printed, the notes on their way up the tree and those of the ledger account for
all numbers of footnotes that have been given. The notes of the ledger stand in the buffers and in
the rows held back. If the document leaves notes where they stand, the ledger only has notes that
are lost; if it keeps their order, the others have their numbers in order; and if it keeps them all,
there is none in the ledger.
-/

namespace Typeset

open Action Context Latex Render Text

/-! ## What leaves notes alone -/

namespace Context

/-- Two contexts are the same for notes: all but references, names of languages and warnings. -/
structure SameNotes (c d : Context) : Prop where
  index : d.references.index = c.references.index
  ancestors : d.ancestors = c.ancestors
  slots : d.slots = c.slots
  heldRows : d.heldRows = c.heldRows
  footnotes : d.footnotes = c.footnotes
  footnoteCount : d.footnoteCount = c.footnoteCount

namespace SameNotes

variable {c d e : Context}

theorem refl (c : Context) : SameNotes c c := ⟨rfl, rfl, rfl, rfl, rfl, rfl⟩

theorem trans (h : SameNotes c d) (h' : SameNotes d e) : SameNotes c e where
  index := h'.index.trans h.index
  ancestors := h'.ancestors.trans h.ancestors
  slots := h'.slots.trans h.slots
  heldRows := h'.heldRows.trans h.heldRows
  footnotes := h'.footnotes.trans h.footnotes
  footnoteCount := h'.footnoteCount.trans h.footnoteCount

theorem buffers (h : SameNotes c d) : d.buffers = c.buffers := congrArg Slots.buffers h.slots

theorem reservations (h : SameNotes c d) : d.reservations = c.reservations :=
  congrArg Slots.reservations h.slots

end SameNotes

end Context

/-- The action leaves all that has to do with notes alone. -/
def Action.KeepsNotes {α : Type} (ix : LinkIndex) (x : Action α) : Prop :=
  ∀ c, c.references.index = ix → ∀ a d, x c = (.ok a, d) → SameNotes c d

theorem Action.KeepsNotes.plain (ix : LinkIndex) : Plain ix fun _ x ↦ KeepsNotes ix x where
  read _ := by
    intro c _ a d hrun
    rw [(Prod.mk.inj hrun).2.symm]
    exact .refl c
  bindOfResult hx hk := by
    intro c hc b d hrun
    obtain ⟨a, c', ha, hrun⟩ := ok_of_bind hrun
    have hsame := hx c hc a c' ha
    exact hsame.trans (hk c a hc (by rw [ha]) c' (hsame.index.trans hc) b d hrun)
  warn _ := by
    intro c _ a d hrun
    cases hrun
    exact ⟨rfl, rfl, rfl, rfl, rfl, rfl⟩
  nameOfLanguage config language := by
    intro c _ a d hrun
    obtain ⟨name, languages, hname⟩ := exists_nameOfLanguage_eq config language c
    rw [hname] at hrun
    cases hrun
    exact ⟨rfl, rfl, rfl, rfl, rfl, rfl⟩
  reference p := by
    intro c _ a d hrun
    cases hrun
    exact ⟨References.index_reference c.references p, rfl, rfl, rfl, rfl, rfl⟩
  labelWith force o := by
    intro c _ a d hrun
    obtain ⟨-, rfl⟩ := ok_of_labelWith hrun
    exact ⟨References.index_label c.references o force, rfl, rfl, rfl, rfl, rfl⟩

/-! ## Mirrors -/

namespace Ledger

/-- The notes of the ledger stand in the buffers and the rows of the context. -/
structure Mirrors (l : Ledger) (c : Context) : Prop where
  chunks : ∀ z, StandInAll (l.chunks z) (c.buffers.chunks z)
  rows : ∀ table, StandInAll (l.rowsOf table) (c.rowsOf table)
  keys : (c.heldRows.map (·.1)).Nodup

/-- No note of the ledger waits to be put somewhere. -/
structure IsStill (l : Ledger) : Prop where
  chunks : ∀ z, ∀ ns ∈ l.chunks z, ns = []
  held : ∀ e ∈ l.held, e.2 = []

variable {l : Ledger} {c d : Context} {z : Zone} {ns : List Note} {t : String}

theorem Mirrors.lose (h : l.Mirrors c) (ns : List Note) : (l.lose ns).Mirrors c :=
  ⟨h.chunks, h.rows, h.keys⟩

theorem IsStill.lose (h : l.IsStill) (ns : List Note) : (l.lose ns).IsStill := ⟨h.chunks, h.held⟩

theorem IsStill.setChunks (h : l.IsStill) {nss : List (List Note)} (hnss : ∀ ns ∈ nss, ns = []) :
    (l.setChunks z nss).IsStill where
  chunks := by
    intro z' ns hns
    simp only [Ledger.setChunks] at hns
    split at hns
    · exact hnss ns hns
    · exact h.chunks z' ns hns
  held := h.held

theorem IsStill.flatten_rowsOf (h : l.IsStill) (table : Place) : (l.rowsOf table).flatten = [] := by
  rw [List.flatten_eq_nil_iff]
  intro ns hns
  obtain ⟨e, he, rfl⟩ := List.mem_map.mp hns
  exact h.held e (List.mem_filter.mp he).1

/-- The mirror of a context with other chunks for one zone. -/
theorem Mirrors.setChunks (h : l.Mirrors c) {nss : List (List Note)} {ts : List String}
    {s : Slots} (hnss : StandInAll nss ts)
    (hchunks : ∀ z', s.buffers.chunks z' = if z' = z then ts else c.buffers.chunks z') :
    (l.setChunks z nss).Mirrors (c.withSlots s) where
  chunks := by
    intro z'
    show StandInAll _ (s.buffers.chunks z')
    simp only [hchunks, Ledger.setChunks]
    split
    · exact hnss
    · exact h.chunks z'
  rows := h.rows
  keys := h.keys

theorem Mirrors.append (h : l.Mirrors c) (hz : z ≠ .body) (ht : StandIn ns t) :
    (l.setChunks z (l.chunks z ++ [ns])).Mirrors (c.withSlots (c.slots.append z t)) := by
  refine h.setChunks ((h.chunks z).append (.cons ht .nil)) fun z' ↦ ?_
  show (c.buffers.append z t).chunks z' = _
  rw [Slots.chunks_append _ hz]
  split
  · next heq => rw [heq]
  · rfl

theorem Mirrors.fill (h : l.Mirrors c) (hz : z ≠ .body) (ht : StandIn ns t) (p : Place)
    (slot : Nat) :
    (l.setChunks z ((l.chunks z).set slot ns)).Mirrors (c.withSlots (c.slots.fill z p slot t)) := by
  refine h.setChunks ((h.chunks z).set ht slot) fun z' ↦ ?_
  rw [Slots.chunks_fill _ hz]
  split
  · next heq =>
    rw [heq]
    rfl
  · rfl

theorem rowsOf_hold (l : Ledger) (table table' : Place) (ns : List Note) :
    (l.hold table ns).rowsOf table' =
      if table' = table then l.rowsOf table' ++ [ns] else l.rowsOf table' := by
  unfold rowsOf hold
  rw [List.filter_append, List.map_append]
  split
  · next heq => simp [heq]
  · next hne => simp [Ne.symm hne]

theorem rowsOf_release (l : Ledger) (table table' : Place) :
    (l.release table).rowsOf table' = if table' = table then [] else l.rowsOf table' := by
  unfold rowsOf release
  rw [List.filter_filter]
  split
  · next heq => simp [heq]
  · next hne =>
    congr 2
    funext e
    by_cases he : e.1 = table' <;> simp [he, hne]

end Ledger

namespace Ledger

variable {l : Ledger} {c d : Context}

theorem Mirrors.hold (h : l.Mirrors c) {ns : List Note} {t : String} (ht : StandIn ns t)
    (table : Place) : (l.hold table ns).Mirrors (Context.hold table t c).2 where
  chunks := h.chunks
  rows := by
    intro table'
    rw [rowsOf_hold, Context.rowsOf_hold]
    split
    · exact (h.rows table').append (.cons ht .nil)
    · exact h.rows table'
  keys := Assoc.nodup_put h.keys _

theorem Mirrors.release (h : l.Mirrors c) (table : Place) :
    (l.release table).Mirrors (Context.release table c).2 where
  chunks := h.chunks
  rows := by
    intro table'
    rw [rowsOf_release, Context.rowsOf_release h.keys]
    split
    · exact .nil
    · exact h.rows table'
  keys := h.keys.sublist ((Assoc.remove_sublist table _).map _)

theorem Mirrors.same (h : l.Mirrors c) (hsame : SameNotes c d) : l.Mirrors d where
  chunks := by
    rw [hsame.buffers]
    exact h.chunks
  rows := by
    unfold Context.rowsOf
    rw [hsame.heldRows]
    exact h.rows
  keys := by
    rw [hsame.heldRows]
    exact h.keys

end Ledger

/-! ## Accounts -/

/-- A table with a footer stands at the place. -/
def Node.HasFooter (config : Config) (doc : Node) (p : Place) : Prop :=
  ∃ table ∈ doc.occurrences (.ofRoot 0), table.place = p ∧
    (Table.geometry config table.node).footer.isSome = true

/-- The uses of footnotes that are on their way up the tree and the ledger account for the context
of a document, with some occurrences around. -/
structure Account (config : Config) (doc : Node) (above : List Occurrence) (us : List Use)
    (c : Context) (l : Ledger) : Prop where
  index : c.references.index = doc.index
  ancestors : c.ancestors = above
  above : ∀ u ∈ above, u ∈ doc.occurrences (.ofRoot 0)
  mirrors : l.Mirrors c
  footers : ∀ p, c.rowsOf p ≠ [] → doc.HasFooter config p
  count : c.footnoteCount = c.footnotes.length
  tally : Tally c.footnotes (us ++ l.kept.map Note.toUse)
  still : doc.keepsPlace config = true → l.IsStill
  inOrder : doc.keepsOrder config = true → (∀ n ∈ l.lost, n.isNew = false) →
    (us.filter (·.isNew)).map Use.entry = c.footnotes
  whole : doc.keepsNotes config = true → l.kept = []

/-- The uses of some notes that are new. -/
theorem Note.filter_isNew (ns : List Note) :
    (ns.map Note.toUse).filter (·.isNew) = (ns.filter fun n ↦ n.isNew).map Note.toUse := by
  rw [List.filter_map]
  rfl

namespace Account

variable {config : Config} {doc : Node} {above : List Occurrence} {us : List Use} {c d : Context}
  {l : Ledger}

theorem same (h : Account config doc above us c l) (hsame : SameNotes c d) :
    Account config doc above us d l where
  index := hsame.index.trans h.index
  ancestors := hsame.ancestors.trans h.ancestors
  above := h.above
  mirrors := h.mirrors.same hsame
  footers := by
    unfold Context.rowsOf
    rw [hsame.heldRows]
    exact h.footers
  count := by rw [hsame.footnoteCount, hsame.footnotes, h.count]
  tally := hsame.footnotes ▸ h.tally
  still := h.still
  inOrder := hsame.footnotes ▸ h.inOrder
  whole := h.whole

theorem of_above (h : Account config doc above us c l) {above' : List Occurrence}
    (habove : ∀ u ∈ above', u ∈ doc.occurrences (.ofRoot 0)) :
    Account config doc above' us { c with ancestors := above' } l :=
  { h with
    ancestors := rfl
    above := habove
    mirrors := ⟨h.mirrors.chunks, h.mirrors.rows, h.mirrors.keys⟩ }

/-- Some notes go on in another order, and the others are lost. -/
theorem rearrange {ns ms lost : List Note}
    (h : Account config doc above (us ++ ns.map Note.toUse) c l) (hperm : ns.Perm (ms ++ lost))
    (horder : doc.keepsOrder config = true → (∀ n ∈ lost, n.isNew = false) →
      ns.filter (·.isNew) = ms.filter (·.isNew))
    (hwhole : doc.keepsNotes config = true → lost = []) :
    Account config doc above (us ++ ms.map Note.toUse) c (l.lose lost) where
  index := h.index
  ancestors := h.ancestors
  above := h.above
  mirrors := h.mirrors.lose lost
  footers := h.footers
  count := h.count
  tally := by
    refine h.tally.perm (List.perm_iff_count.mpr fun u ↦ ?_)
    have hcount := (hperm.map Note.toUse).count_eq u
    simp only [Ledger.kept_lose, List.map_append, List.count_append] at hcount ⊢
    omega
  still hkeeps := (h.still hkeeps).lose lost
  inOrder := by
    intro hkeeps hlost
    have hnew := horder hkeeps fun n hn ↦ hlost n (List.mem_append_right _ hn)
    have hself := h.inOrder hkeeps fun n hn ↦ hlost n (List.mem_append_left _ hn)
    rw [List.filter_append, Note.filter_isNew] at hself ⊢
    rwa [← hnew]
  whole := by
    intro hkeeps
    rw [Ledger.kept_lose, h.whole hkeeps, hwhole hkeeps, List.append_nil]

/-- Some notes leave their way up the tree for the ledger, or the other way round. -/
theorem exchange {vs : List Use} {l' : Ledger} (h : Account config doc above us c l)
    (hindex : d.references.index = c.references.index) (habove : d.ancestors = c.ancestors)
    (hfootnotes : d.footnotes = c.footnotes) (hcount : d.footnoteCount = c.footnoteCount)
    (hmirrors : l'.Mirrors d)
    (hrows : ∀ p, d.rowsOf p ≠ [] → c.rowsOf p ≠ [] ∨ doc.HasFooter config p)
    (hperm : (us ++ l.kept.map Note.toUse).Perm (vs ++ l'.kept.map Note.toUse))
    (hstill : doc.keepsPlace config = true → l'.IsStill ∧ us.length ≤ vs.length ∧
      ((∀ n ∈ l'.lost, n.isNew = false) →
        (∀ n ∈ l.lost, n.isNew = false) ∧ us.filter (·.isNew) = vs.filter (·.isNew))) :
    Account config doc above vs d l' where
  index := hindex.trans h.index
  ancestors := habove.trans h.ancestors
  above := h.above
  mirrors := hmirrors
  footers p hp := (hrows p hp).elim (h.footers p) id
  count := by rw [hcount, hfootnotes, h.count]
  tally := hfootnotes ▸ h.tally.perm hperm
  still hkeeps := (hstill hkeeps).1
  inOrder := by
    intro hkeeps hlost
    obtain ⟨hlost', hnew⟩ := (hstill (Node.keepsPlace_of_keepsOrder hkeeps)).2.2 hlost
    rw [hfootnotes, ← hnew]
    exact h.inOrder hkeeps hlost'
  whole := by
    intro hkeeps
    have hlength := hperm.length_eq
    have hle := (hstill (Node.keepsPlace_of_keepsNotes hkeeps)).2.1
    simp only [h.whole hkeeps, List.length_append, List.length_map, List.length_nil] at hlength
    exact List.eq_nil_of_length_eq_zero (by omega)

/-- One more use of a footnote, with the number that it has or the next one. -/
theorem number {source : Source} {number : Nat} {isNew : Bool}
    (h : Account config doc above us c l)
    (hrun : nextFootnote (.str source.key) c = (.ok (number, isNew), d)) :
    Account config doc above (us ++ [⟨source, number, isNew⟩]) d l := by
  have hswap : ∀ u : Use, (us ++ l.kept.map Note.toUse ++ [u]).Perm
      (us ++ [u] ++ l.kept.map Note.toUse) := by
    intro u
    rw [List.append_assoc, List.append_assoc]
    exact List.perm_append_comm.append_left us
  have hmirrors := h.mirrors
  rcases nextFootnote_cases source.key c with ⟨number', hlookup, heq⟩ | ⟨hlookup, heq⟩
  · rw [heq] at hrun
    cases hrun
    refine { h with tally := ?_, inOrder := fun hkeeps hlost ↦ ?_ }
    · exact (h.tally.again rfl (Assoc.mem_of_lookup hlookup)).perm (hswap _)
    · simpa using h.inOrder hkeeps hlost
  · rw [heq] at hrun
    cases hrun
    refine ⟨h.index, h.ancestors, h.above, ⟨hmirrors.chunks, hmirrors.rows, hmirrors.keys⟩,
      h.footers, ?_, ?_, h.still, fun hkeeps hlost ↦ ?_, h.whole⟩
    · simp [h.count]
    · exact (h.tally.next (u := ⟨source, _, true⟩) rfl hlookup (by rw [h.count])).perm
        (hswap _)
    · simp [h.inOrder hkeeps hlost, Use.entry]

/-- Some notes are put into the buffer of a zone with a text in which they stand. -/
theorem route {ns : List Note} {z : Zone} {t : String} {p : Place}
    (h : Account config doc above (us ++ ns.map Note.toUse) c l) (hz : z ≠ .body)
    (ht : StandIn ns t) (hnone : doc.keepsPlace config = true → ns = [])
    (hrun : Context.route z t (some p) c = (.ok (), d)) :
    Account config doc above us d (l.route z (c.reservations.lookup p) ns) := by
  have hperm : ∀ {slot : Option Nat}, (∀ k, slot = some k → k < (l.chunks z).length) →
      (us ++ ns.map Note.toUse ++ l.kept.map Note.toUse).Perm
        (us ++ (l.route z slot ns).kept.map Note.toUse) := by
    intro slot hslot
    have hkept := ((l.perm_kept_route hslot ns).map Note.toUse).symm
    rw [List.map_append] at hkept
    rw [List.append_assoc]
    exact (List.perm_append_comm.trans hkept).append_left us
  rcases route_cases hz t p c with ⟨hlookup, heq⟩ | ⟨slot, hlookup, hslot, heq⟩ | heq
  · obtain ⟨-, rfl⟩ := Prod.mk.inj (heq.symm.trans hrun)
    rw [hlookup]
    refine h.exchange rfl rfl rfl rfl (h.mirrors.append hz ht) (fun _ hp ↦ .inl hp) (hperm nofun)
      fun hkeeps ↦ ?_
    obtain rfl := hnone hkeeps
    have hcleared : (l.setChunks z (l.chunks z ++ [[]])).IsStill :=
      (h.still hkeeps).setChunks fun ns hns ↦
        (List.mem_append.mp hns).elim ((h.still hkeeps).chunks z ns) List.mem_singleton.mp
    exact ⟨hcleared, by simp, fun hlost ↦ ⟨hlost, by simp⟩⟩
  · obtain ⟨-, rfl⟩ := Prod.mk.inj (heq.symm.trans hrun)
    rw [hlookup]
    have hlength : slot < (l.chunks z).length := by rwa [(h.mirrors.chunks z).length_eq]
    refine h.exchange rfl rfl rfl rfl ((h.mirrors.fill hz ht p slot).lose _)
      (fun _ hp ↦ .inl hp) (hperm fun k hk ↦ Option.some.inj hk ▸ hlength) fun hkeeps ↦ ?_
    obtain rfl := hnone hkeeps
    have hcleared : (l.setChunks z ((l.chunks z).set slot [])).IsStill :=
      (h.still hkeeps).setChunks fun ns hns ↦
        (List.mem_or_eq_of_mem_set hns).elim ((h.still hkeeps).chunks z ns) id
    refine ⟨hcleared.lose _, by simp, fun hlost ↦ ⟨fun n hn ↦ ?_, by simp⟩⟩
    exact hlost n (List.mem_append_left _ hn)
  · cases heq.symm.trans hrun

/-- Some notes are held back with a row in which they stand, for a table with a footer. -/
theorem hold {ns : List Note} {table : Place} {t : String}
    (h : Account config doc above (us ++ ns.map Note.toUse) c l) (ht : StandIn ns t)
    (hfooter : doc.HasFooter config table) (hnone : doc.keepsPlace config = true → ns = [])
    (hrun : Context.hold table t c = (.ok (), d)) :
    Account config doc above us d (l.hold table ns) := by
  obtain rfl : (Context.hold table t c).2 = d := congrArg Prod.snd hrun
  refine h.exchange rfl rfl rfl rfl (h.mirrors.hold ht table) (fun p hp ↦ ?_) ?_ fun hkeeps ↦ ?_
  · rw [Context.rowsOf_hold] at hp
    split at hp
    · next heq => exact .inr (heq ▸ hfooter)
    · exact .inl hp
  · have hkept := ((l.perm_kept_hold table ns).map Note.toUse).symm
    rw [List.map_append] at hkept
    rw [List.append_assoc]
    exact (List.perm_append_comm.trans hkept).append_left us
  · obtain rfl := hnone hkeeps
    refine ⟨⟨(h.still hkeeps).chunks, fun e he ↦ ?_⟩, by simp, fun hlost ↦ ⟨hlost, by simp⟩⟩
    rcases List.mem_append.mp he with he | he
    · exact (h.still hkeeps).held e he
    · rw [List.mem_singleton.mp he]

/-- The notes in the rows held back for a table go on their way with it. -/
theorem release (h : Account config doc above us c l) (table : Place) :
    Account config doc above (us ++ ((l.rowsOf table).flatten).map Note.toUse)
      (Context.release table c).2 (l.release table) := by
  refine h.exchange rfl rfl rfl rfl (h.mirrors.release table) (fun p hp ↦ ?_) ?_ fun hkeeps ↦ ?_
  · rw [Context.rowsOf_release h.mirrors.keys] at hp
    split at hp
    · exact absurd rfl hp
    · exact .inl hp
  · have hkept := ((l.perm_kept_release table).map Note.toUse).symm
    rw [List.map_append] at hkept
    rw [List.append_assoc]
    exact (hkept.trans List.perm_append_comm).append_left us
  · have hstill := h.still hkeeps
    refine ⟨⟨hstill.chunks, fun e he ↦ ?_⟩, by simp, fun hlost ↦ ⟨hlost, ?_⟩⟩
    · exact hstill.held e (List.mem_filter.mp he).1
    · simp [hstill.flatten_rowsOf table]

end Account

end Typeset

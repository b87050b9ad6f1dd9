import Mathlib.Data.List.Perm.Basic
import Mathlib.Data.List.Nodup
import Typeset.Proofs.Render.PassedOn

/-!
# Notes and where they are

What a reference to a footnote prints is a note: the text of the footnote or its mark. A note goes
up the tree with the text in which it stands until it is put into the buffer of a zone, held back
with a row of a table, or lost below a node that does not pass it on. A ledger tells where all of
these are.
-/

namespace Typeset

open Latex Render Text

/-! ## Notes -/

/-- What a footnote is numbered by: its label, or the token of the reference if that has none. -/
inductive Source where
  | label (name : String)
  | anonymous (token : String)
deriving DecidableEq, Repr

/-- The key under which a context has the number. -/
def Source.key : Source → String
  | .label name => name
  | .anonymous token => "anonymous:" ++ token

/-- A use of a footnote, with its number. It is new if the number was given with it. -/
structure Use where
  source : Source
  number : Nat
  isNew : Bool
deriving DecidableEq, Repr

namespace Use

/-- What a context knows of a use. -/
def entry (u : Use) : Datum × Nat := (.str u.source.key, u.number)

/-- The text of the footnote is printed and not its mark: for a label only with the first use. -/
def printsText (u : Use) : Bool :=
  match u.source with
  | .label _ => u.isNew
  | .anonymous _ => true

theorem printsText_of_isNew {u : Use} (h : u.isNew = true) : u.printsText = true := by
  unfold printsText
  split
  · exact h
  · rfl

end Use

/-- A use of a footnote, with the text that the footnote has there. -/
structure Note extends Use where
  text : String
deriving DecidableEq, Repr

namespace Note

/-- The command that is printed. -/
def command (n : Note) : String :=
  if n.printsText then footnoteText n.text else "\\footnotemark[" ++ toString n.number ++ "]"

/-- The note is the text of a label's footnote. -/
def isTextOf (label : String) (n : Note) : Bool := n.source = .label label && n.isNew

theorem isCompact_command (n : Note) : IsCompact n.command := by
  unfold command
  split
  · refine ⟨⟨'\\', "footnote\x7b".toList ++ (strip n.text).toList ++ ['\x7d'], ?_, by decide⟩,
      ⟨'\x7d', '\\' :: ("footnote\x7b".toList ++ (strip n.text).toList), ?_, by decide⟩⟩ <;>
    simp [footnoteText, Latex.command, braced]
  · refine ⟨⟨'\\', "footnotemark[".toList ++ (toString n.number).toList ++ [']'], ?_, by decide⟩,
      ⟨']', '\\' :: ("footnotemark[".toList ++ (toString n.number).toList), ?_, by decide⟩⟩ <;>
    simp

theorem areCompact_commands (ns : List Note) : AreCompact (ns.map command) := by
  intro w hw
  obtain ⟨n, -, rfl⟩ := List.mem_map.mp hw
  exact n.isCompact_command

end Note

/-- The notes stand in the text in their order. -/
def StandIn (ns : List Note) (t : String) : Prop := Carries (ns.map Note.command) t.toList

/-- The notes stand in the texts in their order, in each text its own ones. -/
abbrev StandInAll (nss : List (List Note)) (ts : List String) : Prop := List.Forall₂ StandIn nss ts

theorem StandIn.nil (t : String) : StandIn [] t := Carries.nil _

theorem StandInAll.carriesAll {nss : List (List Note)} {ts : List String} (h : StandInAll nss ts) :
    CarriesAll (nss.flatten.map Note.command) ts := by
  induction h with
  | nil => exact .nil
  | cons hfirst _ ih =>
    rw [List.flatten_cons, List.map_append]
    exact .cons hfirst ih

theorem StandInAll.append {nss mss : List (List Note)} {ts us : List String}
    (h : StandInAll nss ts) (h' : StandInAll mss us) : StandInAll (nss ++ mss) (ts ++ us) :=
  List.rel_append h h'

theorem StandInAll.set {nss : List (List Note)} {ts : List String} (h : StandInAll nss ts)
    {ns : List Note} {t : String} (ht : StandIn ns t) (k : Nat) :
    StandInAll (nss.set k ns) (ts.set k t) := by
  induction h generalizing k with
  | nil => exact .nil
  | cons hfirst hrest ih =>
    cases k with
    | zero => exact .cons ht hrest
    | succ k => exact .cons hfirst (ih k)

/-! ## The ledger -/

/-- Where the notes are that stand in no text that is still passed up: in the chunks of the zones,
in the rows held back for tables, or nowhere. -/
structure Ledger where
  chunks : Zone → List (List Note)
  held : List (Place × List Note)
  lost : List Note

namespace Ledger

/-- The ledger in which nothing is noted yet. -/
def empty : Ledger := ⟨fun _ ↦ [], [], []⟩

/-- The notes in the rows held back for a table. -/
def rowsOf (l : Ledger) (table : Place) : List (List Note) :=
  (l.held.filter fun e ↦ e.1 = table).map (·.2)

/-- The ledger after some notes are lost. -/
def lose (ns : List Note) (l : Ledger) : Ledger := { l with lost := l.lost ++ ns }

/-- The ledger with other chunks for a zone. -/
def setChunks (z : Zone) (chunks : List (List Note)) (l : Ledger) : Ledger :=
  { l with chunks := fun z' ↦ if z' = z then chunks else l.chunks z' }

/-- The ledger after a slot has been held in the buffer of a zone. -/
def reserve (z : Zone) (l : Ledger) : Ledger := l.setChunks z (l.chunks z ++ [[]])

/-- The ledger after a text with some notes has been put into the buffer of a zone: into a slot,
whose notes are lost if there are any, or behind all chunks. -/
def route (z : Zone) (slot : Option Nat) (ns : List Note) (l : Ledger) : Ledger :=
  match slot with
  | some slot => (l.setChunks z ((l.chunks z).set slot ns)).lose ((l.chunks z)[slot]?.getD [])
  | none => l.setChunks z (l.chunks z ++ [ns])

/-- The ledger after a row with some notes has been held back for a table. -/
def hold (table : Place) (ns : List Note) (l : Ledger) : Ledger :=
  { l with held := l.held ++ [(table, ns)] }

/-- The ledger after the rows held back for a table have been let go. -/
def release (table : Place) (l : Ledger) : Ledger :=
  { l with held := l.held.filter fun e ↦ e.1 ≠ table }

/-- All notes of the ledger. -/
def kept (l : Ledger) : List Note :=
  Zone.all.flatMap (fun z ↦ (l.chunks z).flatten) ++ l.held.flatMap (·.2) ++ l.lost

variable (l : Ledger) {z : Zone} {ns : List Note}

@[simp] theorem lose_nil : l.lose [] = l := by
  rw [lose, List.append_nil]

theorem kept_lose (ns : List Note) : (l.lose ns).kept = l.kept ++ ns :=
  (List.append_assoc _ _ _).symm

theorem perm_kept_setChunks (z : Zone) (chunks : List (List Note)) :
    ((l.setChunks z chunks).kept ++ (l.chunks z).flatten).Perm (l.kept ++ chunks.flatten) := by
  rw [List.perm_iff_count]
  intro n
  cases z <;> simp [kept, setChunks, Zone.all, List.count_append] <;> omega

theorem perm_kept_reserve (z : Zone) : (l.reserve z).kept.Perm l.kept := by
  have h := l.perm_kept_setChunks z (l.chunks z ++ [[]])
  rw [List.flatten_append, List.flatten_singleton, List.append_nil] at h
  exact (List.perm_append_right_iff _).mp h

theorem perm_flatten_set {nss : List (List Note)} {k : Nat} (hk : k < nss.length) (ns : List Note) :
    ((nss.set k ns).flatten ++ nss[k]?.getD []).Perm (nss.flatten ++ ns) := by
  rw [List.perm_iff_count]
  intro n
  induction nss generalizing k with
  | nil => cases hk
  | cons ms nss ih =>
    cases k with
    | zero =>
      simp [List.count_append]
      omega
    | succ k =>
      have ih := ih (Nat.lt_of_succ_lt_succ hk)
      simp only [List.count_append, List.set_cons_succ, List.flatten_cons, List.getElem?_cons_succ]
        at ih ⊢
      omega

/-- The notes that are put into a zone are kept, if the slot is there. -/
theorem perm_kept_route {slot : Option Nat} (hslot : ∀ k, slot = some k → k < (l.chunks z).length)
    (ns : List Note) : (l.route z slot ns).kept.Perm (l.kept ++ ns) := by
  cases slot with
  | none =>
    have h := l.perm_kept_setChunks z (l.chunks z ++ [ns])
    rw [List.flatten_append, List.flatten_singleton, List.perm_iff_count] at h
    rw [List.perm_iff_count]
    intro n
    have h := h n
    simp only [List.count_append, route] at h ⊢
    omega
  | some k =>
    have hset := perm_flatten_set (hslot k rfl) ns
    have h := l.perm_kept_setChunks z ((l.chunks z).set k ns)
    rw [List.perm_iff_count] at hset h ⊢
    intro n
    have hset := hset n
    have h := h n
    simp only [List.count_append, route, kept_lose] at hset h ⊢
    omega

theorem perm_kept_hold (table : Place) (ns : List Note) :
    (l.hold table ns).kept.Perm (l.kept ++ ns) := by
  rw [List.perm_iff_count]
  intro n
  simp only [kept, hold, List.flatMap_append, List.flatMap_singleton, List.count_append]
  omega

/-- The notes in the rows that are let go are no longer in the ledger. -/
theorem perm_kept_release (table : Place) :
    ((l.release table).kept ++ (l.rowsOf table).flatten).Perm l.kept := by
  have hheld : ((l.held.filter fun e ↦ e.1 ≠ table).flatMap (·.2) ++
      (l.rowsOf table).flatten).Perm (l.held.flatMap (·.2)) := by
    rw [rowsOf, ← List.flatMap_def, ← List.flatMap_append]
    refine (List.perm_append_comm.trans ?_).flatMap_right _
    simpa using List.filter_append_perm (fun e : Place × List Note ↦ decide (e.1 = table)) l.held
  rw [List.perm_iff_count] at hheld ⊢
  intro n
  have hheld := hheld n
  simp only [kept, release, List.count_append] at hheld ⊢
  omega

end Ledger

end Typeset

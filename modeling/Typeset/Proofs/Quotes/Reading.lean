import Typeset.Quotes

/-!
# Reading over a piece of a text

A reader goes over a piece of a text and comes out behind it. What it reads there depends on the
piece and on the character behind the piece, so pieces can be read one after the other. Over a piece
without straight quotes the reader changes nothing but its place.
-/

namespace Typeset.Quotes

variable {r s t : Reader} {next : Option Char} {c : Char} {cs ds : List Char} {mark : Mark}
  {ms ms' : List Mark}

/-- A reader that has `next` behind a piece of a text goes over the piece, with these marks. -/
inductive Reads (next : Option Char) : Reader → List Char → List Mark → Reader → Prop
  | nil (r : Reader) : Reads next r [] [] r
  | cons {r s t : Reader} {c : Char} {cs : List Char} {mark : Mark} {ms : List Mark} :
      r.step c (cs.head?.or next) = some (mark, s) → Reads next s cs ms t →
        Reads next r (c :: cs) (mark :: ms) t

namespace Reads

theorem single (h : r.step c next = some (mark, s)) : Reads next r [c] [mark] s := .cons h (.nil s)

/-- Two pieces are read one after the other. -/
theorem append (h : Reads (ds.head?.or next) r cs ms s) (h' : Reads next s ds ms' t) :
    Reads next r (cs ++ ds) (ms ++ ms') t := by
  induction h with
  | nil => exact h'
  | cons hstep _ ih =>
    rw [List.cons_append, List.cons_append]
    refine .cons ?_ (ih h')
    rwa [List.head?_append, Option.or_assoc]

/-- Reading goes on behind a piece. -/
theorem read_append {rest : List Char} (h : Reads rest.head? r cs ms s) :
    read r (cs ++ rest) = (ms ++ (read s rest).1, (read s rest).2) := by
  induction h with
  | nil => rfl
  | cons hstep _ ih =>
    rw [List.cons_append, read, List.head?_append, hstep]
    simp only [ih, List.cons_append]

end Reads

/-! ## Pieces without quotes -/

/-- The character is no straight quote. -/
def IsPlain (c : Char) : Prop := c ≠ '"' ∧ c ≠ '\''

theorem forall_isPlain (hdouble : '"' ∉ cs) (hsingle : '\'' ∉ cs) : ∀ c ∈ cs, IsPlain c :=
  fun _ hc ↦ ⟨ne_of_mem_of_not_mem hc hdouble, ne_of_mem_of_not_mem hc hsingle⟩

namespace Reader

/-- The reader behind a piece of a text that ends with no opening quote and leaves open what was
open before. -/
def beyond (r : Reader) (cs : List Char) : Reader :=
  ⟨r.position + cs.length, cs.getLast?, false, r.pending⟩

theorem beyond_beyond (r : Reader) (cs : List Char) (hds : ds ≠ []) :
    (r.beyond cs).beyond ds = r.beyond (cs ++ ds) := by
  simp only [beyond, List.length_append, List.getLast?_append, Nat.add_assoc]
  rw [List.getLast?_eq_some_getLast hds, Option.some_or]

theorem step_of_isPlain (h : IsPlain c) (r : Reader) (next : Option Char) :
    r.step c next = some (.plain c, r.beyond [c]) := by
  rw [step, if_neg h.1, if_neg h.2]
  rfl

end Reader

/-- A piece without quotes is read as it is. -/
theorem Reads.plain (hne : cs ≠ []) (hcs : ∀ c ∈ cs, IsPlain c) (r : Reader) :
    Reads next r cs (cs.map .plain) (r.beyond cs) := by
  induction cs generalizing r with
  | nil => exact absurd rfl hne
  | cons c cs ih =>
    have hstep := Reader.step_of_isPlain (hcs c List.mem_cons_self) r (cs.head?.or next)
    cases cs with
    | nil => exact .single hstep
    | cons d cs =>
      have hrest := ih (List.cons_ne_nil d cs) (fun c hc ↦ hcs c (.tail _ hc)) (r.beyond [c])
      rw [Reader.beyond_beyond r [c] (List.cons_ne_nil d cs)] at hrest
      exact .cons hstep hrest

end Typeset.Quotes

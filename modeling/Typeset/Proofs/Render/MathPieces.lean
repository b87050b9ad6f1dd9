import Typeset.Proofs.Latex.MathMarks
import Typeset.Proofs.Render.Parts
import Typeset.Proofs.Tree.Settled

/-!
# The pieces of printed formulas

The text of a paragraph is made of pieces: what its texts, entities and formulas print, what marks
up other text, and the delimiters of the formulas that runs are printed as. Inside of a run nothing
opens another formula, and the formulas of the source stand there without their delimiters.
-/

namespace Typeset

open Action Context Latex MathRun Node Render

/-- A piece of a paragraph's text. -/
inductive MathPiece where
  /-- A text of the source. -/
  | text (content : String)
  /-- An entity of the source. -/
  | entity (latex : String)
  /-- A formula of the source. -/
  | fragment (value : String)
  /-- What opens the formula of a run. -/
  | opening
  /-- What closes the formula of a run. -/
  | closing
  /-- A part of a command or the space after a node. -/
  | markup (t : String)
deriving DecidableEq, Repr

namespace MathPiece

/-- The delimiter that the piece is. -/
def mark? : MathPiece → Option MathMark
  | .opening => some .opening
  | .closing => some .closing
  | _ => none

/-- The piece stands for a leaf of the source. -/
def isSource : MathPiece → Bool
  | .text _ | .entity _ | .fragment _ => true
  | _ => false

/-- After the piece a formula is open, if one was open before. -/
def after (inside : Bool) : MathPiece → Bool
  | .opening => true
  | .closing => false
  | _ => inside

/-- What the piece is in the text, inside of a formula or outside: texts are escaped outside, and
formulas lose their delimiters inside. -/
def print (inside : Bool) : MathPiece → String
  | .text content => if inside then content else escapeText content
  | .entity latex => latex
  | .fragment value => if inside then stripMathDelimiters value else value
  | .opening => "\\("
  | .closing => "\\)"
  | .markup t => t

/-- The text that pieces make up, beginning inside of a formula or outside. -/
def written (inside : Bool) : List MathPiece → String
  | [] => ""
  | p :: ps => p.print inside ++ written (p.after inside) ps

/-- Pieces open and close formulas in turn, beginning inside or outside of one and ending so, and
nothing else among them has a delimiter of a formula within a line. -/
inductive Leads : Bool → List MathPiece → Bool → Prop
  | nil (inside : Bool) : Leads inside [] inside
  | opening {ps : List MathPiece} {inside : Bool} : Leads true ps inside →
      Leads false (.opening :: ps) inside
  | closing {ps : List MathPiece} {inside : Bool} : Leads false ps inside →
      Leads true (.closing :: ps) inside
  | other {p : MathPiece} {ps : List MathPiece} {begins ends : Bool} : p.mark? = none →
      IsMarkFree (p.print begins).toList → Leads begins ps ends → Leads begins (p :: ps) ends

variable {p : MathPiece} {ps qs : List MathPiece} {i j k : Bool}

theorem after_of_mark? (h : p.mark? = none) : p.after i = i := by
  cases p with
  | opening | closing => cases h
  | text | entity | fragment | markup => rfl

theorem Leads.append (h : Leads i ps j) (h' : Leads j qs k) : Leads i (ps ++ qs) k := by
  induction h with
  | nil => exact h'
  | opening _ ih => exact .opening (ih h')
  | closing _ ih => exact .closing (ih h')
  | other hmark hfree _ ih => exact .other hmark hfree (ih h')

theorem Leads.markup {t : String} (h : IsMarkFree t.toList) (i : Bool) : Leads i [.markup t] i :=
  .other rfl h (.nil i)

theorem written_append (h : Leads i ps j) (qs : List MathPiece) :
    written i (ps ++ qs) = written i ps ++ written j qs := by
  induction h with
  | nil => exact String.empty_append.symm
  | opening _ ih => rw [List.cons_append, written, after, ih, written, after, String.append_assoc]
  | closing _ ih => rw [List.cons_append, written, after, ih, written, after, String.append_assoc]
  | other hmark _ _ ih =>
    rw [List.cons_append, written, after_of_mark? hmark, ih, written, after_of_mark? hmark,
      String.append_assoc]

/-- The delimiters in the text are the pieces that are ones. -/
theorem Leads.mathMarks_written (h : Leads i ps j) :
    mathMarks (written i ps).toList = ps.filterMap mark? ∧
      (written i ps).toList.getLast? ≠ some '\\' := by
  induction h with
  | nil => exact ⟨rfl, nofun⟩
  | @opening ps _ _ ih =>
    have heq : (written false (.opening :: ps)).toList = ['\\', '('] ++ (written true ps).toList := by
      rw [written, String.toList_append]
      rfl
    rw [heq, mathMarks_append (by decide), ih.1]
    exact ⟨rfl, getLast?_append_ne (by decide) ih.2⟩
  | @closing ps _ _ ih =>
    have heq : (written true (.closing :: ps)).toList = ['\\', ')'] ++ (written false ps).toList := by
      rw [written, String.toList_append]
      rfl
    rw [heq, mathMarks_append (by decide), ih.1]
    exact ⟨rfl, getLast?_append_ne (by decide) ih.2⟩
  | @other p ps i _ hmark hfree _ ih =>
    rw [written, String.toList_append, after_of_mark? hmark, mathMarks_append hfree.ending,
      hfree.marks, ih.1, List.filterMap_cons, hmark]
    exact ⟨rfl, getLast?_append_ne hfree.ending ih.2⟩

/-- Formulas that are opened and closed in turn are pairs of delimiters. -/
theorem Leads.filterMap_mark? (h : Leads i ps false) :
    ∃ n, ps.filterMap mark? =
      (if i then [MathMark.closing] else []) ++ (List.replicate n [.opening, .closing]).flatten := by
  generalize hj : false = j at h
  induction h with
  | nil inside =>
    subst hj
    exact ⟨0, rfl⟩
  | opening _ ih =>
    obtain ⟨n, hn⟩ := ih hj
    exact ⟨n + 1, by simp [mark?, hn, List.replicate_succ]⟩
  | closing _ ih =>
    obtain ⟨n, hn⟩ := ih hj
    exact ⟨n, by simp [mark?, hn]⟩
  | other hmark _ _ ih =>
    obtain ⟨n, hn⟩ := ih hj
    exact ⟨n, by rw [List.filterMap_cons, hmark, hn]⟩

end MathPiece

/-! ## Nodes of formulas -/

/-- What may stand in a paragraph whose formulas are told apart by their delimiters: texts without
backslashes, markup, scripts, and entities and formulas that keep their delimiters to
themselves. -/
def Element.IsMathProse : Element → Prop
  | .text content => '\\' ∉ content.toList
  | .entity _ latex _ _ => IsSelfContained latex.toList
  | .latexFragment value => IsFormula value
  | .bold | .italic | .subscript | .superscript => True
  | _ => False

theorem Element.IsMathProse.isBlock_eq_false {e : Element} (h : e.IsMathProse) :
    e.kind.isBlock = false := by
  cases e <;> first | rfl | cases h

theorem Element.IsMathProse.isRun_eq_false {n : Node} (h : n.element.IsMathProse) :
    isRun n = false := by
  rw [isRun, Node.kind]
  cases he : n.element <;> first | rfl | (rw [he] at h; cases h)

/-- The piece that a leaf of the source is. -/
def Node.piece? (n : Node) : Option MathPiece :=
  match n.element with
  | .text content => some (.text content)
  | .entity _ latex _ _ => some (.entity latex)
  | .latexFragment value => some (.fragment value)
  | _ => none

open MathPiece

/-- Pieces that lead on hold what nodes have of the source, in the same order, and nothing else in
them has a delimiter of a formula. -/
structure MathPiece.AreOf (inside : Bool) (ns : List Node) (ps : List MathPiece) : Prop where
  leads : Leads inside ps inside
  sources : ps.filter isSource = ns.filterMap piece?
  markup : ∀ t, .markup t ∈ ps → IsBare t.toList

/-- A node is printed as some pieces, wherever it stands inside or outside of a formula. -/
structure Node.PrintsAs (inside : Bool) (n : Node) (ps : List MathPiece) : Prop
    extends AreOf inside n.visit ps where
  run : ∀ expand p c, c.inMath = inside →
    node .default expand p n c = (.ok (some (written inside ps)), c)

/-- Nodes in a row are printed as some pieces. -/
structure Node.PrintAs (inside : Bool) (ns : List Node) (ps : List MathPiece) : Prop
    extends AreOf inside (ns.flatMap visit) ps where
  run : ∃ outputs, spaced ns outputs = written inside ps ∧ ∀ expand p b i c, c.inMath = inside →
    all .default expand p b i ns c = (.ok outputs, c)

namespace MathPiece.AreOf

variable {inside : Bool} {ns ms : List Node} {ps qs : List MathPiece}

theorem nil (inside : Bool) : AreOf inside [] [] := ⟨.nil inside, rfl, nofun⟩

theorem append (h : AreOf inside ns ps) (h' : AreOf inside ms qs) :
    AreOf inside (ns ++ ms) (ps ++ qs) where
  leads := h.leads.append h'.leads
  sources := by rw [List.filter_append, h.sources, h'.sources, List.filterMap_append]
  markup t ht := (List.mem_append.mp ht).elim (h.markup t) (h'.markup t)

/-- A part of a command or the space after a node, which stands for no node. -/
theorem ofMarkup {t : String} (hbare : IsBare t.toList) (hfree : IsMarkFree t.toList)
    (inside : Bool) : AreOf inside [] [.markup t] where
  leads := .markup hfree inside
  sources := rfl
  markup _ ht := by
    cases List.mem_singleton.mp ht
    exact hbare

/-- A leaf of the source. -/
theorem ofLeaf {n : Node} {p : MathPiece} (hp : n.piece? = some p) (hsource : p.isSource = true)
    (hfree : IsMarkFree (p.print inside).toList) : AreOf inside [n] [p] where
  leads := by
    refine .other ?_ hfree (.nil inside)
    cases p with
    | opening | closing => cases hsource
    | text | entity | fragment | markup => rfl
  sources := by
    rw [List.filter_cons_of_pos hsource, List.filterMap_cons, hp]
    rfl
  markup t ht := by
    cases List.mem_singleton.mp ht
    cases hsource

/-- A node that is no leaf has nothing of the source itself. -/
theorem cons {n : Node} (hn : n.piece? = none) (h : AreOf inside ns ps) :
    AreOf inside (n :: ns) ps :=
  { h with sources := by rw [h.sources, List.filterMap_cons, hn] }

/-- What stands between two parts of a command. -/
theorem between (h : AreOf inside ns ps) {s t : String} (hs : AreOf inside [] [.markup s])
    (ht : AreOf inside [] [.markup t]) :
    AreOf inside ns ([.markup s] ++ ps ++ [.markup t]) ∧
      written inside ([.markup s] ++ ps ++ [.markup t]) = s ++ written inside ps ++ t := by
  refine ⟨?_, ?_⟩
  · have hall := (hs.append h).append ht
    rwa [List.nil_append, List.append_nil] at hall
  · rw [written_append (hs.leads.append h.leads), written_append hs.leads]
    simp [written, print]

/-- What stands inside of the formula of a run. -/
theorem enclosed (h : AreOf true ns ps) :
    AreOf false ns ([.opening] ++ ps ++ [.closing]) ∧
      written false ([.opening] ++ ps ++ [.closing]) = "\\(" ++ written true ps ++ "\\)" := by
  have hopening : Leads false [.opening] true := .opening (.nil true)
  refine ⟨⟨(hopening.append h.leads).append (.closing (.nil false)), ?_, fun t ht ↦ ?_⟩, ?_⟩
  · rw [List.filter_append, List.filter_append, h.sources]
    exact List.append_nil _
  · refine h.markup t ?_
    simpa using ht
  · rw [written_append (hopening.append h.leads), written_append hopening]
    simp [written, print]

end MathPiece.AreOf

theorem Kind.content_eq_nothing {k : Kind} (hk : k.isBlock = false) {b : Branch}
    (hb : b ≠ .children) : k.content b = .nothing := by
  cases b with
  | children => exact absurd rfl hb
  | title | tag | caption => cases k <;> first | rfl | cases hk

namespace Node

variable {inside : Bool} {n : Node} {ns : List Node} {ps qs : List MathPiece}

/-- An inline object has nothing below it but its children. -/
theorem visit_of_inline (hn : n.isWellTyped = true) (hinline : n.isBlock = false) :
    n.visit = n :: n.children.flatMap visit := by
  have hempty : ∀ b ≠ .children, n.branch b = [] :=
    fun b hb ↦ branch_eq_nil hn (Kind.content_eq_nothing hinline hb)
  rw [visit, occurrences_eq, List.map_cons, List.map_append, List.map_append, List.map_append]
  rw [← branch_children, ← branch_title, ← branch_tag, ← branch_caption, map_node_branch,
    map_node_branch, map_node_branch, map_node_branch, hempty .title (by simp),
    hempty .tag (by simp), hempty .caption (by simp)]
  simp

theorem PrintAs.nil (inside : Bool) : PrintAs inside [] [] where
  toAreOf := .nil inside
  run := ⟨[], rfl, fun _ _ _ _ _ _ ↦ rfl⟩

theorem areOf_spaces (inside : Bool) (blank : Int) :
    AreOf inside [] [.markup (Text.spaces blank)] := by
  have hspaces : ∀ c ∈ (Text.spaces blank).toList, c = ' ' := by
    intro c hc
    rw [Text.spaces, String.toList_ofList] at hc
    exact List.eq_of_mem_replicate hc
  have hbackslash : '\\' ∉ (Text.spaces blank).toList := fun h ↦ absurd (hspaces _ h) (by decide)
  refine .ofMarkup ⟨fun h ↦ absurd (hspaces _ h) (by decide), fun c _ hin ↦ ?_⟩
    (.of_notMem hbackslash) inside
  exact hbackslash (hin.subset List.mem_cons_self)

/-- Inline objects in a row are printed one after the other, with the space after each. -/
theorem PrintAs.cons (hn : n.isProper = true) (hinline : n.isBlock = false)
    (h : PrintsAs inside n ps) (h' : PrintAs inside ns qs) :
    PrintAs inside (n :: ns) (ps ++ [.markup (Text.spaces n.postBlank)] ++ qs) where
  toAreOf := by
    have hall := (h.toAreOf.append (areOf_spaces inside n.postBlank)).append h'.toAreOf
    rwa [List.append_nil] at hall
  run := by
    obtain ⟨outputs, hspaced, hrun⟩ := h'.run
    have hblank := areOf_spaces inside n.postBlank
    refine ⟨some (written inside ps) :: outputs, ?_, fun expand p b i c hc ↦ ?_⟩
    · rw [spaced, blankAfter, hinline, if_neg Bool.false_ne_true, hspaced,
        written_append (h.leads.append hblank.leads), written_append h.leads]
      simp [written, MathPiece.print]
    · rw [all_cons hn, bind_of_ok (h.run expand _ c hc), bind_of_ok (hrun expand p b (i + 1) c hc)]
      rfl

theorem exists_printAs (h : ∀ m ∈ ns, m.isProper = true ∧ m.isBlock = false ∧
    ∃ ps, PrintsAs inside m ps) : ∃ ps, PrintAs inside ns ps := by
  induction ns with
  | nil => exact ⟨[], .nil inside⟩
  | cons n ns ih =>
    obtain ⟨hproper, hinline, ps, hps⟩ := h n List.mem_cons_self
    obtain ⟨qs, hqs⟩ := ih fun m hm ↦ h m (.tail _ hm)
    exact ⟨_, .cons hproper hinline hps hqs⟩

end Node

theorem Context.within_of_ok {α : Type} {o : Occurrence} {x : Action α} {c : Context} {a : α}
    (h : x { c with ancestors := o :: c.ancestors } =
      (.ok a, { c with ancestors := o :: c.ancestors })) : within o x c = (.ok a, c) := by
  rw [within, bind_of_ok (x := push o) rfl, bind_of_ok h]
  rfl

/-- An inline object is printed after its children, which stand in a formula if it does or if it is a
run. -/
theorem Node.run_of_transcribe {n : Node} (hn : n.isWellTyped = true) (hinline : n.isBlock = false)
    {inside : Bool} {ps : List MathPiece} (h : PrintAs (isRun n || inside) n.children ps)
    {output : String}
    (htranscribe : ∀ expand q c, c.inMath = inside →
      transcribeElement .default expand ⟨q, n⟩ ⟨"", "", "", written (isRun n || inside) ps⟩ c =
        (.ok (some output), c)) (expand : Occurrence → Action String) (p : Place) (c : Context)
    (hc : c.inMath = inside) : node .default expand p n c = (.ok (some output), c) := by
  obtain ⟨outputs, hspaced, hrun⟩ := h.run
  have hcaption : printsCaption n = false := by
    have hkind : n.kind.isBlock = false := hinline
    rw [printsCaption, isFigure]
    cases hk : n.kind <;> first | rfl | (rw [hk] at hkind; cases hkind)
  have hbelow : ({ c with ancestors := ⟨p, n⟩ :: c.ancestors } : Context).inMath =
      (isRun n || inside) := by
    rw [inMath, List.any_cons, ← hc]
    rfl
  have hchildren := within_of_ok (hrun expand p .children 0 _ hbelow)
  rw [node_eq_of_children hn (Kind.content_eq_nothing hinline (by simp))
    (Kind.content_eq_nothing hinline (by simp)) hcaption
    (zone_eq_body_of_isBlock_eq_false hinline), bind_of_ok hchildren, hspaced]
  exact htranscribe expand p c hc

namespace Render

variable {o : Occurrence} {c : Context} {inside : Bool}

theorem map_of_ok {α β : Type} {x : Action α} {c d : Context} {a : α} (f : α → β)
    (h : x c = (.ok a, d)) : (f <$> x) c = (.ok (f a), d) := by
  rw [map_eq_pure_bind, bind_of_ok h]
  rfl

theorem text_eq (ho : o.node.isProper = true) (hc : c.inMath = inside) (content : String) :
    text .default o content c = (.ok (MathPiece.print inside (.text content)), c) := by
  have hfault : o.node.textFieldFault? "content" = none := by
    rw [textFieldFault?, loose?_eq_none ho]
    rfl
  rw [text, bind_of_ok (ask_apply _ _), hc]
  cases inside with
  | true => rfl
  | false =>
    rw [if_neg Bool.false_ne_true, hfault]
    rfl

theorem byMode_eq (hc : c.inMath = inside) (inner outer : String) :
    byMode inner outer c = (.ok (if inside then inner else outer), c) := by
  rw [byMode, ask_apply, hc]

theorem markup_bold (t : String) (c : Context) :
    markup .default "bold" t c = (.ok (command "textbf" t), c) := by
  have hfill : Text.fill (command "textbf" "%s") t = command "textbf" t := fill_command (by decide) t
  rw [← hfill]
  rfl

theorem markup_italic (t : String) (c : Context) :
    markup .default "italic" t c = (.ok (command "emph" t), c) := by
  have hfill : Text.fill (command "emph" "%s") t = command "emph" t := fill_command (by decide) t
  rw [← hfill]
  rfl

end Render

/-! ## Trees of formulas -/

namespace Node

variable {n : Node} {inside : Bool} {ps : List MathPiece}

theorem areOf_command (name : String) (h : name ∈ ["textbf", "emph", "textsubscript",
    "textsuperscript"]) (inside : Bool) :
    AreOf inside [] [.markup ("\\" ++ name ++ "\x7b")] := by
  have hnames : ∀ name ∈ ["textbf", "emph", "textsubscript", "textsuperscript"],
      '$' ∉ ("\\" ++ name ++ "\x7b").toList ∧
      (['(', ')', '[', ']'].all fun c ↦ !decide (['\\', c] <:+: ("\\" ++ name ++ "\x7b").toList)) ∧
      mathMarks ("\\" ++ name ++ "\x7b").toList = [] ∧
        ("\\" ++ name ++ "\x7b").toList.getLast? ≠ some '\\' := by decide
  obtain ⟨hdollar, hsigns, hmarks, hending⟩ := hnames name h
  have hbare : ∀ c ∈ ['(', ')', '[', ']'], ¬ ['\\', c] <:+: ("\\" ++ name ++ "\x7b").toList :=
    fun c hc ↦ by simpa using List.all_eq_true.mp hsigns c hc
  exact .ofMarkup ⟨hdollar, hbare⟩ ⟨hmarks, hending⟩ inside

theorem areOf_brace (t : String) (h : t ∈ ["_\x7b", "^\x7b", "\x7d"]) (inside : Bool) :
    AreOf inside [] [.markup t] := by
  have hbraces : ∀ t ∈ ["_\x7b", "^\x7b", "\x7d"], ('$' ∉ t.toList ∧ '\\' ∉ t.toList) := by decide
  obtain ⟨hdollar, hbackslash⟩ := hbraces t h
  refine .ofMarkup ⟨hdollar, fun c _ hin ↦ ?_⟩ (.of_notMem hbackslash) inside
  exact hbackslash (hin.subset List.mem_cons_self)

theorem braced_eq (sign t : String) : sign ++ braced t = sign ++ "\x7b" ++ t ++ "\x7d" := by
  simp only [braced, String.append_assoc]

theorem command_eq (name t : String) :
    command name t = "\\" ++ name ++ "\x7b" ++ t ++ "\x7d" := by
  rw [command, braced_eq]

/-- A leaf of the source is printed as one piece. -/
theorem printsAs_leaf (hn : n.isWellTyped = true) (hinline : n.isBlock = false)
    (hleaf : n.kind.content .children = .nothing) {p : MathPiece} (hp : n.piece? = some p)
    (hsource : p.isSource = true)
    (hfree : IsMarkFree (p.print inside).toList)
    (htranscribe : ∀ expand q c, c.inMath = inside →
      transcribeElement .default expand ⟨q, n⟩ ⟨"", "", "", ""⟩ c =
        (.ok (some (p.print inside)), c)) : PrintsAs inside n [p] := by
  have hchildren : n.children = [] := branch_eq_nil (b := .children) hn hleaf
  have hwritten : written inside [p] = p.print inside := by simp [written]
  have hempty : PrintAs (isRun n || inside) n.children [] := by
    rw [hchildren]
    exact .nil _
  refine { AreOf.ofLeaf hp hsource hfree with sources := ?_, run := ?_ }
  · rw [visit_of_inline hn hinline, hchildren]
    exact (AreOf.ofLeaf hp hsource hfree).sources
  · rw [hwritten]
    exact run_of_transcribe hn hinline hempty htranscribe

/-- What stands between the parts of a command is printed between them. -/
theorem printsAs_between (hn : n.isWellTyped = true) (hinline : n.isBlock = false)
    (hrun : isRun n = false) (hp : n.piece? = none) (h : PrintAs inside n.children ps)
    {s t : String} (hs : AreOf inside [] [.markup s]) (ht : AreOf inside [] [.markup t])
    (htranscribe : ∀ expand q c contents, c.inMath = inside →
      transcribeElement .default expand ⟨q, n⟩ ⟨"", "", "", contents⟩ c =
        (.ok (some (s ++ contents ++ t)), c)) :
    PrintsAs inside n ([.markup s] ++ ps ++ [.markup t]) := by
  obtain ⟨hof, hwritten⟩ := h.toAreOf.between hs ht
  refine { toAreOf := ?_, run := ?_ }
  · rw [visit_of_inline hn hinline]
    exact hof.cons hp
  · rw [hwritten]
    have hbelow : PrintAs (isRun n || inside) n.children ps := by rwa [hrun]
    refine run_of_transcribe hn hinline hbelow fun expand q c hc ↦ ?_
    rw [hrun]
    exact htranscribe expand q c _ hc

/-- A script is a command outside of formulas, and a sign in them. -/
theorem exists_printsAs_script (hn : n.isWellTyped = true) (hinline : n.isBlock = false)
    (hrun : isRun n = false) (hp : n.piece? = none) (h : PrintAs inside n.children ps)
    (name sign : String) (hname : name ∈ ["textbf", "emph", "textsubscript", "textsuperscript"])
    (hsign : sign ++ "\x7b" ∈ ["_\x7b", "^\x7b", "\x7d"])
    (htranscribe : ∀ expand q contents,
      transcribeElement .default expand ⟨q, n⟩ ⟨"", "", "", contents⟩ =
        some <$> byMode (sign ++ braced contents) (command name contents)) :
    ∃ ps', PrintsAs inside n ps' := by
  have hclose := areOf_brace "\x7d" (by decide) inside
  cases inside with
  | true =>
    refine ⟨_, printsAs_between hn hinline hrun hp h (areOf_brace _ hsign true) hclose
      fun expand q c contents hc ↦ ?_⟩
    rw [htranscribe, ← braced_eq]
    exact map_of_ok some (byMode_eq hc _ _)
  | false =>
    refine ⟨_, printsAs_between hn hinline hrun hp h (areOf_command name hname false) hclose
      fun expand q c contents hc ↦ ?_⟩
    rw [htranscribe, ← command_eq]
    exact map_of_ok some (byMode_eq hc _ _)

/-- A run is printed as a formula, but in a formula as what it holds. -/
theorem exists_printsAs_run (hn : n.isWellTyped = true) (he : n.element = .mathRun)
    (h : PrintAs true n.children ps) : ∃ ps', PrintsAs inside n ps' := by
  have hkind : n.kind = .mathRun := by rw [kind, he, Element.kind]
  have hinline : n.isBlock = false := by rw [isBlock, hkind]; rfl
  have hrun : isRun n = true := by rw [isRun, hkind]; rfl
  have hp : n.piece? = none := by rw [piece?, he]
  have hbelow : PrintAs (isRun n || inside) n.children ps := by rwa [hrun]
  have htranscribe : ∀ expand q c, c.inMath = inside →
      transcribeElement .default expand ⟨q, n⟩ ⟨"", "", "", written (isRun n || inside) ps⟩ c =
        (.ok (some (if inside then written true ps else "\\(" ++ written true ps ++ "\\)")), c) := by
    intro expand q c hc
    simp only [transcribeElement, he, hrun, Bool.true_or]
    exact map_of_ok some (byMode_eq hc _ _)
  have hnode := run_of_transcribe hn hinline hbelow htranscribe
  cases inside with
  | true =>
    refine ⟨ps, { toAreOf := ?_, run := hnode }⟩
    rw [visit_of_inline hn hinline]
    exact h.toAreOf.cons hp
  | false =>
    obtain ⟨hof, hwritten⟩ := h.toAreOf.enclosed
    refine ⟨[.opening] ++ ps ++ [.closing], { toAreOf := ?_, run := ?_ }⟩
    · rw [visit_of_inline hn hinline]
      exact hof.cons hp
    · rw [hwritten]
      exact hnode

/-- Markup is a command. -/
theorem exists_printsAs_markup (hn : n.isWellTyped = true) (hinline : n.isBlock = false)
    (hrun : isRun n = false) (hp : n.piece? = none) (h : PrintAs inside n.children ps)
    (name : String) (hname : name ∈ ["textbf", "emph", "textsubscript", "textsuperscript"])
    {marked : String → Action String} (hmarked : ∀ t c, marked t c = (.ok (command name t), c))
    (htranscribe : ∀ expand q contents,
      transcribeElement .default expand ⟨q, n⟩ ⟨"", "", "", contents⟩ = some <$> marked contents) :
    ∃ ps', PrintsAs inside n ps' := by
  refine ⟨_, printsAs_between hn hinline hrun hp h (areOf_command name hname inside)
    (areOf_brace "\x7d" (by decide) inside) fun expand q c contents _ ↦ ?_⟩
  rw [htranscribe, ← command_eq]
  exact map_of_ok some (hmarked contents c)

theorem printsAs_text (hn : n.isWellTyped = true) {content : String}
    (he : n.element = .text content) (hprose : n.element.IsMathProse) :
    PrintsAs inside n [.text content] := by
  have hinline : n.isBlock = false := hprose.isBlock_eq_false
  rw [he] at hprose
  have hfree : IsMarkFree (MathPiece.print inside (.text content)).toList := by
    cases inside with
    | true => exact .of_notMem hprose
    | false => exact isMarkFree_escapeText content
  refine printsAs_leaf hn hinline (by rw [kind, he]; rfl) (by rw [piece?, he]) rfl hfree
    fun expand q c hc ↦ ?_
  simp only [transcribeElement, he]
  exact map_of_ok some (text_eq (o := ⟨q, n⟩) (isProper_of_isWellTyped hn) hc content)

theorem printsAs_entity (hn : n.isWellTyped = true) {name latex utf8 : String} {needsMath : Bool}
    (he : n.element = .entity name latex needsMath utf8) (hprose : n.element.IsMathProse)
    (hopens : inside = false → opens n = false) : PrintsAs inside n [.entity latex] := by
  have hinline : n.isBlock = false := hprose.isBlock_eq_false
  rw [he] at hprose
  refine printsAs_leaf hn hinline (by rw [kind, he]; rfl) (by rw [piece?, he]) rfl
    (.of_isSelfContained hprose) fun expand q c hc ↦ ?_
  have hsame : (if inside then latex else if needsMath then "\\(" ++ latex ++ "\\)" else latex) =
      latex := by
    cases inside with
    | true => rfl
    | false =>
      have hneeds := hopens rfl
      rw [opens, he] at hneeds
      dsimp only at hneeds
      rw [hneeds]
      rfl
  simp only [transcribeElement, he, loose?_eq_none (isProper_of_isWellTyped hn)]
  refine map_of_ok some ((byMode_eq hc _ _).trans ?_)
  exact congrArg (fun t ↦ (Except.ok t, c)) hsame

theorem printsAs_fragment (hn : n.isWellTyped = true) {value : String}
    (he : n.element = .latexFragment value) (hprose : n.element.IsMathProse)
    (hopens : inside = false → opens n = false) : PrintsAs inside n [.fragment value] := by
  have hinline : n.isBlock = false := hprose.isBlock_eq_false
  rw [he] at hprose
  have hfree : IsMarkFree (MathPiece.print inside (.fragment value)).toList := by
    cases inside with
    | true => exact (isBare_stripMathDelimiters hprose).2
    | false =>
      refine isMarkFree_of_not_opensInlineMath hprose ?_
      have hnot := hopens rfl
      rwa [opens, he] at hnot
  refine printsAs_leaf hn hinline (by rw [kind, he]; rfl) (by rw [piece?, he]) rfl hfree
    fun expand q c hc ↦ ?_
  simp only [transcribeElement, he]
  exact map_of_ok some (byMode_eq hc _ _)

/-- An inline object that stands in a formula, or opens none, is printed as pieces if its children
are. -/
theorem exists_printsAs_of_prose (hn : n.isWellTyped = true) (hprose : n.element.IsMathProse)
    (hopens : inside = false → opens n = false) (h : PrintAs inside n.children ps) :
    ∃ ps', PrintsAs inside n ps' := by
  have hinline : n.isBlock = false := hprose.isBlock_eq_false
  have hrun := hprose.isRun_eq_false
  cases he : n.element with
  | text content => exact ⟨_, printsAs_text hn he hprose⟩
  | entity name latex needsMath utf8 => exact ⟨_, printsAs_entity hn he hprose hopens⟩
  | latexFragment value => exact ⟨_, printsAs_fragment hn he hprose hopens⟩
  | bold =>
    exact exists_printsAs_markup hn hinline hrun (by rw [piece?, he]) h "textbf" (by decide)
      markup_bold fun expand q contents ↦ by simp only [transcribeElement, he]
  | italic =>
    exact exists_printsAs_markup hn hinline hrun (by rw [piece?, he]) h "emph" (by decide)
      markup_italic fun expand q contents ↦ by simp only [transcribeElement, he]
  | subscript =>
    exact exists_printsAs_script hn hinline hrun (by rw [piece?, he]) h "textsubscript" "_"
      (by decide) (by decide) fun expand q contents ↦ by simp only [transcribeElement, he]
  | superscript =>
    exact exists_printsAs_script hn hinline hrun (by rw [piece?, he]) h "textsuperscript" "^"
      (by decide) (by decide) fun expand q contents ↦ by simp only [transcribeElement, he]
  | _ =>
    rw [he] at hprose
    cases hprose

theorem isBlock_eq_false_of_prose (h : n.element = .mathRun ∨ n.element.IsMathProse) :
    n.isBlock = false := by
  rw [isBlock, kind]
  rcases h with hrun | hprose
  · rw [hrun, Element.kind]
    rfl
  · exact hprose.isBlock_eq_false

/-- A tree of runs and what may stand between them is printed as pieces, in a formula or outside of
formulas if nothing outside of its runs opens one. -/
theorem exists_printsAs (hn : n.isWellTyped = true)
    (hkinds : ∀ k ∈ n.visit, k.element = .mathRun ∨ k.element.IsMathProse)
    (hopens : inside = false → IsSettled n ∧ opens n = false) : ∃ ps, PrintsAs inside n ps := by
  induction n using Node.induction generalizing inside with
  | step n ih =>
    obtain ⟨hself, hbelow⟩ := forall_mem_visit_iff.mp hkinds
    have hinlines : ∀ m ∈ n.children, m.isBlock = false :=
      fun m hm ↦ isBlock_eq_false_of_prose (hbelow .children m hm m (mem_visit_self m))
    have hchildren : ∀ i, (i = false → ∀ m ∈ n.children, IsSettled m ∧ opens m = false) →
        ∃ ps, PrintAs i n.children ps := by
      intro i hi
      refine exists_printAs fun m hm ↦ ?_
      have htyped := (isWellTyped_of_mem_branch (b := .children) hn hm).2
      exact ⟨isProper_of_isWellTyped htyped, hinlines m hm,
        ih .children m hm htyped (hbelow .children m hm) fun hi' ↦ hi hi' m hm⟩
    rcases hself with hrun | hprose
    · obtain ⟨ps, hps⟩ := hchildren true nofun
      exact exists_printsAs_run hn hrun hps
    · obtain ⟨ps, hps⟩ := hchildren inside fun hinside m hm ↦ by
        obtain ⟨hsettled, -⟩ := hopens hinside
        cases hsettled with
        | run hrun => exact absurd hrun (by simp [hprose.isRun_eq_false])
        | node _ hmembers hsettled =>
          exact ⟨hsettled .children m hm, (hmembers .children m hm).1⟩
      exact exists_printsAs_of_prose hn hprose (fun hinside ↦ (hopens hinside).2) hps

end Node

end Typeset

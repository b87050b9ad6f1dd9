import Typeset.Proofs.Tree.Merged
import Typeset.Table.Columns

/-!
# Trees without empty keys

An empty name, an empty custom id and an empty caption can be taken out of a tree without changing
what is read off its nodes. A name is kept where having one is what gives a node a label.
-/

namespace Typeset

open Node

/-! ## Taking empty keys out -/

/-- The element without an empty custom id. -/
def Element.unkey : Element → Element
  | .heading h => .heading { h with customId := h.customId.filter (!·.isEmpty) }
  | e => e

namespace Node

/-- The kinds of nodes that have a label just if they have a key or a caption. Figures have one or
the other anyway. -/
def labelledKinds : List Kind := [.table, .codeBlock, .specialBlock, .latexEnvironment]

/-- The node has a label even if its name is taken out, or none at all. -/
def sparesName (n : Node) : Bool :=
  n.hasCaption || !(n.isFigure || labelledKinds.contains n.kind)

mutual

/-- The tree without empty custom ids and captions, and without empty names where no label depends
on them. -/
def unkey : Node → Node
  | ⟨info, children, title, tag, caption⟩ =>
    let n : Node := ⟨info, children, title, tag, caption⟩
    let name := if n.sparesName then info.name.filter (!·.isEmpty) else info.name
    ⟨⟨info.origin, info.postBlank, name, info.attributes, info.element.unkey, info.loose⟩,
      unkeyAll children, unkeyAll title, unkeyAll? tag, (unkeyAll? caption).filter (!·.isEmpty)⟩
termination_by structural n => n

/-- Trees without empty keys. -/
def unkeyAll : List Node → List Node
  | [] => []
  | n :: ns => n.unkey :: unkeyAll ns
termination_by structural ns => ns

/-- The trees of a branch that may be missing, without empty keys. -/
def unkeyAll? : Option (List Node) → Option (List Node)
  | none => none
  | some ns => some (unkeyAll ns)
termination_by structural ns => ns

end

theorem unkeyAll_eq (ns : List Node) : unkeyAll ns = ns.map unkey := by
  induction ns with
  | nil => rfl
  | cons n ns ih => rw [unkeyAll, ih, List.map_cons]

theorem unkeyAll?_eq (ns : Option (List Node)) : unkeyAll? ns = ns.map (·.map unkey) := by
  cases ns with
  | none => rfl
  | some ns => rw [unkeyAll?, unkeyAll_eq, Option.map_some]

end Node

namespace Element

@[simp] theorem kind_unkey (e : Element) : e.unkey.kind = e.kind := by cases e <;> rfl

theorem unkey_eq_document_iff {e : Element} {properties : Attributes} :
    e.unkey = .document properties ↔ e = .document properties := by
  cases e with
  | heading h => exact iff_of_false nofun nofun
  | _ => exact Iff.rfl

end Element

namespace Node

/-! ## What stays -/

section

variable (n : Node) (ns : List Node)

/-- Only the name and the element of a node change. -/
theorem info_unkey : n.unkey.info =
    { n.info with name := n.unkey.info.name, element := n.element.unkey } := by cases n; rfl

@[simp] theorem element_unkey : n.unkey.element = n.element.unkey := by cases n; rfl

@[simp] theorem origin_unkey : n.unkey.origin = n.origin := by cases n; rfl

@[simp] theorem postBlank_unkey : n.unkey.postBlank = n.postBlank := by cases n; rfl

@[simp] theorem attributes_unkey : n.unkey.attributes = n.attributes := by cases n; rfl

theorem loose_unkey : n.unkey.info.loose = n.info.loose := by cases n; rfl

@[simp] theorem loose?_unkey (field : String) : n.unkey.loose? field = n.loose? field := by
  cases n; rfl

@[simp] theorem isLooselyTrue_unkey (field : String) :
    n.unkey.isLooselyTrue field = n.isLooselyTrue field := by
  rw [isLooselyTrue, isLooselyTrue, loose?_unkey]

theorem name_unkey : n.unkey.info.name =
    if n.sparesName then n.info.name.filter (!·.isEmpty) else n.info.name := by cases n; rfl

@[simp] theorem kind_unkey : n.unkey.kind = n.kind := by
  rw [kind, element_unkey, Element.kind_unkey]

@[simp] theorem isBlock_unkey : n.unkey.isBlock = n.isBlock := by rw [isBlock, isBlock, kind_unkey]

@[simp] theorem children_unkey : n.unkey.children = n.children.map unkey := by
  cases n
  exact unkeyAll_eq _

@[simp] theorem title_unkey : n.unkey.title = n.title.map unkey := by
  cases n
  exact unkeyAll_eq _

@[simp] theorem tag_unkey : n.unkey.tag = n.tag.map (·.map unkey) := by
  cases n
  exact unkeyAll?_eq _

@[simp] theorem caption_unkey :
    n.unkey.caption = (n.caption.map (·.map unkey)).filter (!·.isEmpty) := by
  obtain ⟨info, children, title, tag, caption⟩ := n
  rw [← unkeyAll?_eq]
  rfl

theorem getD_filter_isEmpty {α : Type} (o : Option (List α)) :
    (o.filter (!·.isEmpty)).getD [] = o.getD [] := by
  rcases o with _ | _ | ⟨a, as⟩ <;> rfl

theorem isSome_filter_isEmpty {α : Type} (o : Option (List α)) :
    (o.filter (!·.isEmpty)).isSome = !(o.getD []).isEmpty := by
  rcases o with _ | _ | ⟨a, as⟩ <;> rfl

theorem getD_map_unkey (ns : Option (List Node)) :
    (ns.map (·.map unkey)).getD [] = (ns.getD []).map unkey := by cases ns <;> rfl

@[simp] theorem branch_unkey (b : Branch) : n.unkey.branch b = (n.branch b).map unkey := by
  cases b with
  | children => exact children_unkey n
  | title => exact title_unkey n
  | tag => rw [branch, branch, tag_unkey, getD_map_unkey]
  | caption => rw [branch, branch, caption_unkey, getD_filter_isEmpty, getD_map_unkey]

@[simp] theorem hasCaption_unkey : n.unkey.hasCaption = n.hasCaption := by
  have hcaption := branch_unkey n .caption
  rw [branch, branch] at hcaption
  rw [hasCaption, hasCaption, MathRun.isEmpty_getD, MathRun.isEmpty_getD, hcaption,
    List.isEmpty_map, isLooselyTrue_unkey]

theorem any_filter_isEmpty (o : Option String) :
    (o.filter (!·.isEmpty)).any (!·.isEmpty) = o.any (!·.isEmpty) := by
  cases o with
  | none => rfl
  | some t => cases h : t.isEmpty <;> simp [Option.filter, h]

@[simp] theorem hasName_unkey : n.unkey.hasName = n.hasName := by
  rw [hasName, hasName, name_unkey, isLooselyTrue_unkey]
  split
  · rw [any_filter_isEmpty]
  · rfl

@[simp] theorem isBlankText_unkey : n.unkey.isBlankText = n.isBlankText := by
  rw [isBlankText, isBlankText, element_unkey]
  cases n.element <;> rfl

@[simp] theorem isImageLink_unkey : n.unkey.isImageLink = n.isImageLink := by
  rw [isImageLink, isImageLink, element_unkey, children_unkey, isLooselyTrue_unkey,
    List.isEmpty_map]
  cases n.element <;> rfl

@[simp] theorem isImage_unkey : n.unkey.isImage = n.isImage := by
  rw [isImage, isImage, kind_unkey, isImageLink_unkey]

theorem filter_isBlankText_unkey : (ns.map unkey).filter (fun m ↦ !m.isBlankText) =
    (ns.filter fun m ↦ !m.isBlankText).map unkey := by
  rw [List.filter_map]
  exact congrArg _ (List.filter_congr fun m _ ↦ congrArg _ (isBlankText_unkey m))

theorem sole?_map_unkey :
    MathRun.sole? (ns.map unkey) = (MathRun.sole? ns).map unkey := by
  rw [MathRun.sole?, MathRun.sole?, filter_isBlankText_unkey]
  generalize ns.filter (fun m ↦ !m.isBlankText) = ms
  rcases ms with _ | ⟨m, _ | ⟨k, ks⟩⟩ <;> rfl

theorem any_isImage_sole?_unkey :
    (MathRun.sole? (ns.map unkey)).any isImage = (MathRun.sole? ns).any isImage := by
  rw [sole?_map_unkey]
  cases MathRun.sole? ns with
  | none => rfl
  | some m => exact isImage_unkey m

@[simp] theorem isFigure_unkey : n.unkey.isFigure = n.isFigure := by
  rw [isFigure, isFigure, kind_unkey, hasCaption_unkey, hasName_unkey,
    MathRun.isSome_standaloneImage?, MathRun.isSome_standaloneImage?, children_unkey,
    any_isImage_sole?_unkey]

@[simp] theorem labelPrefix_unkey : n.unkey.labelPrefix = n.labelPrefix := by
  rw [labelPrefix, labelPrefix, element_unkey, isFigure_unkey]
  cases n.element <;> rfl

@[simp] theorem zone_unkey : n.unkey.zone = n.zone := by
  rw [zone, zone, element_unkey]
  cases n.element <;> rfl

@[simp] theorem isOrderedList_unkey : n.unkey.isOrderedList = n.isOrderedList := by
  rw [isOrderedList, isOrderedList, element_unkey]
  cases n.element <;> rfl

@[simp] theorem plainText_unkey : n.unkey.plainText = n.plainText := by
  induction n using Node.induction with
  | step n ih =>
    have hchildren : plainTexts (n.children.map unkey) = plainTexts n.children := by
      have ih := ih .children
      rw [branch] at ih
      generalize n.children = ns at ih ⊢
      induction ns with
      | nil => rfl
      | cons m ms ihms =>
        rw [List.map_cons, plainTexts, plainTexts, ih m List.mem_cons_self,
          ihms fun k hk ↦ ih k (.tail _ hk)]
    obtain ⟨info, children, title, tag, caption⟩ := n
    rw [unkey, plainText, plainText, unkeyAll_eq, hchildren]
    cases info.element <;> rfl

@[simp] theorem plainTexts_unkey : plainTexts (ns.map unkey) = plainTexts ns := by
  induction ns with
  | nil => rfl
  | cons m ms ih => rw [List.map_cons, plainTexts, plainTexts, plainText_unkey, ih]

end

end Node

/-! ## Tables -/

namespace Table

variable (n : Node) (ns : List Node)

theorem rowClass_unkey : rowClass n.unkey = rowClass n := by
  rw [rowClass, rowClass, rowKind?, rowKind?, Node.element_unkey]
  cases n.element <;> rfl

theorem filter_rowClass_unkey (p : RowClass → Bool) :
    (ns.map Node.unkey).filter (fun n ↦ p (rowClass n)) =
      (ns.filter fun n ↦ p (rowClass n)).map Node.unkey := by
  rw [List.filter_map]
  exact congrArg _ (List.filter_congr fun m _ ↦ congrArg p (rowClass_unkey m))

theorem dataRows_unkey : dataRows n.unkey = (dataRows n).map Node.unkey := by
  rw [dataRows, Node.children_unkey]
  exact filter_rowClass_unkey n.children (· == .data)

theorem colgroups_unkey : colgroups n.unkey = (colgroups n).map Node.unkey := by
  rw [colgroups, Node.children_unkey]
  exact filter_rowClass_unkey n.children (· == .colgroup)

theorem widest_unkey : widest (ns.map Node.unkey) = widest ns := by
  rw [widest, widest, List.map_map]
  refine congrArg (List.foldl max 0) (List.map_congr_left fun m _ ↦ ?_)
  rw [Function.comp, Node.children_unkey, List.length_map]

theorem groupsFrom_unkey (start : Option Nat) (next : Nat) :
    groupsFrom start next (ns.map Node.unkey) = groupsFrom start next ns := by
  induction ns generalizing start next with
  | nil => rfl
  | cons m ms ih =>
    rw [List.map_cons, groupsFrom, groupsFrom, rowClass_unkey]
    cases rowClass m <;> simp only [ih]

theorem rowIndices_unkey (next : Nat) :
    rowIndices next (ns.map Node.unkey) = rowIndices next ns := by
  induction ns generalizing next with
  | nil => rfl
  | cons m ms ih =>
    rw [List.map_cons, rowIndices, rowIndices, isData, isData, rowClass_unkey, ih, ih]

theorem textAt_unkey (column : Nat) : textAt n.unkey column = textAt n column := by
  rw [textAt, textAt, Node.children_unkey, List.getElem?_map, Option.map_map]
  refine congrArg (fun t ↦ Option.getD t "") (congrArg (fun f ↦ Option.map f _) (funext fun m ↦ ?_))
  rw [Function.comp, cellText, cellText, Node.children_unkey, Node.plainTexts_unkey]

theorem markedColumns_unkey (mark : String) :
    markedColumns mark n.unkey = markedColumns mark n := by
  rw [markedColumns, markedColumns, colgroups_unkey, widest_unkey]
  refine List.filter_congr fun column _ ↦ ?_
  rw [List.any_map]
  exact congrArg (fun f ↦ List.any _ f) (funext fun m ↦ by rw [Function.comp, textAt_unkey])

theorem cellWidth_unkey : cellWidth n.unkey = cellWidth n := by
  rw [cellWidth, cellWidth, Node.element_unkey, Node.loose?_unkey]
  cases n.element <;> rfl

theorem geometry_unkey (config : Config) : geometry config n.unkey = geometry config n := by
  have hwidths : (((dataRows n).map Node.unkey).head?.map fun row ↦ row.children.map cellWidth) =
      (dataRows n).head?.map fun row ↦ row.children.map cellWidth := by
    rw [List.head?_map, Option.map_map]
    refine congrArg (fun f ↦ Option.map f _) (funext fun row ↦ ?_)
    rw [Function.comp, Node.children_unkey, List.map_map]
    exact List.map_congr_left fun m _ ↦ cellWidth_unkey m
  simp only [geometry, dataRows_unkey, hwidths, List.length_map, widest_unkey, Node.children_unkey,
    groupsFrom_unkey, rowIndices_unkey, markedColumns_unkey, headerEnabled, footerEnabled,
    Node.attributes_unkey]
  rfl

theorem rowsBelowHeader_unkey (g : Geometry) :
    rowsBelowHeader g n.unkey = (rowsBelowHeader g n).map Node.unkey := by
  rw [rowsBelowHeader, rowsBelowHeader, Node.children_unkey, List.zip_map_left, List.filter_map,
    List.map_map, List.map_map]
  rfl

theorem columnSpec_unkey (g : Geometry) : columnSpec g n.unkey = columnSpec g n := by
  have htexts : ∀ column, columnTexts (rowsBelowHeader g n.unkey) column =
      columnTexts (rowsBelowHeader g n) column := by
    intro column
    rw [columnTexts, columnTexts, rowsBelowHeader_unkey, List.map_map]
    exact congrArg _ (List.map_congr_left fun m _ ↦ textAt_unkey m column)
  simp only [columnSpec, columnWord, alignments, htexts, Node.attributes_unkey]

end Table

/-! ## Faults -/

namespace Node

variable (n : Node) (ns : List Node)

@[simp] theorem textFault?_unkey : n.unkey.textFault? = n.textFault? := by
  rw [textFault?, textFault?, element_unkey]
  cases n.element <;> rfl

@[simp] theorem childrenFault?_unkey : n.unkey.childrenFault? = n.childrenFault? := by
  rw [childrenFault?, childrenFault?, loose?_unkey]

@[simp] theorem secondaryFault?_unkey (b : Branch) :
    n.unkey.secondaryFault? b = n.secondaryFault? b := by
  rw [secondaryFault?, secondaryFault?, loose?_unkey]

@[simp] theorem imageLinkFault?_unkey : n.unkey.imageLinkFault? = n.imageLinkFault? := by
  rw [imageLinkFault?, imageLinkFault?, element_unkey, loose?_unkey, children_unkey,
    List.isEmpty_map, isLooselyTrue_unkey]
  cases n.element <;> rfl

@[simp] theorem figureFault?_unkey : n.unkey.figureFault? = n.figureFault? := by
  have hstandalone : n.unkey.standaloneFault? = n.standaloneFault? := by
    have hfilter : (n.children.map unkey).filter (fun m ↦ !m.isBlankText) =
        (n.children.filter fun m ↦ !m.isBlankText).map unkey := filter_isBlankText_unkey _
    rw [standaloneFault?, standaloneFault?, children_unkey, hfilter, loose?_unkey]
    generalize n.children.filter (fun m ↦ !m.isBlankText) = ms
    rcases ms with _ | ⟨m, _ | ⟨k, ks⟩⟩
    · rfl
    · exact congrArg _ (imageLinkFault?_unkey m)
    · rfl
  rw [figureFault?, figureFault?, kind_unkey, hasCaption_unkey, hasName_unkey, hstandalone]

@[simp] theorem textFieldFault?_unkey (field : String) :
    n.unkey.textFieldFault? field = n.textFieldFault? field := by
  rw [textFieldFault?, textFieldFault?, loose?_unkey]

@[simp] theorem labelFault?_unkey : n.unkey.labelFault? = n.labelFault? := by
  have hprefix : n.unkey.prefixFault? = n.prefixFault? := by
    rw [prefixFault?, prefixFault?, element_unkey, figureFault?_unkey, loose?_unkey]
    cases n.element <;> rfl
  have hkey : n.unkey.keyFault? = n.keyFault? := by
    rw [keyFault?, keyFault?, element_unkey]
    simp only [textFieldFault?_unkey]
    cases n.element with
    | heading h =>
      dsimp only [Element.unkey]
      rw [any_filter_isEmpty]
    | _ => rfl
  rw [labelFault?, labelFault?, hprefix, hkey]

theorem joinFault?_unkey (pieces : Nat) :
    joinFault? pieces (ns.map unkey) = joinFault? pieces ns := by
  have htext : ∀ m : Node, m.unkey.looseText? = m.looseText? := by
    intro m
    rw [looseText?, looseText?, element_unkey]
    simp only [loose?_unkey, isLooselyTrue_unkey]
    cases m.element <;> rfl
  induction ns generalizing pieces with
  | nil => rfl
  | cons m ms ih =>
    rw [List.map_cons, joinFault?, joinFault?, htext, ih, pieceCount, pieceCount, kind_unkey]

theorem plainFault?_unkey : n.unkey.plainFault? = n.plainFault? := by
  induction n using Node.induction with
  | step n ih =>
    have hinner : innerFault? (n.children.map unkey) = innerFault? n.children := by
      have ih := ih .children
      rw [branch] at ih
      generalize n.children = ns at ih ⊢
      induction ns with
      | nil => rfl
      | cons m ms ihms =>
        rw [List.map_cons, innerFault?, innerFault?, ih m List.mem_cons_self,
          ihms fun k hk ↦ ih k (.tail _ hk)]
    obtain ⟨info, children, title, tag, caption⟩ := n
    have hreads : readsChildren info.element.unkey = readsChildren info.element := by
      cases info.element <;> rfl
    rw [unkey, plainFault?, plainFault?, unkeyAll_eq, hinner, joinFault?_unkey, hreads]
    rfl

theorem plainTextsFault?_unkey : plainTextsFault? (ns.map unkey) = plainTextsFault? ns := by
  have hinner : innerFault? (ns.map unkey) = innerFault? ns := by
    induction ns with
    | nil => rfl
    | cons m ms ih => rw [List.map_cons, innerFault?, innerFault?, plainFault?_unkey, ih]
  rw [plainTextsFault?, plainTextsFault?, hinner, joinFault?_unkey]

end Node

namespace Table

variable (n : Node)

theorem findSome?_unkey {f : Node → Option Failure} (hf : ∀ m, f m.unkey = f m) (ns : List Node) :
    (ns.map Node.unkey).findSome? f = ns.findSome? f := by
  rw [List.findSome?_map]
  exact congrArg (fun f ↦ List.findSome? f ns) (funext hf)

theorem cellsFault?_unkey : cellsFault? n.unkey = cellsFault? n := by
  have hcell : ∀ m : Node, cellFault? m.unkey = cellFault? m := by
    intro m
    rw [cellFault?, cellFault?, Node.loose?_unkey, Node.children_unkey, Node.plainTextsFault?_unkey]
  rw [cellsFault?, cellsFault?, Node.loose?_unkey, Node.children_unkey, findSome?_unkey hcell]

theorem geometry?_unkey (config : Config) : geometry? config n.unkey = geometry? config n := by
  have hfault : geometryFault? n.unkey = geometryFault? n := by
    have hlength : ∀ m : Node, (m.unkey.loose? "children").bind Datum.lengthFault? =
        (m.loose? "children").bind Datum.lengthFault? := fun m ↦ by rw [Node.loose?_unkey]
    rw [geometryFault?, geometryFault?, Node.loose?_unkey, colgroups_unkey, dataRows_unkey,
      findSome?_unkey cellsFault?_unkey, findSome?_unkey hlength]
  unfold geometry?
  rw [hfault, geometry_unkey]

theorem columnSpecFault?_unkey (g : Geometry) :
    columnSpecFault? g n.unkey = columnSpecFault? g n := by
  rw [columnSpecFault?, columnSpecFault?, alignmentsFault?, alignmentsFault?, rowsBelowHeader_unkey,
    findSome?_unkey cellsFault?_unkey, Node.attributes_unkey]

end Table

/-! ## Preparation -/

namespace MathRun

variable {n n' last : Node} {ns es earlier : List Node}

theorem isRun_unkey (n : Node) : isRun n.unkey = isRun n := by rw [isRun, isRun, kind_unkey]

theorem opens_unkey (n : Node) : opens n.unkey = opens n := by
  rw [opens, opens, element_unkey]
  cases n.element <;> rfl

theorem hasNoBlank_unkey (n : Node) : hasNoBlank n.unkey = hasNoBlank n := by
  rw [hasNoBlank, hasNoBlank, loose?_unkey, postBlank_unkey]

theorem joins_unkey (n : Node) (ns : List Node) : joins n.unkey (ns.map unkey) = joins n ns := by
  have hany : (ns.map unkey).any (fun m ↦ m.kind == n.kind) = ns.any fun m ↦ m.kind == n.kind := by
    rw [List.any_map]
    exact congrArg (fun f ↦ List.any ns f) (funext fun m ↦ by rw [Function.comp, kind_unkey])
  rw [joins, joins, opens_unkey, isScript, isScript, kind_unkey, hany]

theorem withoutBlank_unkey (hn : n.isProper = true) :
    n.unkey.withoutBlank = n.withoutBlank.unkey := by
  obtain ⟨⟨origin, postBlank, name, attributes, element, loose⟩, children, title, tag, caption⟩ := n
  obtain rfl : loose = [] := loose_eq_nil hn
  rfl

theorem close_unkey (hlast : last.isProper = true) (earlier : List Node) :
    close last.unkey (earlier.map unkey) = (close last earlier).unkey := by
  have horigin : ((last.unkey :: earlier.map unkey).getLast (by simp)).origin =
      ((last :: earlier).getLast (by simp)).origin := by
    have hmap : last.unkey :: earlier.map unkey = (last :: earlier).map unkey := rfl
    simp only [hmap, List.getLast_map, origin_unkey]
  have hchildren : (earlier.map unkey).reverse ++ [last.unkey.withoutBlank] =
      unkeyAll (earlier.reverse ++ [last.withoutBlank]) := by
    rw [unkeyAll_eq, List.map_append, List.map_reverse, withoutBlank_unkey hlast,
      List.map_singleton]
  rw [close, close, unkey, horigin, hchildren, postBlank_unkey, looseBlank, looseBlank, loose_unkey]
  simp only [Option.filter_none, ite_self]
  rfl

/-- Runs are wrapped alike whether or not keys are taken out. -/
theorem merge_extend_unkey (hns : ∀ n ∈ ns, n.isProper = true) :
    merge (ns.map unkey) = (merge ns).map unkey ∧
      ∀ last earlier, last.isProper = true →
        extend last.unkey (earlier.map unkey) (ns.map unkey) =
          (extend last earlier ns).map unkey := by
  induction ns with
  | nil =>
    refine ⟨rfl, fun last earlier hlast ↦ ?_⟩
    rw [List.map_nil, extend, extend, close_unkey hlast, List.map_singleton]
  | cons n ns ih =>
    obtain ⟨hn, hns⟩ := List.forall_mem_cons.mp hns
    obtain ⟨hmerge, hextend⟩ := ih hns
    -- what comes next opens a run of its own or stands alone, whether or not one was under way
    have hrest : (if opens n.unkey then extend n.unkey [] (ns.map unkey)
        else n.unkey :: merge (ns.map unkey)) =
          (if opens n then extend n [] ns else n :: merge ns).map unkey := by
      rw [opens_unkey]
      split
      · exact hextend n [] hn
      · rw [hmerge, List.map_cons]
    refine ⟨hrest, fun last earlier hlast ↦ ?_⟩
    have hjoins : joins n.unkey (last.unkey :: earlier.map unkey) = joins n (last :: earlier) :=
      joins_unkey n (last :: earlier)
    rw [List.map_cons, extend, extend, hasNoBlank_unkey, hjoins]
    split
    · exact hextend n (last :: earlier) hn
    · rw [List.map_cons, hrest, close_unkey hlast]

theorem merge_unkey (hns : ∀ n ∈ ns, n.isProper = true) :
    merge (ns.map unkey) = (merge ns).map unkey := (merge_extend_unkey hns).1

theorem isProper_unkey (hn : n.isProper = true) : n.unkey.isProper = true := by
  induction n using Node.induction with
  | step n ih =>
    obtain ⟨hinfo, hbelow⟩ := (isProper_iff n).mp hn
    refine (isProper_iff _).mpr ⟨?_, fun b m hm ↦ ?_⟩
    · obtain ⟨⟨origin, postBlank, name, attributes, element, loose⟩, children, title, tag,
        caption⟩ := n
      cases element <;> exact hinfo
    · rw [branch_unkey] at hm
      obtain ⟨k, hk, rfl⟩ := List.mem_map.mp hm
      exact ih b k hk (hbelow b k hk)

theorem editBranch?_of_editAll? {ns left : Option (List Node)}
    (h : editAll? (ns.getD []) = .ok (left.getD [])) (hsome : left.isSome = ns.isSome) :
    editBranch? ns = .ok left := by
  cases ns with
  | none =>
    obtain rfl : left = none := Option.isSome_eq_false_iff.mp hsome |> Option.isNone_iff_eq_none.mp
    rfl
  | some ns =>
    obtain ⟨es, rfl⟩ := Option.isSome_iff_exists.mp hsome
    rw [editBranch?, editAllM?, show editAllM editGate isRun _ ns = _ from h]
    rfl

theorem Leaves.sparesName (h : Leaves n n') (hn : n.isProper = true) :
    n'.sparesName = n.sparesName := by
  rw [Node.sparesName, Node.sparesName, h.hasCaption hn, h.isFigure hn, Node.kind, Node.element,
    h.info]

theorem info_unkey_congr (hinfo : n'.info = n.info) (hspares : n'.sparesName = n.sparesName) :
    n'.unkey.info = n.unkey.info := by
  rw [n'.info_unkey, n.info_unkey, name_unkey, name_unkey, hspares, element, hinfo]

/-- Whether the runs of the branches are wrapped first or the keys of the branches taken out does
not matter. -/
theorem unkey_wrap {e : Node} (he : ∀ b, ∀ m ∈ e.branch b, m.isProper = true) :
    (wrap e).unkey = wrap ⟨(wrap e).unkey.info, e.children.map Node.unkey, e.title.map Node.unkey,
      e.tag.map (·.map Node.unkey), (e.caption.map (·.map Node.unkey)).filter (!·.isEmpty)⟩ := by
  obtain ⟨info, children, title, tag, caption⟩ := e
  have hchildren : merge (children.map Node.unkey) = (merge children).map Node.unkey :=
    merge_unkey (he .children)
  have htitle : merge (title.map Node.unkey) = (merge title).map Node.unkey :=
    merge_unkey (he .title)
  have htag : (tag.map (·.map Node.unkey)).map merge = (tag.map merge).map (·.map Node.unkey) := by
    cases tag with
    | none => rfl
    | some ns => exact congrArg some (merge_unkey (he .tag))
  have hcaption : ((caption.map (·.map Node.unkey)).filter (!·.isEmpty)).map merge =
      ((caption.map merge).map (·.map Node.unkey)).filter (!·.isEmpty) := by
    rcases caption with _ | _ | ⟨n, ns⟩
    · rfl
    · rfl
    · have hmerge : merge ((n :: ns).map Node.unkey) = (merge (n :: ns)).map Node.unkey :=
        merge_unkey (he .caption)
      have hsome : (merge (n :: ns)).isEmpty = false := isEmpty_merge (n :: ns)
      have hkept : (some ((merge (n :: ns)).map Node.unkey)).filter (!·.isEmpty) =
          some ((merge (n :: ns)).map Node.unkey) := by
        rw [Option.filter_some, List.isEmpty_map, hsome]
        rfl
      exact (congrArg some hmerge).trans hkept.symm
  rw [wrap, wrap, unkey, unkeyAll_eq, unkeyAll_eq, unkeyAll?_eq, unkeyAll?_eq]
  simp only [hchildren, htitle, htag, hcaption]

/-- What is left of a tree without empty keys is what is left of the tree, without empty keys. -/
theorem Leaves.unkey (h : Leaves n n') (hn : n.isProper = true) : Leaves n.unkey n'.unkey := by
  induction n using Node.induction generalizing n' with
  | step n ih =>
    have hunkeyed := isProper_unkey hn
    have hbelow := ((isProper_iff n).mp hn).2
    cases hrun : isRun n with
    | true =>
      obtain rfl := h.eq_of_isRun hrun
      exact edit?_of_isRun ((isRun_unkey n).trans hrun)
    | false =>
      have hinfo := h.info
      have hspares := h.sparesName hn
      obtain ⟨e, rfl, hleaves, htag, hcaption⟩ := h.exists_wrap hn hrun
      have hgate : ∀ b, editGate b n.unkey = .ok () := by
        intro b
        refine editGate_eq_ok ?_
        rw [editFault?, textFault?_eq_none hunkeyed, loose?_eq_none hunkeyed]
        rfl
      have hall : ∀ b,
          editAll? ((n.branch b).map Node.unkey) = .ok ((e.branch b).map Node.unkey) := by
        intro b
        refine editAll?_of_forall₂ ?_ ?_
        · exact List.forall_mem_map.mpr fun m hm ↦ isProper_unkey (hbelow b m hm)
        · rw [List.forall₂_map_left_iff, List.forall₂_map_right_iff]
          exact forall₂_imp_of_mem (hleaves b) fun m hm k hmk ↦ ih b m hm hmk (hbelow b m hm)
      -- an empty caption is left empty, so it is missing on both sides or on neither
      have hcaptioned : editBranch? n.unkey.caption =
          .ok ((e.caption.map (·.map Node.unkey)).filter (!·.isEmpty)) := by
        rw [caption_unkey]
        refine editBranch?_of_editAll? ?_ ?_
        · rw [getD_filter_isEmpty, getD_filter_isEmpty, getD_map_unkey, getD_map_unkey]
          exact hall .caption
        · rw [isSome_filter_isEmpty, isSome_filter_isEmpty, getD_map_unkey, getD_map_unkey,
            List.isEmpty_map, List.isEmpty_map]
          exact congrArg (!·) (isEmpty_of_forall₂ (hleaves .caption))
      have htagged : editBranch? n.unkey.tag = .ok (e.tag.map (·.map Node.unkey)) := by
        rw [tag_unkey]
        refine editBranch?_of_editAll? ?_ ?_
        · rw [getD_map_unkey, getD_map_unkey]
          exact hall .tag
        · rw [Option.isSome_map, Option.isSome_map, htag]
      have he : ∀ b, ∀ m ∈ e.branch b, m.isProper = true := fun b ↦
        forall_mem_of_forall₂ (hleaves b) fun m hm k hmk ↦ hmk.isProper (hbelow b m hm)
      rw [Leaves, edit?_of_not_isRun ((isRun_unkey n).trans hrun), children_unkey, title_unkey,
        show editAll? (n.children.map Node.unkey) = _ from hall .children,
        show editAll? (n.title.map Node.unkey) = _ from hall .title, htagged, hcaptioned,
        unkey_wrap he, info_unkey_congr hinfo hspares]
      simp only [hgate]
      rfl

/-- Without empty keys a document is prepared as it is with them. -/
theorem mergeTree?_unkey (hn : n.isProper = true) (h : mergeTree? n = .ok n') :
    mergeTree? n.unkey = .ok n'.unkey := by
  have hleaves : Leaves n n' := edit?_of_mergeTree? h
  rw [mergeTree?_eq, hleaves.unkey hn]
  rfl

end MathRun

theorem Metadata.clean?_unkey (n : Node) : clean? n.unkey = Node.unkey <$> clean? n := by
  have hdocument : ∀ properties,
      n.unkey.element = .document properties ↔ n.element = .document properties := by
    intro properties
    rw [element_unkey]
    exact Element.unkey_eq_document_iff
  by_cases h : ∃ properties, n.element = .document properties
  · obtain ⟨properties, he⟩ := h
    have hclean : n.unkey.withElement (.document (properties.map cleaned)) =
        (n.withElement (.document (properties.map cleaned))).unkey := by
      obtain ⟨⟨_, _, _, _, _, _⟩, _, _, _, _⟩ := n
      obtain rfl := he
      rfl
    rw [clean?_eq he, clean?_eq ((hdocument properties).mpr he), hclean]
    cases annotated.findSome? (fault? properties) <;> rfl
  · have hother : ∀ properties, n.element ≠ .document properties := fun properties he ↦ h ⟨_, he⟩
    rw [clean?_eq_ok hother, clean?_eq_ok fun properties he ↦
      hother properties ((hdocument properties).mp he)]
    rfl

/-- A proper document without its empty keys is prepared like the document. -/
theorem prepare?_unkey {doc tree : Node} (hdoc : doc.isProper = true)
    (h : prepare? doc = .ok tree) : prepare? doc.unkey = .ok tree.unkey := by
  obtain ⟨merged, hmerged, hclean⟩ := exists_of_bind_eq_ok h
  have hmerge : MathRun.mergeTree? doc.unkey = .ok merged.unkey :=
    MathRun.mergeTree?_unkey hdoc hmerged
  rw [prepare?, hmerge]
  show Metadata.clean? merged.unkey = _
  rw [Metadata.clean?_unkey, hclean]
  rfl

end Typeset

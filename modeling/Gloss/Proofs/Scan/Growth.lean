import Gloss.Proofs.Scan.Nesting
import Gloss.Proofs.Scan.Outlines

/-!
What the loop with regions grows. The children of a node cover a stretch of the source: a start that is allowed in the
node, the nearest from where the last child ends, becomes a child with the text in front of it, and a region reaches
from its start to the match of its closing pattern that is nearest from where its last child ends. While the scan goes
on, open regions and open nodes stand in step; at the end of the source each open node becomes the last child of the
node around it.
-/
namespace Gloss

open Text (Source)
open Markup (Legible Tidy escapeChars)

/-- The leaf for a stretch of the source: none if the stretch is empty. -/
def Text.Source.leaf (src : Source) (start stop : Nat) : List Node :=
  if start < stop then [.text (src.slice start stop)] else []

namespace Nested

/-- Children of a node of the given kind, all finished, that cover a stretch of the source. -/
inductive Grown (g : Grammar) (src : Source) : Kind → Nat → List Node → Nat → Prop where
  | nothing (kind : Kind) (start : Nat) : Grown g src kind start [] start
  | token {kind : Kind} {start mid : Nat} {nodes : List Node} {next : NextMatch} {e : PatternTable.Entry}
      (before : Grown g src kind start nodes mid) (nearest : g.patterns.Nearest (g.allows kind) src mid next)
      (entry : g.patterns.entries[next.entry]? = some e) (single : e.close = none) :
      Grown g src kind start
        (nodes ++ src.leaf mid next.data.start ++ [.branch e.kind (src.leaf next.data.start next.data.stop)])
        next.data.stop
  | region {kind : Kind} {start mid last : Nat} {nodes inside : List Node} {next : NextMatch}
      {e : PatternTable.Entry} {close : Pattern} {m : Match} (before : Grown g src kind start nodes mid)
      (nearest : g.patterns.Nearest (g.allows kind) src mid next)
      (entry : g.patterns.entries[next.entry]? = some e) (closes : e.close = some close)
      (filled : Grown g src e.kind next.data.stop inside last) (ends : close.findFrom? src last = some m) :
      Grown g src kind start
        (nodes ++ src.leaf mid next.data.start ++
          [.branch e.kind (src.leaf next.data.start next.data.stop ++ inside ++ src.leaf last m.stop)])
        m.stop

/-- Children of a node of the given kind that cover the source from an offset to its end. Only the last one may be a
region that is not closed. -/
inductive Ended (g : Grammar) (src : Source) : Kind → Nat → List Node → Prop where
  | rest {kind : Kind} {start mid : Nat} {nodes : List Node} (before : Grown g src kind start nodes mid) :
      Ended g src kind start (nodes ++ src.leaf mid src.size)
  | unclosed {kind : Kind} {start mid : Nat} {nodes inside : List Node} {next : NextMatch} {e : PatternTable.Entry}
      (before : Grown g src kind start nodes mid) (nearest : g.patterns.Nearest (g.allows kind) src mid next)
      (entry : g.patterns.entries[next.entry]? = some e) (region : e.close.isSome)
      (filled : Ended g src e.kind next.data.stop inside) :
      Ended g src kind start
        (nodes ++ src.leaf mid next.data.start ++ [.branch e.kind (src.leaf next.data.start next.data.stop ++ inside)])

section Rendering

variable {g : Grammar} {src : Source} {wrap : Kind → String → String} {kind : Kind} {start stop : Nat}
  {nodes : List Node}

theorem legible_leaf (wrap : Kind → String → String) (boundary : src.isBoundary start) (le : start ≤ stop) :
    Legible (Node.renderAll wrap (src.leaf start stop)).toList (escapeChars (src.between start stop)) := by
  unfold Source.leaf
  split
  · have text : (Node.renderAll wrap [.text (src.slice start stop)]).toList = escapeChars (src.between start stop) := by
      simp [Node.renderAll, Node.render, Markup.escape, Source.between]
    rw [text]
    exact .of_plain (Markup.not_mem_escapeChars (.inl rfl) _)
  · obtain rfl : start = stop := by omega
    rw [Source.between_self boundary]
    exact .nil

/-- The wrapping of nodes puts nothing around markup but a tag. -/
def Wraps (g : Grammar) (wrap : Kind → String → String) : Prop :=
  ∀ e ∈ g.patterns.entries, ∀ (markup : String) (shown : List Char),
    Legible markup.toList shown → Legible (wrap e.kind markup).toList shown

/-- A child behind others shows, with the text in front of it, what follows. -/
theorem Wraps.child (wraps : Wraps g wrap) {mid : Nat} {next : NextMatch} {e : PatternTable.Entry} {inside : List Node}
    (nearest : g.patterns.Nearest (g.allows kind) src mid next) (entry : g.patterns.entries[next.entry]? = some e)
    (first : src.isBoundary start) (here : src.isBoundary mid) (last : src.isBoundary stop) (le : start ≤ mid)
    (within : next.data.start ≤ stop)
    (before : Legible (Node.renderAll wrap nodes).toList (escapeChars (src.between start mid)))
    (filled : Legible (Node.renderAll wrap inside).toList (escapeChars (src.between next.data.start stop))) :
    Legible (Node.renderAll wrap (nodes ++ src.leaf mid next.data.start ++ [.branch e.kind inside])).toList
      (escapeChars (src.between start stop)) := by
  obtain ⟨above, spans⟩ := nearest.bounds
  have child : Legible (Node.renderAll wrap [.branch e.kind inside]).toList
      (escapeChars (src.between next.data.start stop)) := by
    simpa [Node.renderAll, Node.render] using wraps e (List.mem_of_getElem? entry) _ _ filled
  have shown := (before.append (legible_leaf wrap here above)).append child
  simp only [← Markup.escapeChars_append] at shown
  rw [Source.between_append first here spans.start le above,
    Source.between_append first spans.start last (Nat.le_trans le above) within] at shown
  simpa using shown

/-- Finished children show the stretch that they cover. -/
theorem Grown.legible (wraps : Wraps g wrap) (h : Grown g src kind start nodes stop) (boundary : src.isBoundary start) :
    start ≤ stop ∧ src.isBoundary stop ∧
      Legible (Node.renderAll wrap nodes).toList (escapeChars (src.between start stop)) := by
  induction h with
  | nothing kind start =>
    rw [Source.between_self boundary]
    exact ⟨Nat.le_refl _, boundary, .nil⟩
  | @token kind start mid nodes next e before nearest entry single ih =>
    obtain ⟨le, here, legible⟩ := ih boundary
    obtain ⟨above, spans⟩ := nearest.bounds
    have low := spans.le
    exact ⟨by omega, spans.stop, wraps.child nearest entry boundary here spans.stop le low legible
      (legible_leaf wrap spans.start low)⟩
  | @region kind start mid last nodes inside next e close m before nearest entry closes filled ends ih ihInside =>
    obtain ⟨le, here, legible⟩ := ih boundary
    obtain ⟨above, spans⟩ := nearest.bounds
    have low := spans.le
    obtain ⟨leInside, hereInside, legibleInside⟩ := ihInside spans.stop
    obtain ⟨a, b, marks, occurs, behind, _⟩ := Pattern.findFrom?_some ends
    have lowEnd := occurs.spans.le
    rw [← occurs.start] at behind
    have within := ((legible_leaf wrap spans.start low).append legibleInside).append
      (legible_leaf wrap hereInside (show last ≤ m.stop by omega))
    simp only [← Markup.escapeChars_append] at within
    rw [Source.between_append spans.start spans.stop hereInside low leInside,
      Source.between_append spans.start hereInside occurs.spans.stop (by omega) (by omega)] at within
    exact ⟨by omega, occurs.spans.stop, wraps.child nearest entry boundary here occurs.spans.stop le (by omega) legible
      (by simpa using within)⟩

/-- Children up to the end of the source show all that is left of it. -/
theorem Ended.legible (wraps : Wraps g wrap) (h : Ended g src kind start nodes) (boundary : src.isBoundary start) :
    Legible (Node.renderAll wrap nodes).toList (escapeChars (src.between start src.size)) := by
  induction h with
  | @rest kind start mid nodes before =>
    obtain ⟨le, here, legible⟩ := before.legible wraps boundary
    have bound := Source.isBoundary_le here
    have shown := legible.append (legible_leaf wrap here bound)
    rw [← Markup.escapeChars_append, Source.between_append boundary here src.isBoundary_size le bound] at shown
    simpa using shown
  | @unclosed kind start mid nodes inside next e before nearest entry region filled ih =>
    obtain ⟨le, here, legible⟩ := before.legible wraps boundary
    obtain ⟨above, spans⟩ := nearest.bounds
    have low := spans.le
    have bound := Source.isBoundary_le spans.stop
    have within := (legible_leaf wrap spans.start low).append (ih spans.stop)
    rw [← Markup.escapeChars_append, Source.between_append spans.start spans.stop src.isBoundary_size low bound] at within
    exact wraps.child nearest entry boundary here src.isBoundary_size le (by omega) legible (by simpa using within)

/-- Nodes are put into tags whose names stand on one line. -/
theorem wraps_of_tidy (ctx : FilterContext) (unfiltered : g.filters = [])
    (tidy : ∀ e ∈ g.patterns.entries, ∀ shown, g.displayKind e.kind = some shown → Tidy shown) :
    Wraps g (g.wrapNode ctx) := by
  intro e member markup shown inside
  simp only [Grammar.wrapNode_of_unfiltered unfiltered]
  cases display : g.displayKind e.kind with
  | none => exact inside
  | some name => exact inside.tagBlock (tidy e member name display)

end Rendering

section Recording

variable {g : Grammar} {src : Source} {o : Outline} {s : ScanState}

theorem record_leaf {start stop : Nat} (first : src.isBoundary start) (last : src.isBoundary stop)
    (le : start ≤ stop) : o.record (.raw none (src.slice start stop)) = o.addAll (src.leaf start stop) := by
  have size := Source.byteSize_between first last le
  unfold Source.leaf
  split
  · refine Outline.record_text ?_
    intro empty
    have nothing : src.between start stop = [] := by simp [Source.between, empty]
    rw [nothing, Text.byteSize_nil] at size
    omega
  · obtain rfl : start = stop := by omega
    have nothing : src.slice start start = "" := by rw [Source.slice_eq_ofList, Source.between_self first]
    rw [nothing, Outline.addAll_nil]
    simp [Outline.record, Token.raw]

/-- Open regions and open nodes in step: the children of every open node cover the source from its start up to where
the next region inside of it begins, and those of the innermost one up to the offset. -/
inductive Standing (g : Grammar) (src : Source) : List Region → Outline → Nat → Prop where
  | root {nodes : List Node} {pos : Nat} (grown : Grown g src .initial 0 nodes pos) :
      Standing g src [] (({} : Outline).addAll nodes) pos
  | inner {outer : List Region} {o : Outline} {mid pos : Nat} {next : NextMatch} {e : PatternTable.Entry} {r : Region}
      {nodes : List Node} (around : Standing g src outer o mid)
      (nearest : g.patterns.Nearest (g.allows (kindOf outer)) src mid next)
      (entry : g.patterns.entries[next.entry]? = some e) (region : e.close.isSome) (name : r.name = e.kind)
      (close : r.close = e.close) (grown : Grown g src e.kind next.data.stop nodes pos) :
      Standing g src (r :: outer)
        (((o.addAll (src.leaf mid next.data.start)).openNode e.kind).addAll
          (src.leaf next.data.start next.data.stop ++ nodes))
        pos

variable {regions outer : List Region} {pos pos' : Nat}

/-- The innermost node grows by what its children may grow by. -/
theorem Standing.grow (h : Standing g src regions o pos) {added : List Node}
    (more : ∀ start nodes, Grown g src (kindOf regions) start nodes pos →
      Grown g src (kindOf regions) start (nodes ++ added) pos') :
    Standing g src regions (o.addAll added) pos' := by
  cases h with
  | root grown =>
    rw [Outline.addAll_addAll]
    exact .root (more 0 _ grown)
  | inner around nearest entry region name close grown =>
    have grown' := more _ _ (by rw [kindOf, name]; exact grown)
    rw [kindOf, name] at grown'
    rw [Outline.addAll_addAll, List.append_assoc]
    exact .inner around nearest entry region name close grown'

/-- The innermost region is closed by the nearest match of its closing pattern. -/
theorem Standing.close {r : Region} (h : Standing g src (r :: outer) o pos) {p : Pattern} {m : Match}
    (closes : r.close = some p) (ends : p.findFrom? src pos = some m) :
    Standing g src outer (o.addAll (src.leaf pos m.stop)).closeNode m.stop := by
  cases h with
  | @inner _ o mid _ next e _ nodes around nearest entry region name close grown =>
    rw [Outline.addAll_addAll, Outline.closeNode_openNode, Outline.addAll_addAll]
    refine around.grow fun start before grownBefore => ?_
    rw [← List.append_assoc]
    exact .region grownBefore nearest entry (close ▸ closes) grown ends

/-- What one step does to the tree. Only the step that takes the rest leaves the nodes as they are open. -/
theorem Taken.standing {s' : ScanState} (h : Taken g src s s') (sound : s.cursor.Sound src) (tree : s.outline = some o)
    (standing : Standing g src s.regions o s.pos) :
    (∃ o', s'.outline = some o' ∧ Standing g src s'.regions o' s'.pos) ∨
      s'.pos = src.size ∧ s'.regions = s.regions ∧ s'.outline = some (o.addAll (src.leaf s.pos src.size)) := by
  have here : src.isBoundary s.pos := sound.here
  cases h with
  | @start next e c upcoming entry _ _ there =>
    obtain ⟨above, spans⟩ := upcoming.bounds
    have nearest : g.patterns.Nearest (g.allows (kindOf s.regions)) src s.pos next := by
      rw [← stateName_eq]
      exact upcoming
    have inside : (((o.record (.raw none (src.slice s.pos next.data.start))).openNode e.kind).record
        (.raw none (src.slice next.data.start next.data.stop))) =
        ((o.addAll (src.leaf s.pos next.data.start)).openNode e.kind).addAll
          (src.leaf next.data.start next.data.stop) := by
      rw [record_leaf here spans.start above, record_leaf spans.start spans.stop spans.le]
    refine .inl ?_
    show ∃ o', (entered src s e next.data).outline = some o' ∧
      Standing g src (entered src s e next.data).regions o' c.pos
    rw [entered_regions, there]
    cases closes : e.close with
    | none =>
      refine ⟨o.addAll (src.leaf s.pos next.data.start ++ [.branch e.kind (src.leaf next.data.start next.data.stop)]),
        ?_, standing.grow fun start before grown => ?_⟩
      · simp only [entered, closes, Option.isNone_none, if_true, ScanState.closed_outline, ScanState.record_outline,
          ScanState.opened_outline, tree, Option.map_some, regionOf]
        rw [inside, Outline.closeNode_openNode, Outline.addAll_addAll]
      · rw [← List.append_assoc]
        exact .token grown nearest entry closes
    | some close =>
      have fresh : Grown g src e.kind next.data.stop [] next.data.stop := .nothing _ _
      refine ⟨_, ?_, .inner standing nearest entry (by simp [closes]) rfl rfl fresh⟩
      simp only [entered, closes, Option.isNone_some, Bool.false_eq_true, if_false, ScanState.record_outline,
        ScanState.opened_outline, tree, Option.map_some, regionOf, List.append_nil]
      rw [inside]
  | @finish m r outer c open_ closing _ _ there =>
    obtain ⟨above, spans, _⟩ := closing_bounds closing
    obtain ⟨p, closes, found⟩ := Option.bind_eq_some_iff.mp closing
    have top : r.close = some p := by simpa [open_] using closes
    have low := spans.le
    rw [open_] at standing
    refine .inl ⟨(o.addAll (src.leaf s.pos m.stop)).closeNode, ?_, ?_⟩
    · simp only [ScanState.closed_outline, ScanState.record_outline, tree, Option.map_some]
      rw [record_leaf here spans.stop (by omega)]
    · show Standing g src ((s.record (.raw none (src.slice s.pos m.stop))).closed.regions) _ c.pos
      rw [there, ScanState.closed_regions, ScanState.record_regions, open_]
      exact standing.close top found
  | rest _ _ _ there =>
    refine .inr ⟨there, by simp, ?_⟩
    simp only [ScanState.record_outline, tree, Option.map_some]
    rw [record_leaf here src.isBoundary_size sound.le_size]

/-- At the end of the source: the innermost node has taken the rest, and regions may be open. -/
def Filled (g : Grammar) (src : Source) (s : ScanState) : Prop :=
  s.cursor.Sound src ∧ s.pos = src.size ∧
    ∃ o mid, s.outline = some (o.addAll (src.leaf mid src.size)) ∧ Standing g src s.regions o mid

/-- A loop that ends has filled the tree. -/
theorem yields_loop_filled (plain : ∀ e ∈ g.patterns.entries, g.handlers.get? e.kind = none) {fuel : Nat}
    (sound : s.cursor.Sound src) (tree : s.outline = some o) (standing : Standing g src s.regions o s.pos) :
    Yields (loop g fuel) s (fun _ s' => Filled g src s') fun _ _ => True := by
  induction fuel generalizing s o with
  | zero => trivial
  | succ fuel ih =>
    by_cases ended : s.pos = src.size
    · refine yields_loop_ended sound ended ⟨sound, ended, o, s.pos, ?_, standing⟩
      simp [Source.leaf, ended, tree]
    · have before : s.pos < src.size := Nat.lt_of_le_of_ne sound.le_size ended
      refine (yields_loop_before sound before).mpr ((yields_step plain sound).mono ?_ fun _ _ _ => trivial)
      rintro _ s' ⟨taken, _⟩
      rcases taken.standing sound tree standing with ⟨o', tree', standing'⟩ | ⟨there, regions, filled⟩
      · exact ih taken.sound tree' standing'
      · cases fuel with
        | zero => trivial
        | succ fuel =>
          exact yields_loop_ended taken.sound there ⟨taken.sound, there, o, s.pos, filled, regions ▸ standing⟩

/-- Closing what is still open makes each open node the last child of the node around it. -/
theorem Standing.closeAll (h : Standing g src regions o pos) {last : List Node}
    (ends : ∀ start nodes, Grown g src (kindOf regions) start nodes pos →
      Ended g src (kindOf regions) start (nodes ++ last)) :
    ∃ nodes, Outline.closeNode^[regions.length] (o.addAll last) = ({} : Outline).addAll nodes ∧
      Ended g src .initial 0 nodes := by
  induction h generalizing last with
  | root grown =>
    rw [Outline.addAll_addAll]
    exact ⟨_, rfl, ends _ _ grown⟩
  | @inner outer o mid pos next e r nodes around nearest entry region name close grown ih =>
    rw [kindOf, name] at ends
    rw [List.length_cons, Function.iterate_succ_apply, Outline.addAll_addAll, Outline.closeNode_openNode,
      Outline.addAll_addAll]
    refine ih fun start before grownBefore => ?_
    rw [← List.append_assoc, List.append_assoc (src.leaf next.data.start next.data.stop)]
    exact .unclosed grownBefore nearest entry region (ends _ _ grown)

/-- A scan of a source from its start that ends: it has come to the end of the source, no region is open, its markup
shows the source, and the tree it has built is one that the grammar allows. -/
theorem run_grows (g : Grammar) (src : Source) (s : ScanState) (tree : s.outline.isSome)
    (plain : ∀ e ∈ g.patterns.entries, g.handlers.get? e.kind = none) (unfiltered : g.filters = [])
    (tidy : ∀ e ∈ g.patterns.entries, ∀ shown, g.displayKind e.kind = some shown → Tidy shown) (s' : ScanState)
    (ran : run g (s.setSource src) = .ok () s') :
    s'.pos = src.size ∧ s'.depth = 0 ∧ Markup.strip (g.tagged s').1 = src.text ∧
      ∃ nodes, s'.outline = some (({} : Outline).addAll nodes) ∧ Ended g src .initial 0 nodes := by
  have sound : (s.setSource src).cursor.Sound src := Cursor.sound_ofSource src
  have empty : (s.setSource src).outline = some (({} : Outline).addAll []) := by
    obtain ⟨o, isTree⟩ := Option.isSome_iff_exists.mp tree
    simp [ScanState.setSource, ScanState.clearOutput, isTree]
  have begun : Standing g src (s.setSource src).regions (({} : Outline).addAll []) (s.setSource src).pos :=
    .root (.nothing _ _)
  have grown : Yields (run g) (s.setSource src)
      (fun _ s' => s'.pos = src.size ∧ s'.depth = 0 ∧
        ∃ nodes, s'.outline = some (({} : Outline).addAll nodes) ∧ Ended g src .initial 0 nodes) fun _ _ => True := by
    simp only [run]
    refine yields_bind.mpr (yields_get.mpr (yields_bind.mpr ?_))
    refine (yields_loop_filled plain sound empty begun).mono ?_ fun _ _ _ => trivial
    rintro _ u ⟨_, there, o, mid, filled, standing⟩
    refine yields_bind.mpr (yields_get.mpr (yields_closeAll rfl ⟨there, rfl, ?_⟩))
    obtain ⟨nodes, closed, ended⟩ := standing.closeAll fun start nodes before => Ended.rest before
    exact ⟨nodes, by simp only [filled, Option.map_some, closed], ended⟩
  simp only [Yields, ran] at grown
  obtain ⟨there, closed, nodes, outline, ended⟩ := grown
  refine ⟨there, closed, ?_, nodes, outline, ended⟩
  have rendered : (g.tagged s').1 = Node.renderAll (g.wrapNode (g.context s')) nodes := by
    simp only [Grammar.tagged, outline]
    exact Outline.collapse_addAll
  have shows := ended.legible (wraps_of_tidy (g.context s') unfiltered tidy) src.isBoundary_zero
  apply String.toList_injective
  rw [rendered, Markup.strip, String.toList_ofList, shows.stripChars, Markup.unescapeChars_escapeChars,
    src.between_whole]
  rfl

end Recording

/-- Words in parentheses, within each other. -/
def bracketed : Grammar :=
  Grammar.bare "brackets" |>.region ⟨"GROUP"⟩ (.ofText "\\(") (.ofText "\\)") |>.token ⟨"WORD"⟩ (.ofText "\\w+")
    |>.allow .initial ⟨"GROUP"⟩ |>.allow ⟨"GROUP"⟩ ⟨"GROUP"⟩ |>.allow ⟨"GROUP"⟩ ⟨"WORD"⟩

theorem run_grows_bracketed :
    ScanState.emptyTree.outline.isSome ∧
    (∀ e ∈ bracketed.patterns.entries, bracketed.handlers.get? e.kind = none) ∧ bracketed.filters = [] ∧
    (∀ e ∈ bracketed.patterns.entries, ∀ shown, bracketed.displayKind e.kind = some shown → Tidy shown) ∧
    ∃ s', run bracketed (ScanState.emptyTree.setSource (.ofString "(a (b) c")) = .ok () s' ∧
      s'.pos = 8 ∧ s'.depth = 0 ∧ Markup.strip (bracketed.tagged s').1 = "(a (b) c" ∧
      ∃ nodes, s'.outline = some (({} : Outline).addAll nodes) ∧
        Ended bracketed (.ofString "(a (b) c") .initial 0 nodes := by
  have plain : ∀ e ∈ bracketed.patterns.entries, bracketed.handlers.get? e.kind = none := fun _ _ => rfl
  have tidy : ∀ e ∈ bracketed.patterns.entries, ∀ shown, bracketed.displayKind e.kind = some shown → Tidy shown := by
    intro e member shown display
    cases display
    have names : ∀ e ∈ bracketed.patterns.entries, Tidy e.kind := by decide +kernel
    exact names e member
  have ends : (match run bracketed (ScanState.emptyTree.setSource (.ofString "(a (b) c")) with
      | .ok _ _ => true
      | .error _ _ => false) = true := by decide +kernel
  refine ⟨rfl, plain, rfl, tidy, ?_⟩
  split at ends
  · next _ s' ran => exact ⟨s', ran, run_grows bracketed (.ofString "(a (b) c") _ rfl plain rfl tidy s' ran⟩
  · cases ends

/-- A name with a line feed in it, within a region. -/
def folded : Grammar :=
  Grammar.bare "folded" |>.region ⟨"OUTER"⟩ (.ofText "\\(") (.ofText "\\)") |>.token ⟨"A\nB"⟩ (.ofText "x")
    |>.allowOnly .initial [⟨"OUTER"⟩] |>.allowOnly ⟨"OUTER"⟩ [⟨"A\nB"⟩]

/-- The tags of a region are closed and opened again at a line feed in a name inside of it, within the tag. -/
theorem tagged_folded_broken :
    (∀ e ∈ folded.patterns.entries, folded.handlers.get? e.kind = none) ∧ folded.filters = [] ∧
    (∀ e ∈ folded.patterns.entries, '<' ∉ e.kind.name.toList ∧ '>' ∉ e.kind.name.toList) ∧
    ∃ s', run folded (ScanState.emptyTree.setSource (.ofString "(x)")) = .ok () s' ∧
      Markup.strip (folded.tagged s').1 ≠ "(x)" := by
  have broken : (match run folded (ScanState.emptyTree.setSource (.ofString "(x)")) with
      | .ok _ s' => decide (Markup.strip (folded.tagged s').1 ≠ "(x)")
      | .error _ _ => false) = true := by decide +kernel
  refine ⟨fun _ _ => rfl, rfl, by decide +kernel, ?_⟩
  split at broken
  · next _ s' ran => exact ⟨s', ran, of_decide_eq_true broken⟩
  · cases broken

end Nested

end Gloss

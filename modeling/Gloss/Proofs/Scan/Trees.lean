import Gloss.Proofs.Scan.Growth
import Gloss.Proofs.Scan.Handled

/-!
Recording a source into a tree. A node is a leaf of raw text or a region of nodes, and the nodes under one another tell
a text. Open regions and open nodes stand in step, and what they hold so far tells the source up to some offset. Every
step of the loop with regions moves the cursor on or closes a region, so a scan comes to the end of any source, and the
tree that it leaves tells the source.
-/
namespace Gloss

open Text (Spot Source)
open Markup (Shows WellNamed escapeChars)

/-- The kinds that leaves and regions may have. -/
structure NodeKinds where
  leaf : Kind → Prop
  region : Kind → Prop

/-- Nodes that tell a text: plain text, leaves of text, and regions of nodes. -/
inductive Tells (kinds : NodeKinds) : List Node → List Char → Prop where
  | nil : Tells kinds [] []
  | text {ns : List Node} {a : List Char} (before : Tells kinds ns a) (text : String) :
      Tells kinds (ns ++ [.text text]) (a ++ text.toList)
  | leaf {ns : List Node} {a : List Char} {kind : Kind} (before : Tells kinds ns a) (fit : kinds.leaf kind)
      (text : String) : Tells kinds (ns ++ [.branch kind [.text text]]) (a ++ text.toList)
  | region {ns ms : List Node} {a b : List Char} {kind : Kind} (before : Tells kinds ns a) (fit : kinds.region kind)
      (inside : Tells kinds ms b) : Tells kinds (ns ++ [.branch kind ms]) (a ++ b)

/-- A wrapping of nodes that changes nothing about what they show. -/
structure NodeKinds.Wrapped (kinds : NodeKinds) (wrap : Kind → String → String) : Prop where
  leaf : ∀ kind, kinds.leaf kind → ∀ text : String,
    Shows (wrap kind (Markup.escape text)).toList (escapeChars text.toList)
  region : ∀ kind, kinds.region kind → ∀ (markup : String) (shown : List Char), Shows markup.toList shown →
    Shows (wrap kind markup).toList shown

variable {kinds : NodeKinds}

/-- Nodes are rendered as markup that shows the text that they tell. -/
theorem Tells.shows {wrap : Kind → String → String} (wrapped : kinds.Wrapped wrap) {ns : List Node} {w : List Char}
    (h : Tells kinds ns w) : Shows (Node.renderAll wrap ns).toList (escapeChars w) := by
  induction h with
  | nil => exact .nil
  | text before text ih =>
    have shown : Shows (Markup.escape text).toList (escapeChars text.toList) := by
      rw [Markup.escape, String.toList_ofList]
      exact Markup.shows_escapeChars _
    simpa [Node.renderAll, Node.render] using ih.append shown
  | leaf before fit text ih =>
    simpa [Node.renderAll, Node.render] using ih.append (wrapped.leaf _ fit text)
  | region before fit inside ih ihInside =>
    simpa [Node.renderAll, Node.render] using ih.append (wrapped.region _ fit _ _ ihInside)

/-- Open regions and open nodes in step, which tell a text with all that they hold so far. -/
inductive Outline.Tells (kinds : NodeKinds) : List Region → Outline → List Char → Prop where
  | root {ns : List Node} {w : List Char} (tells : Gloss.Tells kinds ns w) :
      Outline.Tells kinds [] (({} : Outline).addAll ns) w
  | inner {outer : List Region} {o : Outline} {r : Region} {ns : List Node} {a b : List Char}
      (around : Outline.Tells kinds outer o a) (fit : kinds.region r.name) (tells : Gloss.Tells kinds ns b) :
      Outline.Tells kinds (r :: outer) ((o.openNode r.name).addAll ns) (a ++ b)

namespace Outline.Tells

variable {regions outer : List Region} {o : Outline} {w : List Char} {r : Region} {kind : Kind} {text : String}

theorem grow (h : Outline.Tells kinds regions o w) {added : List Node} {b : List Char}
    (more : ∀ ns a, Gloss.Tells kinds ns a → Gloss.Tells kinds (ns ++ added) (a ++ b)) :
    Outline.Tells kinds regions (o.addAll added) (w ++ b) := by
  cases h with
  | root tells =>
    rw [Outline.addAll_addAll]
    exact .root (more _ _ tells)
  | inner around fit tells =>
    rw [Outline.addAll_addAll, List.append_assoc]
    exact .inner around fit (more _ _ tells)

theorem record (h : Outline.Tells kinds regions o w) {shown : Option Kind} (fit : ∀ k, shown = some k → kinds.leaf k) :
    Outline.Tells kinds regions (o.record (.raw shown text)) (w ++ text.toList) := by
  by_cases empty : text = ""
  · subst empty
    have same : o.record (.raw shown "") = o := by simp [Outline.record, Token.raw]
    rw [same]
    simpa using h
  · have any : text.isEmpty = false := by simpa using empty
    cases shown with
    | none =>
      rw [Outline.record_text empty]
      exact h.grow fun ns a tells => tells.text text
    | some kind =>
      have leaf : o.record (.raw (some kind) text) = o.addAll [.branch kind [.text text]] := by
        rw [← Outline.add_eq]
        simp only [Outline.record, Token.raw, any, Bool.false_eq_true, if_false]
      rw [leaf]
      exact h.grow fun ns a tells => tells.leaf (fit kind rfl) text

/-- A leaf may also be made by opening a node for it and closing it. -/
theorem recordWithin (h : Outline.Tells kinds regions o w) (fit : kinds.leaf kind) (some_ : text ≠ "") :
    Outline.Tells kinds regions ((o.openNode kind).record (.raw none text)).closeNode (w ++ text.toList) := by
  rw [Outline.record_text some_, Outline.closeNode_openNode]
  exact h.grow fun ns a tells => tells.leaf fit text

theorem opened (h : Outline.Tells kinds regions o w) (fit : kinds.region r.name) :
    Outline.Tells kinds (r :: regions) (o.openNode r.name) w := by
  simpa using Outline.Tells.inner h fit .nil

theorem closed (h : Outline.Tells kinds (r :: outer) o w) : Outline.Tells kinds outer o.closeNode w := by
  cases h with
  | inner around fit tells =>
    rw [Outline.closeNode_openNode]
    exact around.grow fun ns a before => before.region fit tells

/-- Closing all that is open leaves a tree that tells the same. -/
theorem closedAll (h : Outline.Tells kinds regions o w) :
    ∃ ns, Outline.closeNode^[regions.length] o = ({} : Outline).addAll ns ∧ Gloss.Tells kinds ns w := by
  induction regions generalizing o with
  | nil =>
    cases h with
    | root tells => exact ⟨_, rfl, tells⟩
  | cons r outer ih =>
    rw [List.length_cons, Function.iterate_succ_apply]
    exact ih h.closed

end Outline.Tells

/-- The source is recorded in the tree from its start up to an offset, and nothing else is. -/
structure TreeRecorded (kinds : NodeKinds) (src : Source) (upTo : Nat) (s : ScanState) : Prop where
  sound : s.cursor.Sound src
  last : src.isBoundary upTo
  tree : ∃ o, s.outline = some o ∧ o.Tells kinds s.regions (src.between 0 upTo)
  defs : ∀ name kind, s.userDefs.get? name = some kind → WellNamed kind

namespace TreeRecorded

variable {src : Source} {upTo stop : Nat} {s : ScanState}

theorem withCursor (h : TreeRecorded kinds src upTo s) {c : Cursor} (sound : c.Sound src) :
    TreeRecorded kinds src upTo { s with cursor := c } := ⟨sound, h.last, h.tree, h.defs⟩

/-- The cursor is moved to where recording has come. -/
theorem moveTo (h : TreeRecorded kinds src upTo s) {c : Cursor} (sound : c.Sound src) (here : c.pos = upTo) :
    TreeRecorded kinds src ({ s with cursor := c } : ScanState).pos { s with cursor := c } := by
  subst here
  exact h.withCursor sound

theorem nothing (src : Source) (s : ScanState) (tree : s.outline.isSome) :
    TreeRecorded kinds src 0 (s.setSource src) := by
  obtain ⟨o, isTree⟩ := Option.isSome_iff_exists.mp tree
  have empty : (s.setSource src).outline = some {} := by simp [ScanState.setSource, ScanState.clearOutput, isTree]
  refine ⟨Cursor.sound_ofSource src, src.isBoundary_zero, ⟨{}, empty, ?_⟩, fun _ _ found => by cases found⟩
  rw [Source.between_self src.isBoundary_zero]
  exact .root .nil

/-- The source up to an offset, put together from its parts. -/
theorem between_slice (h : TreeRecorded kinds src upTo s) (boundary : src.isBoundary stop) (le : upTo ≤ stop) :
    src.between 0 upTo ++ (src.slice upTo stop).toList = src.between 0 stop :=
  Source.between_append src.isBoundary_zero h.last boundary (Nat.zero_le _) le

/-- Recording what comes next. -/
theorem record (h : TreeRecorded kinds src upTo s) {kind : Option Kind} (fit : ∀ k, kind = some k → kinds.leaf k)
    (boundary : src.isBoundary stop) (le : upTo ≤ stop) :
    TreeRecorded kinds src stop (s.record (.raw kind (src.slice upTo stop))) := by
  obtain ⟨o, tree, tells⟩ := h.tree
  refine ⟨by simpa using h.sound, boundary, ⟨o.record (.raw kind (src.slice upTo stop)), by simp [tree], ?_⟩, by
    simpa using h.defs⟩
  rw [ScanState.record_regions, ← h.between_slice boundary le]
  exact tells.record fit

theorem recordPlain (h : TreeRecorded kinds src upTo s) (boundary : src.isBoundary stop) (le : upTo ≤ stop) :
    TreeRecorded kinds src stop (s.record (.raw none (src.slice upTo stop))) := h.record (by simp) boundary le

/-- Giving a name a kind changes nothing about the tree. -/
theorem define (h : TreeRecorded kinds src upTo s) (name : String) {kind : Kind} (named : WellNamed kind) :
    TreeRecorded kinds src upTo { s with userDefs := s.userDefs.put name kind } := by
  refine ⟨h.sound, h.last, h.tree, fun other k found => ?_⟩
  rcases Keyed.get?_put found with rfl | found
  · exact named
  · exact h.defs other k found

theorem closed (h : TreeRecorded kinds src upTo s) {r : Region} {outer : List Region} (open_ : s.regions = r :: outer) :
    TreeRecorded kinds src upTo s.closed := by
  obtain ⟨o, tree, tells⟩ := h.tree
  rw [open_] at tells
  refine ⟨h.sound, h.last, ⟨o.closeNode, by simp [tree], ?_⟩, h.defs⟩
  rw [ScanState.closed_regions, open_]
  exact tells.closed

/-- A slice that comes next is read and recorded. -/
theorem yields_recordSlice (h : TreeRecorded kinds src upTo s) {kind : Option Kind}
    (fit : ∀ k, kind = some k → kinds.leaf k) (boundary : src.isBoundary stop) (le : upTo ≤ stop) {act : ScanM Unit}
    {post : Unit → ScanState → Prop} {fail : ScanError → ScanState → Prop}
    (next : ∀ s', TreeRecorded kinds src stop s' → s'.cursor = s.cursor → s'.regions = s.regions →
      Yields act s' post fail) :
    Yields (do let text ← Scan.slice upTo stop; Scan.record kind text; act) s post fail := by
  refine yields_bind.mpr (yields_ofCursor.mpr (yields_bind.mpr (yields_modify.mpr ?_)))
  rw [Cursor.slice, h.sound.source]
  exact next _ (h.record fit boundary le) (by simp) (by simp)

/-- Taking a match of an entry, as a leaf or as the start of a region. -/
theorem entered (h : TreeRecorded kinds src s.pos s) {e : PatternTable.Entry} {m : Match} (spans : m.Spans src)
    (above : s.pos ≤ m.start) (any : m.start < m.stop) (leaf : e.close = none → kinds.leaf e.kind)
    (region : e.close.isSome → kinds.region e.kind) : TreeRecorded kinds src m.stop (Nested.entered src s e m) := by
  have before : TreeRecorded kinds src m.start (s.record (.raw none (src.slice s.pos m.start))) :=
    h.recordPlain spans.start above
  simp only [Nested.entered]
  generalize s.record (.raw none (src.slice s.pos m.start)) = t at before
  obtain ⟨o, tree, tells⟩ := before.tree
  have shown := before.between_slice spans.stop spans.le
  cases closes : e.close with
  | none =>
    have some_ : src.slice m.start m.stop ≠ "" := by
      intro empty
      have size := Source.byteSize_between spans.start spans.stop spans.le
      rw [Source.between, empty, String.toList_empty, Text.byteSize_nil] at size
      omega
    simp only [Option.isNone_none, if_true]
    refine ⟨by simpa using before.sound, spans.stop,
      ⟨((o.openNode e.kind).record (.raw none (src.slice m.start m.stop))).closeNode, ?_, ?_⟩, ?_⟩
    · simp [tree, Nested.regionOf]
    · rw [ScanState.closed_regions, ScanState.record_regions, ScanState.opened_regions, List.tail_cons, ← shown]
      exact tells.recordWithin (leaf closes) some_
    · simpa [ScanState.closed, ScanState.opened] using before.defs
  | some p =>
    simp only [Option.isNone_some, Bool.false_eq_true, if_false]
    have inside : TreeRecorded kinds src m.start (t.opened (Nested.regionOf src e m)) := by
      refine ⟨before.sound, before.last, ⟨o.openNode e.kind, by simp [tree, Nested.regionOf], ?_⟩, before.defs⟩
      exact tells.opened (r := Nested.regionOf src e m) (region (by simp [closes]))
    exact inside.recordPlain spans.stop spans.le

end TreeRecorded

/-- The patterns of the grammar match no empty text, and each of its kinds has a handler that records into the tree
what it passes over, or is one for leaves or regions. -/
structure Grammar.Grows (g : Grammar) (kinds : NodeKinds) : Prop where
  consumes : ∀ e ∈ g.patterns.entries, e.pattern.parsed.regex.consumes
  handled : ∀ e ∈ g.patterns.entries, ∀ handler, g.handlers.get? e.kind = some handler →
    handler.Passes e.pattern fun src s => TreeRecorded kinds src s.pos s
  leaf : ∀ e ∈ g.patterns.entries, g.handlers.get? e.kind = none → e.close = none → kinds.leaf e.kind
  region : ∀ e ∈ g.patterns.entries, g.handlers.get? e.kind = none → e.close.isSome → kinds.region e.kind

namespace Nested

variable {g : Grammar} {src : Source} {s : ScanState}

/-- What is left to do: twice the rest of the source, and the open regions. -/
def pending (src : Source) (s : ScanState) : Nat := 2 * (src.size - s.pos) + s.depth

section

variable {post : Unit → ScanState → Prop} {fail : ScanError → ScanState → Prop}

/-- Taking a match calls the handler of its kind, or makes a leaf or opens a region. -/
theorem yields_start_grows (grows : g.Grows kinds) (h : TreeRecorded kinds src s.pos s) {n : NextMatch}
    (upcoming : Upcoming g src s n)
    (more : ∀ s', TreeRecorded kinds src s'.pos s' → pending src s' < pending src s → post () s') :
    Yields (do start g n s.pos; Scan.ensureProgress g.name s.pos s.depth) s post fail := by
  obtain ⟨above, spans⟩ := upcoming.bounds
  obtain ⟨e, entry, _, _, found⟩ := upcoming.entry
  have member := List.mem_of_getElem? entry
  obtain ⟨a, b, marks, occurs, _⟩ := Pattern.findFrom?_some found
  have any := occurs.start_lt_stop (grows.consumes e member)
  have within := Source.isBoundary_le spans.stop
  refine yields_bind.mpr ?_
  cases handled : g.handlers.get? e.kind with
  | some handler =>
    refine yields_start_handled h.sound upcoming entry handled ?_
    intro c sound there
    have recorded := (h.recordPlain spans.start above).moveTo sound there
    have called := grows.handled e member handler handled occurs (by exact there.symm) recorded
    refine called.mono ?_ fun _ _ false => false.elim
    rintro _ s' ⟨recorded', further, regions⟩
    have there' : c.pos < s'.pos := further
    have bound : s'.pos ≤ src.size := recorded'.sound.le_size
    have same : s'.depth = s.depth := by
      rw [ScanState.depth, regions]
      simp [ScanState.depth]
    refine yields_ensureProgress (.inl (by omega)) (more s' recorded' ?_)
    simp only [pending, same]
    omega
  | none =>
    have plain : ∀ e', g.patterns.entries[n.entry]? = some e' → g.handlers.get? e'.kind = none := by
      intro e' entry'
      rw [entry] at entry'
      cases entry'
      exact handled
    refine yields_start h.sound upcoming plain ?_
    intro e' c entry' sound there
    rw [entry] at entry'
    cases entry'
    have recorded := (h.entered (e := e) spans above any (grows.leaf e member handled)
      (grows.region e member handled)).moveTo sound there
    have deeper : (entered src s e n.data).depth ≤ s.depth + 1 := by
      simp only [ScanState.depth, entered_regions]
      split <;> simp
    refine yields_ensureProgress (.inl (show s.pos < c.pos by omega)) (more _ recorded ?_)
    show 2 * (src.size - c.pos) + (entered src s e n.data).depth < 2 * (src.size - s.pos) + s.depth
    omega

/-- Closing a region leaves less to do, even where the cursor stays. -/
theorem yields_finish_grows (h : TreeRecorded kinds src s.pos s) {m : Match} (above : s.pos ≤ m.start)
    (spans : m.Spans src) {r : Region} {outer : List Region} (open_ : s.regions = r :: outer)
    (more : ∀ s', TreeRecorded kinds src s'.pos s' → pending src s' < pending src s → post () s') :
    Yields (do finish m; Scan.ensureProgress g.name s.pos s.depth) s post fail := by
  have fewer : s.depth = outer.length + 1 := by simp [ScanState.depth, open_]
  have low := spans.le
  refine yields_bind.mpr (yields_finish h.sound spans above open_ ?_)
  intro c sound there
  have whole := h.recordPlain spans.stop (by omega)
  have recorded := (whole.closed (show _ = r :: outer by simpa using open_)).moveTo sound there
  have depth : (s.record (.raw none (src.slice s.pos m.stop))).closed.depth = outer.length := by
    simp [ScanState.depth, open_]
  refine yields_ensureProgress (.inr (.inl ?_)) (more _ recorded ?_)
  · show (s.record (.raw none (src.slice s.pos m.stop))).closed.depth ≠ s.depth
    omega
  · show 2 * (src.size - c.pos) + (s.record (.raw none (src.slice s.pos m.stop))).closed.depth <
      2 * (src.size - s.pos) + s.depth
    omega

theorem yields_rest_grows (h : TreeRecorded kinds src s.pos s) (before : s.pos < src.size)
    (more : ∀ s', TreeRecorded kinds src s'.pos s' → pending src s' < pending src s → post () s') :
    Yields (do Scan.recordRest none; Scan.ensureProgress g.name s.pos s.depth) s post fail := by
  refine yields_bind.mpr (yields_rest h.sound ?_)
  intro c sound there
  have recorded := (h.recordPlain src.isBoundary_size h.sound.le_size).moveTo sound there
  have same : (s.record (.raw none (src.slice s.pos src.size))).depth = s.depth := by simp [ScanState.depth]
  refine yields_ensureProgress (.inl (show s.pos < c.pos by omega)) (more _ recorded ?_)
  show 2 * (src.size - c.pos) + (s.record (.raw none (src.slice s.pos src.size))).depth <
    2 * (src.size - s.pos) + s.depth
  omega

/-- A step before the end records what it passes over and leaves less to do. -/
theorem yields_step_grows (grows : g.Grows kinds) (h : TreeRecorded kinds src s.pos s) (before : s.pos < src.size)
    (more : ∀ s', TreeRecorded kinds src s'.pos s' → pending src s' < pending src s → post () s') :
    Yields (step g) s post fail := by
  -- Searching moves the cursor to where it is.
  have searched {c : Cursor} (here : c.pos = s.pos) (s' : ScanState) (recorded : TreeRecorded kinds src s'.pos s')
      (less : pending src s' < pending src { s with cursor := c }) : post () s' := by
    refine more s' recorded ?_
    have same : ({ s with cursor := c } : ScanState).pos = s.pos := here
    rwa [pending, pending, same] at less
  refine yields_step_cases h.sound ?_ ?_ ?_
  · intro n c upcoming _ sound here
    have upcoming' : Upcoming g src { s with cursor := c } n := by
      show g.patterns.Nearest (g.allows s.stateName) src c.pos n
      rw [here]
      exact upcoming
    rw [← here]
    exact yields_start_grows grows (h.moveTo sound here) upcoming' (searched here)
  · intro m c closing _ sound here
    obtain ⟨above, spans, r, outer, open_⟩ := closing_bounds closing
    rw [← here] at above ⊢
    exact yields_finish_grows (h.moveTo sound here) above spans open_ (searched here)
  · intro c _ _ sound here
    rw [← here] at before ⊢
    exact yields_rest_grows (h.moveTo sound here) before (searched here)

/-- Steps lead to the end of the source. -/
theorem yields_loop_grows (grows : g.Grows kinds) (h : TreeRecorded kinds src s.pos s) {fuel : Nat}
    (enough : pending src s < fuel)
    (more : ∀ s', TreeRecorded kinds src src.size s' → s'.pos = src.size → post () s') :
    Yields (loop g fuel) s post fail := by
  induction fuel generalizing s with
  | zero => omega
  | succ fuel ih =>
    have le : s.pos ≤ src.size := h.sound.le_size
    by_cases ended : s.pos = src.size
    · rw [ended] at h
      exact yields_loop_ended h.sound ended (more s h ended)
    · have before : s.pos < src.size := Nat.lt_of_le_of_ne le ended
      refine (yields_loop_before h.sound before).mpr (yields_step_grows grows h before ?_)
      intro s' recorded less
      exact ih recorded (by omega)

/-- A scan from the start of a source comes to its end, with no region left open and a tree that tells the source. -/
theorem yields_run_grows (grows : g.Grows kinds) (h : TreeRecorded kinds src s.pos s)
    (more : ∀ (s' : ScanState) (ns : List Node), s'.pos = src.size → s'.regions = [] →
      s'.outline = some (({} : Outline).addAll ns) → Tells kinds ns src.chars →
      (∀ name kind, s'.userDefs.get? name = some kind → WellNamed kind) → post () s') :
    Yields (run g) s post fail := by
  simp only [run]
  refine yields_bind.mpr (yields_get.mpr (yields_bind.mpr (yields_loop_grows grows h ?_ ?_)))
  · have size : s.source.size = src.size := by rw [ScanState.source, h.sound.source]
    simp only [pending, budget, size]
    have factor : 2 * (src.size + 2) * 2 ≤ 2 * (src.size + 2) * (g.patterns.size + g.handlers.length + 2) :=
      Nat.mul_le_mul_left _ (by omega)
    omega
  · intro s' recorded ended
    obtain ⟨o, tree, tells⟩ := recorded.tree
    rw [Source.between_whole] at tells
    obtain ⟨ns, closed, told⟩ := tells.closedAll
    refine yields_bind.mpr (yields_get.mpr (yields_closeAll rfl ?_))
    exact more _ ns ended rfl (by simp [tree, closed]) told recorded.defs

end

end Nested

/-- A tree that tells a text is rendered as markup that shows the text. -/
theorem Grammar.tagged_tree {g : Grammar} {s : ScanState} {ns : List Node} {w : List Char}
    (tree : s.outline = some (({} : Outline).addAll ns)) (tells : Tells kinds ns w)
    (wrapped : kinds.Wrapped (g.wrapNode (g.context s))) :
    Markup.strip (g.tagged s).1 = String.ofList w ∧ (g.tagged s).2 = { s with outline := some {} } := by
  simp only [Grammar.tagged, tree]
  refine ⟨?_, trivial⟩
  rw [Outline.collapse_addAll, Markup.strip, (tells.shows wrapped).stripChars, Markup.unescapeChars_escapeChars]

end Gloss

import Gloss.Proofs.Scan.Tokenization
import Gloss.Scan.Nested
import Mathlib.Logic.Function.Iterate

/-!
Steps of the loop with regions. A step without handlers takes the nearest match that may start, or the end of the
innermost region, or the rest of the source. The relation says all that a step can do, so that nothing about a run
has to look into the loop again.
-/
namespace Gloss

open Text (Spot Source)

namespace ScanState

/-- The state with one more region open. -/
def opened (s : ScanState) (r : Region) : ScanState :=
  { s with regions := r :: s.regions, outline := s.outline.map (·.openNode r.name) }

/-- The state with the innermost region closed. -/
def closed (s : ScanState) : ScanState :=
  { s with regions := s.regions.tail, outline := s.outline.map (·.closeNode) }

section

variable {s : ScanState} {r : Region} {t : Token}

@[simp] theorem opened_cursor : (s.opened r).cursor = s.cursor := rfl
@[simp] theorem opened_regions : (s.opened r).regions = r :: s.regions := rfl
@[simp] theorem opened_outline : (s.opened r).outline = s.outline.map (·.openNode r.name) := rfl
@[simp] theorem closed_cursor : s.closed.cursor = s.cursor := rfl
@[simp] theorem closed_regions : s.closed.regions = s.regions.tail := rfl
@[simp] theorem closed_outline : s.closed.outline = s.outline.map (·.closeNode) := rfl

@[simp] theorem record_outline : (s.record t).outline = s.outline.map (·.record t) := by
  simp only [record]
  split
  · next o eq => simp [eq]
  · next eq => simp [eq]

end

end ScanState

namespace Nested

/-- The name of the state in which the innermost of these regions is open. -/
def kindOf : List Region → Kind
  | r :: _ => r.name
  | [] => .initial

theorem stateName_eq {s : ScanState} : s.stateName = kindOf s.regions := by
  cases open_ : s.regions <;> simp [ScanState.stateName, kindOf, open_]

/-- The nearest match that may close the innermost region. -/
def closing? (src : Source) (s : ScanState) : Option Match :=
  (s.regions.head?.bind (·.close)).bind (·.findFrom? src s.pos)

/-- What comes up next of all that may start. -/
abbrev Upcoming (g : Grammar) (src : Source) (s : ScanState) (next : NextMatch) : Prop :=
  g.patterns.Nearest (g.allows s.stateName) src s.pos next

/-- The region that a match of an entry opens. -/
def regionOf (src : Source) (e : PatternTable.Entry) (m : Match) : Region :=
  { name := e.kind, start := m.start, opening := src.slice m.start m.stop, close := e.close }

/-- The state in which a match of an entry is taken, with the text before it. -/
def entered (src : Source) (s : ScanState) (e : PatternTable.Entry) (m : Match) : ScanState :=
  let inside := ((s.record (.raw none (src.slice s.pos m.start))).opened (regionOf src e m)).record
    (.raw none (src.slice m.start m.stop))
  if e.close.isNone then inside.closed else inside

/-- What a step does: it takes a start, an end or the rest, and leaves the cursor behind it. -/
inductive Taken (g : Grammar) (src : Source) (s : ScanState) : ScanState → Prop where
  | start {next : NextMatch} {e : PatternTable.Entry} {c : Cursor} (upcoming : Upcoming g src s next)
      (entry : g.patterns.entries[next.entry]? = some e)
      (first : ∀ m, closing? src s = some m → next.data.start ≤ m.start) (sound : c.Sound src)
      (here : c.pos = next.data.stop) : Taken g src s { entered src s e next.data with cursor := c }
  | finish {m : Match} {r : Region} {outer : List Region} {c : Cursor} (open_ : s.regions = r :: outer)
      (closing : closing? src s = some m) (first : ∀ next, Upcoming g src s next → m.start < next.data.start)
      (sound : c.Sound src) (here : c.pos = m.stop) :
      Taken g src s { (s.record (.raw none (src.slice s.pos m.stop))).closed with cursor := c }
  | rest {c : Cursor} (absent : ∀ next, ¬ Upcoming g src s next) (none_ : closing? src s = none) (sound : c.Sound src)
      (here : c.pos = src.size) : Taken g src s { s.record (.raw none (src.slice s.pos src.size)) with cursor := c }

/-- The cursor has moved on, the number of regions is another, or the end is reached. -/
def Progress (src : Source) (s s' : ScanState) : Prop := s.pos < s'.pos ∨ s'.depth ≠ s.depth ∨ s'.pos = src.size

section

variable {g : Grammar} {src : Source} {s : ScanState} {fail : ScanError → ScanState → Prop}

theorem entered_regions {e : PatternTable.Entry} {m : Match} :
    (entered src s e m).regions = if e.close.isNone then s.regions else regionOf src e m :: s.regions := by
  simp only [entered]
  split <;> simp

theorem Taken.sound {s' : ScanState} (h : Taken g src s s') : s'.cursor.Sound src := by
  cases h with
  | start _ _ _ sound => exact sound
  | finish _ _ _ sound => exact sound
  | rest _ _ sound => exact sound

theorem yields_recordSlice (sound : s.cursor.Sound src) {kind : Option Kind} {start stop : Nat} (le : start ≤ stop)
    (boundary : src.isBoundary start) {post : Unit → ScanState → Prop}
    (next : post () (s.record (.raw kind (src.slice start stop)))) :
    Yields (Scan.recordRange start stop kind) s post fail := by
  have inOrder : ¬ stop < start := by omega
  simp only [Scan.recordRange]
  rw [if_neg inOrder]
  by_cases any : start < stop
  · rw [if_pos any]
    refine yields_bind.mpr (yields_ofCursor.mpr (yields_modify.mpr ?_))
    rwa [Cursor.slice, sound.source]
  · obtain rfl : start = stop := by omega
    have nothing : src.slice start start = "" := by
      rw [Source.slice_eq_ofList, Source.between_self boundary]
    rw [nothing, ScanState.record_empty] at next
    rwa [if_neg any]

theorem yields_popRegion {r : Region} {outer : List Region} (open_ : s.regions = r :: outer)
    {post : Region → ScanState → Prop} (next : post r s.closed) : Yields Scan.popRegion s post fail := by
  simp only [Scan.popRegion]
  refine yields_bind.mpr (yields_get.mpr ?_)
  simp only [open_]
  refine yields_bind.mpr (yields_modify.mpr (yields_pure.mpr ?_))
  have same : s.closed = { s with regions := outer, outline := s.outline.map (·.closeNode) } := by
    simp [ScanState.closed, open_]
  rwa [same] at next

theorem text_of_spans (sound : s.cursor.Sound src) {m : Match} (spans : m.Spans src) :
    m.text s.cursor.source = src.slice m.start m.stop := by
  rw [sound.source]
  exact String.toList_injective spans.text_eq

/-- Taking a start with a handler records the text before it and calls the handler there. -/
theorem yields_start_handled (sound : s.cursor.Sound src) {next : NextMatch} (upcoming : Upcoming g src s next)
    {e : PatternTable.Entry} (entry : g.patterns.entries[next.entry]? = some e) {handler : Handler}
    (handled : g.handlers.get? e.kind = some handler) {post : Unit → ScanState → Prop}
    (called : ∀ c : Cursor, c.Sound src → c.pos = next.data.start →
      Yields (handler next.data) { s.record (.raw none (src.slice s.pos next.data.start)) with cursor := c } post fail) :
    Yields (start g next s.pos) s post fail := by
  obtain ⟨above, spans⟩ := upcoming.bounds
  simp only [start]
  refine yields_bind.mpr (yields_recordSlice sound above sound.here ?_)
  refine yields_bind.mpr (yields_setPos (s := s.record _) (by simpa using sound) spans.start ?_)
  intro c soundC here
  simp only [PatternTable.get?, entry, handled]
  exact called c soundC here

/-- Taking a start records the text before it and the match, in a region of its own. -/
theorem yields_start (sound : s.cursor.Sound src) {next : NextMatch} (upcoming : Upcoming g src s next)
    (plain : ∀ e, g.patterns.entries[next.entry]? = some e → g.handlers.get? e.kind = none)
    {post : Unit → ScanState → Prop}
    (done : ∀ e c, g.patterns.entries[next.entry]? = some e → c.Sound src → c.pos = next.data.stop →
      post () { entered src s e next.data with cursor := c }) :
    Yields (start g next s.pos) s post fail := by
  obtain ⟨above, spans⟩ := upcoming.bounds
  obtain ⟨e, entry, _⟩ := upcoming.entry
  simp only [start]
  refine yields_bind.mpr (yields_recordSlice sound above sound.here ?_)
  refine yields_bind.mpr (yields_setPos (s := s.record _) (by simpa using sound) spans.start ?_)
  intro c soundC _
  simp only [PatternTable.get?, entry, plain e entry, enter]
  refine yields_bind.mpr (yields_ofCursor.mpr ?_)
  rw [text_of_spans (s := { s.record _ with cursor := c }) soundC spans]
  refine yields_bind.mpr (yields_setPos (s := { s.record _ with cursor := c }) soundC spans.stop ?_)
  intro d soundD there
  refine yields_bind.mpr (yields_modify.mpr (yields_bind.mpr (yields_modify.mpr ?_)))
  have result := done e d entry soundD there
  simp only [entered] at result
  have inside : ∀ u : ScanState, (({ u with cursor := d } : ScanState).opened (regionOf src e next.data)).record
      (.raw none (src.slice next.data.start next.data.stop)) =
      { (u.opened (regionOf src e next.data)).record (.raw none (src.slice next.data.start next.data.stop)) with
        cursor := d } := fun u => ScanState.record_withCursor (s := u.opened (regionOf src e next.data))
  show Yields _ ((({ s.record _ with cursor := d } : ScanState).opened (regionOf src e next.data)).record _) post fail
  rw [inside]
  by_cases single : e.close.isNone
  · rw [if_pos single] at result ⊢
    refine yields_bind.mpr (yields_popRegion (show _ = regionOf src e next.data :: s.regions by simp) ?_)
    exact yields_pure.mpr result
  · rw [if_neg single] at result ⊢
    exact yields_pure.mpr result

/-- Taking the end of a region records the text up to it, and the region is closed. -/
theorem yields_finish (sound : s.cursor.Sound src) {m : Match} (spans : m.Spans src) (above : s.pos ≤ m.start)
    {r : Region} {outer : List Region} (open_ : s.regions = r :: outer) {post : Unit → ScanState → Prop}
    (done : ∀ c : Cursor, c.Sound src → c.pos = m.stop →
      post () { (s.record (.raw none (src.slice s.pos m.stop))).closed with cursor := c }) :
    Yields (finish m) s post fail := by
  have low := spans.le
  simp only [finish]
  refine yields_bind.mpr (yields_ofCursor.mpr ?_)
  refine yields_bind.mpr (yields_recordSlice sound (by exact Nat.le_trans above low) sound.here ?_)
  refine yields_bind.mpr (yields_setPos (s := s.record _) (by simpa using sound) spans.stop ?_)
  intro c soundC here
  refine yields_bind.mpr (yields_popRegion (show _ = r :: outer by simpa using open_) ?_)
  exact yields_pure.mpr (done c soundC here)

/-- Taking the rest records it, and leaves the cursor at the end wherever it was. -/
theorem yields_rest (sound : s.cursor.Sound src) {kind : Option Kind} {post : Unit → ScanState → Prop}
    (done : ∀ c : Cursor, c.Sound src → c.pos = src.size →
      post () { s.record (.raw kind (src.slice s.pos src.size)) with cursor := c }) :
    Yields (Scan.recordRest kind) s post fail := by
  simp only [Scan.recordRest]
  refine yields_bind.mpr (yields_atEnd sound ?_)
  by_cases ended : s.pos = src.size
  · simp only [ended, decide_true, Bool.not_true, Bool.false_eq_true, if_false]
    have nothing : src.slice s.pos src.size = "" := by
      rw [ended, Source.slice_eq_ofList, Source.between_self src.isBoundary_size]
    have last := done s.cursor sound ended
    rwa [nothing, ScanState.record_empty] at last
  · simp only [ended, decide_false, Bool.not_false, if_true]
    have whole := sound.front (List.append_nil s.cursor.restChars).symm
    rw [sound.size_eq] at whole
    have text : s.cursor.rest = src.slice s.pos src.size := by
      apply String.toList_injective
      rw [Cursor.rest, String.toList_ofList]
      exact whole.2.symm
    refine yields_bind.mpr (yields_ofCursor.mpr (yields_bind.mpr (yields_modify.mpr ?_)))
    rw [text]
    exact yields_terminate (s := s.record _) (by simpa using sound) done

/-- The end of a region lies at or behind the cursor. -/
theorem closing_bounds {m : Match} (closing : closing? src s = some m) :
    s.pos ≤ m.start ∧ m.Spans src ∧ ∃ r outer, s.regions = r :: outer := by
  obtain ⟨p, closes, found⟩ := Option.bind_eq_some_iff.mp closing
  obtain ⟨r, head, _⟩ := Option.bind_eq_some_iff.mp closes
  obtain ⟨a, b, marks, occurs, above, _⟩ := Pattern.findFrom?_some found
  obtain ⟨outer, open_⟩ := List.head?_eq_some_iff.mp head
  exact ⟨by rw [occurs.start]; exact above, occurs.spans, r, outer, open_⟩

/-- The nearest end, searched for where a step searches for it. -/
theorem yields_closing (sound : s.cursor.Sound src) {act : Option Match → ScanM Unit}
    {post : Unit → ScanState → Prop}
    (next : ∀ c : Cursor, c.Sound src → c.pos = s.pos → Yields (act (closing? src s)) { s with cursor := c } post fail) :
    Yields (match s.regions.head?.bind (·.close) with
      | some p => do
        let close ← Scan.search p
        act close
      | none => do
        let close ← pure none
        act close) s post fail := by
  cases closes : s.regions.head?.bind (·.close) with
  | none =>
    have none_ : closing? src s = none := by simp [closing?, closes]
    rw [none_] at next
    exact next s.cursor sound rfl
  | some p =>
    obtain ⟨c, eq, soundC, here, _⟩ := sound.search p
    have found : closing? src s = p.findFrom? src s.cursor.pos := by
      rw [closing?, closes]
      rfl
    rw [found] at next
    refine yields_bind.mpr ?_
    rw [Scan.search, yields_onCursor, eq]
    exact next c soundC here

theorem entered_withCursor {c : Cursor} (here : c.pos = s.pos) {e : PatternTable.Entry} {m : Match} :
    entered src { s with cursor := c } e m = { entered src s e m with cursor := c } := by
  have same : ({ s with cursor := c } : ScanState).pos = s.pos := here
  simp only [entered, same, ScanState.record_withCursor]
  have inside : ∀ u : ScanState, (({ u with cursor := c } : ScanState).opened (regionOf src e m)).record
      (.raw none (src.slice m.start m.stop)) =
      { (u.opened (regionOf src e m)).record (.raw none (src.slice m.start m.stop)) with cursor := c } :=
    fun u => ScanState.record_withCursor (s := u.opened (regionOf src e m))
  rw [inside]
  split <;> rfl

/-- A step before the end does one of three things and checks then that it has made progress. -/
theorem yields_step_cases (sound : s.cursor.Sound src) {post : Unit → ScanState → Prop}
    (starts : ∀ (n : NextMatch) (c : Cursor), Upcoming g src s n →
      (∀ m, closing? src s = some m → n.data.start ≤ m.start) → c.Sound src → c.pos = s.pos →
      Yields (do start g n s.pos; Scan.ensureProgress g.name s.pos s.depth) { s with cursor := c } post fail)
    (finishes : ∀ (m : Match) (c : Cursor), closing? src s = some m →
      (∀ n, Upcoming g src s n → m.start < n.data.start) → c.Sound src → c.pos = s.pos →
      Yields (do finish m; Scan.ensureProgress g.name s.pos s.depth) { s with cursor := c } post fail)
    (rests : ∀ c : Cursor, (∀ n, ¬ Upcoming g src s n) → closing? src s = none → c.Sound src → c.pos = s.pos →
      Yields (do Scan.recordRest none; Scan.ensureProgress g.name s.pos s.depth) { s with cursor := c } post fail) :
    Yields (step g) s post fail := by
  simp only [step]
  refine yields_bind.mpr (yields_ofCursor.mpr (yields_bind.mpr (yields_bind.mpr (yields_get.mpr ?_))))
  refine yields_pure.mpr (yields_bind.mpr (yields_bind.mpr (yields_get.mpr (yields_pure.mpr ?_))))
  refine yields_bind.mpr (yields_onCursor.mpr ?_)
  obtain ⟨next, d, eq, soundD, hereD, _, some_, none_⟩ :=
    PatternTable.nextAllowed_eq g.patterns (g.allows s.stateName) sound
  rw [eq]
  refine yields_bind.mpr (yields_bind.mpr (yields_get.mpr (yields_pure.mpr ?_)))
  refine yields_closing (s := { s with cursor := d }) soundD ?_
  intro c soundC hereC
  have here : c.pos = s.pos := hereC.trans hereD
  have same : closing? src { s with cursor := d } = closing? src s := by
    show (s.regions.head?.bind (·.close)).bind (·.findFrom? src d.pos) = _
    rw [hereD]
    rfl
  rw [same]
  have absent : next = none → ∀ n, ¬ Upcoming g src s n := by
    intro nothing n upcoming
    obtain ⟨e, entry, _, allowed, found⟩ := upcoming.entry
    have missed := none_ nothing e (List.mem_of_getElem? entry) allowed
    have found' : e.pattern.findFrom? src s.cursor.pos = some n.data := found
    rw [missed] at found'
    cases found'
  cases next with
  | none =>
    cases closing : closing? src s with
    | none => exact rests c (absent rfl) closing soundC here
    | some m => exact finishes m c closing (fun n upcoming => (absent rfl n upcoming).elim) soundC here
  | some n =>
    cases closing : closing? src s with
    | none => exact starts n c (some_ n rfl) (fun m found => by rw [closing] at found; cases found) soundC here
    | some m =>
      have only : ∀ n', Upcoming g src s n' → n' = n := fun n' upcoming => upcoming.unique (some_ n rfl)
      by_cases first : n.data.start ≤ m.start
      · simp only [first, if_true]
        refine starts n c (some_ n rfl) (fun m' found => ?_) soundC here
        rw [closing] at found
        cases found
        exact first
      · simp only [first, if_false]
        refine finishes m c closing (fun n' upcoming => ?_) soundC here
        rw [only n' upcoming]
        omega

/-- Without handlers, all that a step can do is a relation between states. It fails just if it made no progress. -/
theorem yields_step (plain : ∀ e ∈ g.patterns.entries, g.handlers.get? e.kind = none) (sound : s.cursor.Sound src) :
    Yields (step g) s (fun _ s' => Taken g src s s' ∧ Progress src s s')
      (fun e s' => e = .noProgress g.name s.pos ∧ Taken g src s s' ∧ ¬ Progress src s s') := by
  -- Whatever is done, the same check follows.
  have settle : ∀ {act : ScanM Unit} {c : Cursor},
      Yields act { s with cursor := c } (fun _ s' => Taken g src s s') (fun _ _ => False) →
      Yields (do act; Scan.ensureProgress g.name s.pos s.depth) { s with cursor := c }
        (fun _ s' => Taken g src s s' ∧ Progress src s s')
        (fun e s' => e = .noProgress g.name s.pos ∧ Taken g src s s' ∧ ¬ Progress src s s') := by
    intro act c acted
    refine yields_bind.mpr (acted.mono ?_ (fun _ _ false => false.elim))
    intro _ s' taken
    refine (yields_ensureProgress_iff taken.sound).mpr ?_
    split
    · next progress => exact ⟨taken, progress⟩
    · next still => exact ⟨rfl, taken, still⟩
  refine yields_step_cases sound ?_ ?_ ?_
  · intro n c upcoming first soundC here
    have from_ : ({ s with cursor := c } : ScanState).pos = s.pos := here
    have upcoming' : Upcoming g src { s with cursor := c } n := by
      show g.patterns.Nearest (g.allows s.stateName) src c.pos n
      rw [here]
      exact upcoming
    refine settle ?_
    rw [← from_]
    refine yields_start (s := { s with cursor := c }) soundC upcoming'
      (fun e entry => plain e (List.mem_of_getElem? entry)) ?_
    intro e c' entry soundC' there
    rw [entered_withCursor here]
    exact .start upcoming entry first soundC' there
  · intro m c closing first soundC here
    have from_ : ({ s with cursor := c } : ScanState).pos = s.pos := here
    obtain ⟨above, spans, r, outer, open_⟩ := closing_bounds closing
    have above' : ({ s with cursor := c } : ScanState).pos ≤ m.start := by rwa [from_]
    refine settle (yields_finish (s := { s with cursor := c }) soundC spans above' open_ ?_)
    intro c' soundC' there
    rw [from_, ScanState.record_withCursor]
    exact .finish open_ closing first soundC' there
  · intro c absent closing soundC here
    have from_ : ({ s with cursor := c } : ScanState).pos = s.pos := here
    refine settle (yields_rest (s := { s with cursor := c }) soundC ?_)
    intro c' soundC' there
    rw [from_, ScanState.record_withCursor]
    exact .rest absent closing soundC' there

/-- The cursor does not go back. -/
theorem Taken.pos_le {s' : ScanState} (h : Taken g src s s') (sound : s.cursor.Sound src) : s.pos ≤ s'.pos := by
  cases h with
  | @start next e c upcoming _ _ _ here =>
    obtain ⟨above, spans⟩ := upcoming.bounds
    have low := spans.le
    show s.pos ≤ c.pos
    omega
  | @finish m r outer c _ closing _ _ here =>
    obtain ⟨above, spans, _⟩ := closing_bounds closing
    have low := spans.le
    show s.pos ≤ c.pos
    omega
  | @rest c _ _ _ here =>
    have bound : s.pos ≤ src.size := sound.le_size
    show s.pos ≤ c.pos
    omega

theorem Taken.depth_le {s' : ScanState} (h : Taken g src s s') : s'.depth ≤ s.depth + 1 := by
  cases h with
  | start =>
    simp only [ScanState.depth, entered_regions]
    split <;> simp
  | finish => simp [ScanState.depth]; omega
  | rest => simp [ScanState.depth]

theorem yields_loop_ended {fuel : Nat} (sound : s.cursor.Sound src) (ended : s.pos = src.size)
    {post : Unit → ScanState → Prop} (done : post () s) : Yields (loop g (fuel + 1)) s post fail := by
  simp only [loop]
  refine yields_bind.mpr (yields_atEnd sound ?_)
  simp only [ended, decide_true, Bool.not_true, Bool.false_eq_true, if_false]
  exact done

theorem yields_loop_before {fuel : Nat} (sound : s.cursor.Sound src) (before : s.pos < src.size)
    {post : Unit → ScanState → Prop} :
    Yields (loop g (fuel + 1)) s post fail ↔
      Yields (step g) s (fun _ s' => Yields (loop g fuel) s' post fail) fail := by
  have ahead : s.cursor.atEnd = false := by
    rw [Bool.eq_false_iff, ne_eq, sound.atEnd_iff]
    exact Nat.ne_of_lt before
  simp only [loop, yields_bind, Scan.atEnd, yields_ofCursor, ahead, Bool.not_false, if_true]

/-- At the end all regions are closed. -/
theorem yields_closeAll {post : Unit → ScanState → Prop} {regions : List Region} (open_ : s.regions = regions)
    (done : post () { s with regions := [], outline := s.outline.map (Outline.closeNode^[regions.length]) }) :
    Yields (closeAll regions) s post fail := by
  induction regions generalizing s with
  | nil =>
    have same : ({ s with regions := [], outline := s.outline.map (Outline.closeNode^[0]) } : ScanState) = s := by
      rw [← open_, Function.iterate_zero, Option.map_id]
      rfl
    rw [List.length_nil, same] at done
    exact done
  | cons r outer ih =>
    simp only [closeAll]
    refine yields_bind.mpr (yields_popRegion open_ (ih (by simp [open_]) ?_))
    rw [List.length_cons, Function.iterate_succ, ← Option.map_map] at done
    exact done

end

end Nested

end Gloss

import Gloss.Proofs.Filter.Lines
import Gloss.Proofs.Scan.Nestable
import Gloss.Proofs.Scan.Tokenization
import Gloss.Scan.Loops

/-!
The loop over a pattern table whose handlers take over the cursor. A handler that records a stretch of the source
from the start of its match on, and moves on with it, does what the loop does with other matches. If all handlers of
a grammar do so and its other patterns match no empty text, a scan of any source comes to its end with the whole source
recorded, and what it renders can be read back.
-/
namespace Gloss

open Text (Spot Source)
open Markup (WellNamed OneLine)

/-- A handler that keeps an invariant. Called at the start of a match of the pattern, it does not fail, moves on and
leaves the regions as they are. -/
def Handler.Passes (handler : Handler) (p : Pattern) (Inv : Source → ScanState → Prop) : Prop :=
  ∀ ⦃src : Source⦄ ⦃s : ScanState⦄ ⦃m : Match⦄ ⦃a b : Spot⦄ ⦃marks : Regex.Marks⦄,
    p.Occurs src m a b marks → m.start = s.pos → Inv src s →
      Yields (handler m) s (fun _ s' => Inv src s' ∧ s.pos < s'.pos ∧ s'.regions = s.regions) fun _ _ => False

/-- A handler that records what it passes over. -/
def Handler.Covers (handler : Handler) (p : Pattern) (Allowed : Token → Prop) : Prop :=
  ∀ start : Origin, handler.Passes p fun src s => Recorded src Allowed start s.pos s

/-- The patterns of the grammar match no empty text, and each of its kinds has a handler that covers what it passes
over, or can stand in tags. -/
structure Grammar.Covers (g : Grammar) (Allowed : Token → Prop) : Prop where
  consumes : ∀ e ∈ g.patterns.entries, e.pattern.parsed.regex.consumes
  handled : ∀ e ∈ g.patterns.entries, ∀ handler, g.handlers.get? e.kind = some handler →
    handler.Covers e.pattern Allowed
  plain : ∀ e ∈ g.patterns.entries, g.handlers.get? e.kind = none → WellNamed e.kind

namespace Recorded

variable {src : Source} {Allowed : Token → Prop} {start : Origin} {s : ScanState} {kind : Option Kind}
  {post : Unit → ScanState → Prop} {fail : ScanError → ScanState → Prop}

/-- The next characters are recorded; before the end of the source there are some. -/
theorem recordTaken (h : Recorded src Allowed start s.pos s) {n : Nat} (any : 0 < n)
    (named : ∀ k, kind = some k → WellNamed k)
    (next : ∀ s', Recorded src Allowed start s'.pos s' → s.pos ≤ s'.pos → (s.pos < src.size → s.pos < s'.pos) →
      s'.regions = s.regions → post () s') :
    Yields (do Scan.record kind (← Scan.take n)) s post fail := by
  refine yields_bind.mpr (yields_take h.sound n ?_)
  intro text c sound le between taken
  refine yields_modify.mpr ?_
  have pushed := (h.withCursor sound).pushText sound.here le between named
  refine next _ ?_ ?_ ?_ (by simp)
  · simp only [ScanState.pos, ScanState.record_cursor]
    exact pushed
  · simp only [ScanState.pos, ScanState.record_cursor]
    exact le
  · intro before
    simp only [ScanState.pos, ScanState.record_cursor]
    refine Nat.lt_of_le_of_ne le fun same => ?_
    obtain ⟨ch, rest, eq, _⟩ := h.sound.head before
    have first : src.between s.pos s.pos = [] := Source.between_self h.sound.here
    have nothing : text.toList = [] := by
      rw [between, ← same]
      exact first
    rw [taken, eq] at nothing
    obtain ⟨n, rfl⟩ := Nat.exists_eq_succ_of_ne_zero (Nat.ne_of_gt any)
    simp at nothing

/-- A part of the source that starts at the cursor is recorded, behind which the cursor has moved. -/
theorem recordFront (h : Recorded src Allowed start s.pos s) {a b : List Char} (parts : s.cursor.restChars = a ++ b)
    (named : ∀ k, kind = some k → WellNamed k)
    (next : ∀ s', Recorded src Allowed start s'.pos s' → s'.pos = s.pos + Text.byteSize a → s'.regions = s.regions →
      post () s') :
    Yields (do
      Scan.setPos (s.pos + Text.byteSize a)
      Scan.recordRange s.pos (s.pos + Text.byteSize a) kind) s post fail := by
  obtain ⟨boundary, _⟩ := h.sound.front parts
  refine yields_bind.mpr (yields_setPos h.sound boundary ?_)
  intro c sound here
  refine (h.withCursor sound).recordRange boundary (Nat.le_add_right _ _) named ?_
  intro s' recorded cursor regions
  have at_ : s'.pos = s.pos + Text.byteSize a := by
    show s'.cursor.pos = _
    rw [cursor]
    exact here
  rw [← at_] at recorded
  exact next s' recorded at_ regions

end Recorded

namespace Flat

variable {g : Grammar} {src : Source} {Allowed : Token → Prop} {start : Origin} {s : ScanState}

section

variable {post : Unit → ScanState → Prop} {fail : ScanError → ScanState → Prop}

/-- A match is recorded behind the text before it, by its handler or by the loop. -/
theorem yields_dispatch_covered (covers : g.Covers Allowed) (h : Recorded src Allowed start s.pos s) {next : NextMatch}
    (nearest : g.patterns.Nearest (fun _ => true) src s.pos next)
    (more : ∀ s', Recorded src Allowed start s'.pos s' → s.pos < s'.pos → s'.regions = s.regions → post () s') :
    Yields (dispatch g next s.pos) s post fail := by
  obtain ⟨above, spans⟩ := nearest.bounds
  obtain ⟨e, at_, kind, _, found⟩ := nearest.entry
  have member := List.mem_of_getElem? at_
  obtain ⟨a, b, marks, occurs, _⟩ := Pattern.findFrom?_some found
  have any := occurs.start_lt_stop (covers.consumes e member)
  simp only [dispatch]
  refine yields_bind.mpr (h.recordRange spans.start above (by simp) ?_)
  intro t recorded _ regions
  refine yields_bind.mpr (yields_bind.mpr (yields_get.mpr (yields_pure.mpr ?_)))
  cases handled : g.handlers.get? next.kind with
  | some handler =>
    rw [← kind] at handled
    refine yields_bind.mpr (yields_setPos recorded.sound spans.start ?_)
    intro c sound here
    have here' : ({ t with cursor := c } : ScanState).pos = next.data.start := here
    have moved := recorded.withCursor sound
    rw [← here'] at moved
    refine yields_bind.mpr ((covers.handled e member handler handled start occurs here'.symm moved).mono ?_ ?_)
    · rintro _ s' ⟨recorded', further, regions'⟩
      refine yields_ensureProgress (.inl (by omega)) ?_
      exact more s' recorded' (by omega) (regions'.trans regions)
    · rintro _ _ ⟨⟩
  | none =>
    have named : ∀ k, some next.kind = some k → WellNamed k := by
      rintro _ ⟨⟩
      rw [← kind] at handled ⊢
      exact covers.plain e member handled
    refine yields_bind.mpr (yields_accept recorded.sound spans ?_)
    intro c _ sound behind _
    refine yields_bind.mpr ((recorded.withCursor sound).recordBehind spans behind named ?_)
    intro s' recorded' at_ regions'
    refine yields_ensureProgress (.inl (by omega)) ?_
    exact more s' recorded' (by omega) (regions'.trans regions)

theorem yields_step_covered (covers : g.Covers Allowed) (h : Recorded src Allowed start s.pos s)
    (before : s.pos < src.size)
    (more : ∀ s', Recorded src Allowed start s'.pos s' → s.pos < s'.pos → s'.regions = s.regions → post () s') :
    Yields (step g) s post fail := by
  simp only [step]
  refine yields_bind.mpr (yields_ofCursor.mpr (yields_bind.mpr (yields_nextMatch h.sound g ?_ ?_)))
  · intro c sound here _
    have here' : ({ s with cursor := c } : ScanState).pos = s.pos := here
    have moved := h.withCursor sound
    rw [← here'] at moved
    refine moved.recordRest (by simp) ?_
    intro s' recorded atEnd regions
    rw [← atEnd] at recorded
    exact more s' recorded (by omega) regions
  · intro next c sound here nearest
    have here' : ({ s with cursor := c } : ScanState).pos = s.pos := here
    have moved := h.withCursor sound
    rw [← here'] at moved nearest
    have same : dispatch g next s.cursor.pos = dispatch g next ({ s with cursor := c } : ScanState).pos := by
      rw [here']
      rfl
    simp only [same]
    refine yields_dispatch_covered covers moved nearest ?_
    intro s' recorded further regions
    exact more s' recorded (by omega) regions

/-- Steps lead to the end of the source. -/
theorem yields_loop_covered (covers : g.Covers Allowed) (h : Recorded src Allowed start s.pos s) {fuel : Nat}
    (enough : src.size - s.pos < fuel)
    (more : ∀ s', Recorded src Allowed start src.size s' → s'.pos = src.size → s'.regions = s.regions → post () s') :
    Yields (loop g fuel) s post fail := by
  induction fuel generalizing s with
  | zero => omega
  | succ fuel ih =>
    have le : s.pos ≤ src.size := h.sound.le_size
    by_cases ended : s.pos = src.size
    · rw [ended] at h
      exact yields_loop_ended h.sound ended (more s h ended rfl)
    · have before : s.pos < src.size := Nat.lt_of_le_of_ne le ended
      refine yields_loop_before h.sound before (yields_step_covered covers h before ?_)
      intro s' recorded further regions
      have within : s'.pos ≤ src.size := recorded.sound.le_size
      refine ih recorded (by omega) ?_
      intro s'' recorded' ended' regions'
      exact more s'' recorded' ended' (regions'.trans regions)

theorem yields_run_covered (covers : g.Covers Allowed) (h : Recorded src Allowed start s.pos s)
    (more : ∀ s', Recorded src Allowed start src.size s' → s'.pos = src.size → s'.regions = s.regions → post () s') :
    Yields (run g) s post fail := by
  simp only [run]
  refine yields_bind.mpr (yields_get.mpr (yields_loop_covered covers h ?_ more))
  have size : s.source.size = src.size := by rw [ScanState.source, h.sound.source]
  simp only [budget, size]
  omega

end

end Flat

/-- A grammar over whose table any text can be scanned to its end, and whose filters put their elements on one line
each: what a scanner renders with it can be read back, and each line of the markup is nested on its own. -/
theorem FlatScanner.highlight_covered {g : Grammar} (covers : g.Covers Token.IsRaw) (named : g.Named)
    (stream : g.streamFilters = (Grammar.withFilters g.name).streamFilters)
    (lines : ∀ ctx : FilterContext, ctx.Named → Filter.Lines ctx g.filters) (s : ScanState) (text : String) :
    ∃ (out : String) (y : FlatScanner),
      Scanner.highlight text ({ grammar := g, state := { s with outline := none } } : FlatScanner) = .ok out y ∧
        Markup.strip out = text ∧ ∀ line ∈ Text.splitLines out.toList, Markup.Nested line := by
  have run : Yields (Scanner.highlight text : EStateM ScanError FlatScanner String)
      { grammar := g, state := { s with outline := none } }
      (fun out _ => Markup.strip out = text ∧ ∀ line ∈ Text.splitLines out.toList, Markup.Nested line)
      fun _ _ => False := by
    simp only [Scanner.highlight]
    refine yields_bind.mpr (yields_modify.mpr (yields_bind.mpr (yields_zoom.mpr ?_)))
    have blank := ScanState.blank_setSource (s := { s with outline := none }) rfl (.ofString text)
    have begun := blank.recorded Token.isRaw_raw
    rw [blank.empty] at begun
    refine Flat.yields_run_covered covers begun ?_
    intro s' recorded _ _
    refine yields_modifyGet.mpr ?_
    have context := named.context recorded.defs
    have nests := Grammar.tagged_nests recorded (Grammar.renders_of_lines context stream (lines _ context))
      fun t u a c _ raw wellNamed recast => Grammar.filterToken_nests (lines _ context) raw wellNamed recast
    rw [Source.between_whole, Source.chars_ofString] at nests
    obtain ⟨strips, nested⟩ := nests.reads
    exact ⟨strips.trans String.ofList_toList, nested⟩
  obtain ⟨out, y, ran, result⟩ := run.succeeds
  exact ⟨out, y, ran, result⟩

end Gloss

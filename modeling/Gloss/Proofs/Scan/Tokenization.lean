import Gloss.Proofs.Scan.Handover
import Gloss.Grammar.Handlers
import Gloss.Scan.Flat

/-!
What the loop over a pattern table records. The tokens of a table over a source are defined by its nearest
matches alone: the text before the nearest match, the match, and so on behind it. A scan without handlers
records just these tokens, and gets stuck just where they come to an empty match before the end. With handlers
that account for what they pass over, a scan that ends has recorded the source and nothing else.
-/
namespace Gloss

open Text (Spot Source)

/-- The token of a stretch of the source: none if the stretch is empty. -/
def Text.Source.stretch (src : Source) (kind : Option Kind) (start stop : Nat) : List Token :=
  if start < stop then [.raw kind (src.slice start stop)] else []

theorem spelling_stretch {src : Source} {kind : Option Kind} {start stop : Nat} (boundary : src.isBoundary start)
    (le : start ≤ stop) : spelling (src.stretch kind start stop) = src.between start stop := by
  unfold Source.stretch
  split
  · simp [spelling, Token.raw, Source.between]
  · obtain rfl : start = stop := by omega
    rw [Source.between_self boundary]
    rfl

namespace ScanState

/-- The state with more tokens recorded. -/
def plus (s : ScanState) (ts : List Token) : ScanState := { s with tokens := ⟨ts.reverse ++ s.tokens.latest⟩ }

variable {s : ScanState} {ts us : List Token}

@[simp] theorem plus_cursor : (s.plus ts).cursor = s.cursor := rfl
@[simp] theorem plus_pos : (s.plus ts).pos = s.pos := rfl
@[simp] theorem plus_outline : (s.plus ts).outline = s.outline := rfl
@[simp] theorem plus_regions : (s.plus ts).regions = s.regions := rfl
@[simp] theorem plus_depth : (s.plus ts).depth = s.depth := rfl

theorem plus_toList : (s.plus ts).tokens.toList = s.tokens.toList ++ ts := by
  simp [plus, TokenStream.toList]

theorem record_stretch (flat : s.outline = none) {src : Source} {kind : Option Kind} {start stop : Nat}
    (first : src.isBoundary start) (last : src.isBoundary stop) (le : start ≤ stop) :
    s.record (.raw kind (src.slice start stop)) = s.plus (src.stretch kind start stop) := by
  have size := Source.byteSize_between first last le
  rw [record_of_flat flat, TokenStream.push, plus, Source.stretch]
  by_cases any : start < stop
  · have some_ : ¬ (src.slice start stop).isEmpty := by
      intro empty
      have nothing : src.between start stop = [] := by simpa [Source.between] using empty
      rw [nothing, Text.byteSize_nil] at size
      omega
    have raw : ¬ (Token.raw kind (src.slice start stop)).text.isEmpty := some_
    rw [if_neg raw, if_pos any]
    rfl
  · obtain rfl : start = stop := by omega
    have raw : (Token.raw kind (src.slice start start)).text.isEmpty := by
      have nothing := Source.between_self first
      simpa [Token.raw, Source.between] using nothing
    rw [if_pos raw, if_neg any]
    rfl

end ScanState

section Operations

variable {src : Source} {s : ScanState} {fail : ScanError → ScanState → Prop} {post : Unit → ScanState → Prop}

theorem yields_recordStretch (sound : s.cursor.Sound src) (flat : s.outline = none) {kind : Option Kind}
    {start stop : Nat} (first : src.isBoundary start) (last : src.isBoundary stop) (le : start ≤ stop)
    (next : post () (s.plus (src.stretch kind start stop))) :
    Yields (Scan.recordRange start stop kind) s post fail := by
  have inOrder : ¬ stop < start := by omega
  have source : s.cursor.slice start stop = src.slice start stop := by rw [Cursor.slice, sound.source]
  simp only [Scan.recordRange]
  rw [if_neg inOrder]
  by_cases any : start < stop
  · rw [if_pos any]
    refine yields_bind.mpr (yields_ofCursor.mpr (yields_modify.mpr ?_))
    rw [source, ScanState.record_stretch flat first last le]
    exact next
  · rw [if_neg any]
    rw [Source.stretch, if_neg any] at next
    exact next

theorem yields_recordSpan (sound : s.cursor.Sound src) (flat : s.outline = none) {kind : Option Kind} {m : Match}
    (spans : m.Spans src) (next : post () (s.plus (src.stretch kind m.start m.stop))) :
    Yields (Scan.recordMatch kind m) s post fail := by
  refine yields_bind.mpr (yields_ofCursor.mpr (yields_modify.mpr ?_))
  have text : m.text s.cursor.source = src.slice m.start m.stop := by
    rw [sound.source]
    exact String.toList_injective spans.text_eq
  rw [text, ScanState.record_stretch flat spans.start spans.stop spans.le]
  exact next

theorem yields_recordRemainder (sound : s.cursor.Sound src) (flat : s.outline = none) {kind : Option Kind}
    (before : s.pos < src.size)
    (next : ∀ c : Cursor, c.Sound src → c.pos = src.size →
      post () { s.plus (src.stretch kind s.pos src.size) with cursor := c }) :
    Yields (Scan.recordRest kind) s post fail := by
  simp only [Scan.recordRest]
  refine yields_bind.mpr (yields_atEnd sound ?_)
  have inside : s.pos ≠ src.size := by omega
  simp only [inside, decide_false, Bool.not_false, if_true]
  have whole := sound.front (List.append_nil s.cursor.restChars).symm
  rw [sound.size_eq] at whole
  have text : s.cursor.rest = src.slice s.pos src.size := by
    apply String.toList_injective
    rw [Cursor.rest, String.toList_ofList]
    exact whole.2.symm
  refine yields_bind.mpr (yields_ofCursor.mpr (yields_bind.mpr (yields_modify.mpr ?_)))
  have here : src.isBoundary s.pos := sound.here
  rw [text, ScanState.record_stretch flat here whole.1 (Nat.le_of_lt before)]
  exact yields_terminate (s := s.plus _) sound next

/-- A step makes progress or names the place at which it made none. -/
theorem yields_ensureProgress_iff (sound : s.cursor.Sound src) {language : String} {start depth : Nat} :
    Yields (Scan.ensureProgress language start depth) s post fail ↔
      if start < s.pos ∨ s.depth ≠ depth ∨ s.pos = src.size then post () s
      else fail (.noProgress language start) s := by
  have moved : (start < s.pos || s.depth != depth || s.cursor.atEnd) = true ↔
      start < s.pos ∨ s.depth ≠ depth ∨ s.pos = src.size := by
    have ended : s.cursor.atEnd = true ↔ s.pos = src.size := sound.atEnd_iff
    simp [or_assoc, ended]
  simp only [Scan.ensureProgress, yields_bind, yields_get]
  by_cases progress : start < s.pos ∨ s.depth ≠ depth ∨ s.pos = src.size
  · rw [if_pos progress, if_pos (moved.mpr progress)]
    rfl
  · rw [if_neg progress, if_neg (mt moved.mp progress)]
    rfl

end Operations

namespace PatternTable

variable {t : PatternTable} {src : Source}

/-- The tokens of a table over a source from an offset on. They end at the end of the source, or in front of an
empty match before it, whose offset is named. -/
inductive Tokens (t : PatternTable) (src : Source) : Nat → List Token → Option Nat → Prop where
  | ended : Tokens t src src.size [] none
  | rest {pos : Nat} (before : pos < src.size) (absent : ∀ e ∈ t.entries, e.pattern.findFrom? src pos = none) :
      Tokens t src pos (src.stretch none pos src.size) none
  | token {pos : Nat} {next : NextMatch} {ts : List Token} {stuck : Option Nat} (before : pos < src.size)
      (nearest : t.Nearest (fun _ => true) src pos next)
      (moves : next.data.start < next.data.stop ∨ next.data.stop = src.size)
      (more : Tokens t src next.data.stop ts stuck) :
      Tokens t src pos (src.stretch none pos next.data.start ++
        src.stretch (some next.kind) next.data.start next.data.stop ++ ts) stuck
  | stuck {pos : Nat} {next : NextMatch} (before : pos < src.size)
      (nearest : t.Nearest (fun _ => true) src pos next) (empty : next.data.stop = next.data.start)
      (inside : next.data.start < src.size) :
      Tokens t src pos (src.stretch none pos next.data.start) (some next.data.start)

/-- The nearest match lies at or behind the offset, between boundaries of the source. -/
theorem Nearest.bounds {allowed : Kind → Bool} {pos : Nat} {next : NextMatch} (h : t.Nearest allowed src pos next) :
    pos ≤ next.data.start ∧ next.data.Spans src := by
  obtain ⟨e, _, _, _, found⟩ := h.entry
  obtain ⟨a, b, marks, occurs, above, _⟩ := Pattern.findFrom?_some found
  exact ⟨by rw [occurs.start]; exact above, occurs.spans⟩

theorem Nearest.not_absent {allowed : Kind → Bool} {pos : Nat} {next : NextMatch}
    (h : t.Nearest allowed src pos next) (absent : ∀ e ∈ t.entries, e.pattern.findFrom? src pos = none) : False := by
  obtain ⟨e, at_, _, _, found⟩ := h.entry
  rw [absent e (List.mem_of_getElem? at_)] at found
  cases found

/-- A table and a source have one list of tokens. -/
theorem Tokens.unique {pos : Nat} {ts us : List Token} {stuck other : Option Nat} (first : t.Tokens src pos ts stuck)
    (second : t.Tokens src pos us other) : us = ts ∧ other = stuck := by
  induction first generalizing us other with
  | ended =>
    cases second with
    | ended => exact ⟨rfl, rfl⟩
    | rest before => omega
    | token before => omega
    | stuck before => omega
  | rest before absent =>
    cases second with
    | ended => omega
    | rest => exact ⟨rfl, rfl⟩
    | token _ nearest => exact (nearest.not_absent absent).elim
    | stuck _ nearest => exact (nearest.not_absent absent).elim
  | token before nearest moves more ih =>
    cases second with
    | ended => omega
    | rest _ absent => exact (nearest.not_absent absent).elim
    | token _ nearest' _ more' =>
      obtain rfl := nearest.unique nearest'
      obtain ⟨rfl, rfl⟩ := ih more'
      exact ⟨rfl, rfl⟩
    | stuck _ nearest' empty inside =>
      obtain rfl := nearest.unique nearest'
      omega
  | stuck before nearest empty inside =>
    cases second with
    | ended => omega
    | rest _ absent => exact (nearest.not_absent absent).elim
    | token _ nearest' moves =>
      obtain rfl := nearest.unique nearest'
      omega
    | stuck _ nearest' =>
      obtain rfl := nearest.unique nearest'
      exact ⟨rfl, rfl⟩

/-- The tokens spell the source up to its end, or up to the empty match they come to. -/
theorem Tokens.spelling {pos : Nat} {ts : List Token} {stuck : Option Nat} (h : t.Tokens src pos ts stuck)
    (boundary : src.isBoundary pos) :
    pos ≤ stuck.getD src.size ∧ src.isBoundary (stuck.getD src.size) ∧
      Gloss.spelling ts = src.between pos (stuck.getD src.size) := by
  induction h with
  | ended => exact ⟨Nat.le_refl _, boundary, (Source.between_self boundary).symm⟩
  | rest before => exact ⟨Nat.le_of_lt before, src.isBoundary_size, spelling_stretch boundary (Nat.le_of_lt before)⟩
  | token before nearest moves more ih =>
    obtain ⟨above, spans⟩ := nearest.bounds
    obtain ⟨le, last, spelled⟩ := ih spans.stop
    have low := spans.le
    refine ⟨by omega, last, ?_⟩
    rw [spelling_append, spelling_append, spelling_stretch boundary above, spelling_stretch spans.start low, spelled,
      Source.between_append boundary spans.start spans.stop above low,
      Source.between_append boundary spans.stop last (by omega) le]
  | stuck before nearest empty inside =>
    obtain ⟨above, spans⟩ := nearest.bounds
    exact ⟨above, spans.start, spelling_stretch boundary above⟩

/-- From an offset on there is a nearest match, or none of the patterns has a match. -/
theorem nearest_or_absent (t : PatternTable) {pos : Nat} (boundary : src.isBoundary pos) :
    (∃ next, t.Nearest (fun _ => true) src pos next) ∨ ∀ e ∈ t.entries, e.pattern.findFrom? src pos = none := by
  obtain ⟨sound, here⟩ := (Cursor.sound_ofSource src).setPos boundary
  obtain ⟨next, _, _, _, _, _, some_, none_⟩ := nextAllowed_eq t (fun _ => true) sound
  rw [here] at some_ none_
  cases next with
  | some next => exact .inl ⟨next, some_ next rfl⟩
  | none => exact .inr fun e member => none_ rfl e member rfl

/-- Every table has tokens over every source. -/
theorem Tokens.exists (t : PatternTable) (src : Source) {pos : Nat} (boundary : src.isBoundary pos) :
    ∃ ts stuck, t.Tokens src pos ts stuck := by
  -- Each token that is not the last ends further on.
  generalize left : src.size - pos = n
  induction n using Nat.strongRecOn generalizing pos with
  | ind n ih =>
    have le := Source.isBoundary_le boundary
    by_cases ended : pos = src.size
    · rw [ended]
      exact ⟨_, _, .ended⟩
    · have before : pos < src.size := Nat.lt_of_le_of_ne le ended
      rcases t.nearest_or_absent boundary with ⟨next, nearest⟩ | absent
      · obtain ⟨above, spans⟩ := nearest.bounds
        have low := spans.le
        have within := Source.isBoundary_le spans.stop
        by_cases moves : next.data.start < next.data.stop ∨ next.data.stop = src.size
        · obtain ⟨ts, stuck, more⟩ := ih (src.size - next.data.stop) (by omega) spans.stop rfl
          exact ⟨_, _, .token before nearest moves more⟩
        · exact ⟨_, _, .stuck before nearest (by omega) (by omega)⟩
      · exact ⟨_, _, .rest before absent⟩

end PatternTable

namespace Flat

variable {g : Grammar} {src : Source} {s : ScanState}

/-- What a scan has done since a state: it has recorded tokens and has come to an offset. -/
structure Added (src : Source) (s : ScanState) (ts : List Token) (pos : Nat) (s' : ScanState) : Prop where
  sound : s'.cursor.Sound src
  flat : s'.outline = none
  here : s'.pos = pos
  tokens : s'.tokens.toList = s.tokens.toList ++ ts

theorem Added.boundary {ts : List Token} {pos : Nat} {s' : ScanState} (h : Added src s ts pos s') :
    src.isBoundary pos := by
  have here := h.sound.here
  rwa [show s'.cursor.pos = pos from h.here] at here

theorem Added.after {ts us : List Token} {mid pos : Nat} {s' s'' : ScanState} (second : Added src s' us pos s'')
    (first : Added src s ts mid s') : Added src s (ts ++ us) pos s'' := by
  refine ⟨second.sound, second.flat, second.here, ?_⟩
  rw [second.tokens, first.tokens, List.append_assoc]

/-- A match without a handler is recorded behind the text before it; an empty one before the end stops the
scan. -/
theorem yields_dispatch_plain (sound : s.cursor.Sound src) (flat : s.outline = none) {next : NextMatch}
    (nearest : g.patterns.Nearest (fun _ => true) src s.pos next) (plain : g.handlers.get? next.kind = none)
    {post : Unit → ScanState → Prop} {fail : ScanError → ScanState → Prop}
    (moved : ∀ s', next.data.start < next.data.stop ∨ next.data.stop = src.size →
      Added src s (src.stretch none s.pos next.data.start ++
        src.stretch (some next.kind) next.data.start next.data.stop) next.data.stop s' → post () s')
    (stuck : ∀ s', next.data.stop = next.data.start → next.data.start < src.size →
      Added src s (src.stretch none s.pos next.data.start) next.data.stop s' →
      fail (.noProgress g.name next.data.start) s') :
    Yields (dispatch g next s.pos) s post fail := by
  obtain ⟨above, spans⟩ := nearest.bounds
  simp only [dispatch]
  refine yields_bind.mpr (yields_recordStretch sound flat sound.here spans.start above ?_)
  refine yields_bind.mpr (yields_bind.mpr (yields_get.mpr (yields_pure.mpr ?_)))
  simp only [plain]
  refine yields_bind.mpr (yields_accept (s := s.plus _) sound spans ?_)
  intro c older sound' behind history
  refine yields_bind.mpr (yields_recordSpan (s := { s.plus _ with cursor := c }) sound' flat spans ?_)
  refine (yields_ensureProgress_iff sound').mpr ?_
  have low := spans.le
  have within := Source.isBoundary_le spans.stop
  have added : Added src s (src.stretch none s.pos next.data.start ++
      src.stretch (some next.kind) next.data.start next.data.stop) next.data.stop
      (ScanState.plus { s.plus (src.stretch none s.pos next.data.start) with cursor := c }
        (src.stretch (some next.kind) next.data.start next.data.stop)) := by
    refine ⟨sound', flat, behind, ?_⟩
    rw [← List.append_assoc, ScanState.plus_toList]
    exact congrArg (· ++ _) ScanState.plus_toList
  split
  · next progress =>
    refine moved _ ?_ added
    rcases progress with less | deeper | ended
    · exact .inl (Nat.lt_of_lt_of_eq less behind)
    · exact absurd rfl deeper
    · exact .inr (behind.symm.trans ended)
  · next still =>
    simp only [not_or] at still
    obtain ⟨notLess, _, notEnded⟩ := still
    have at_ : c.pos = next.data.stop := behind
    have empty : next.data.stop = next.data.start := by
      have : ¬ next.data.start < c.pos := notLess
      omega
    have inside : next.data.start < src.size := by
      have : ¬ c.pos = src.size := notEnded
      omega
    have nothing : src.stretch (some next.kind) next.data.start next.data.stop = [] := by
      simp [Source.stretch, empty]
    rw [nothing] at added ⊢
    rw [List.append_nil] at added
    exact stuck _ empty inside added

theorem yields_loop_ended {fuel : Nat} (sound : s.cursor.Sound src) (ended : s.pos = src.size)
    {post : Unit → ScanState → Prop} {fail : ScanError → ScanState → Prop} (done : post () s) :
    Yields (loop g (fuel + 1)) s post fail := by
  simp only [loop]
  refine yields_bind.mpr (yields_atEnd sound ?_)
  simp only [ended, decide_true, Bool.not_true, Bool.false_eq_true, if_false]
  exact done

theorem yields_loop_before {fuel : Nat} (sound : s.cursor.Sound src) (before : s.pos < src.size)
    {post : Unit → ScanState → Prop} {fail : ScanError → ScanState → Prop}
    (more : Yields (step g) s (fun _ s' => Yields (loop g fuel) s' post fail) fail) :
    Yields (loop g (fuel + 1)) s post fail := by
  have inside : s.pos ≠ src.size := by omega
  simp only [loop]
  refine yields_bind.mpr (yields_atEnd sound ?_)
  simp only [inside, decide_false, Bool.not_false, if_true]
  exact yields_bind.mpr more

end Flat

/-- A handler that accounts for what it passes over: where it succeeds, it has not gone back, and the tokens that it
has recorded spell the source from where it was called to where it left the cursor. -/
def Handler.Accounts (src : Source) (handler : Handler) : Prop :=
  ∀ (m : Match) (s s' : ScanState), s.cursor.Sound src → s.outline = none → s.pos = m.start →
    handler m s = .ok () s' →
      ∃ ts pos, s.pos ≤ pos ∧ Flat.Added src s ts pos s' ∧ spelling ts = src.between s.pos pos

namespace Flat

variable {g : Grammar} {src : Source} {s : ScanState}

/-- What a match leads to is spelled, whoever records it. -/
theorem yields_dispatch (accounts : ∀ kind handler, g.handlers.get? kind = some handler → handler.Accounts src)
    (sound : s.cursor.Sound src) (flat : s.outline = none) {next : NextMatch}
    (nearest : g.patterns.Nearest (fun _ => true) src s.pos next) :
    Yields (dispatch g next s.pos) s
      (fun _ s' => ∃ ts pos, s.pos ≤ pos ∧ Added src s ts pos s' ∧ spelling ts = src.between s.pos pos)
      fun _ _ => True := by
  have first : src.isBoundary s.pos := sound.here
  obtain ⟨above, spans⟩ := nearest.bounds
  have low := spans.le
  cases handled : g.handlers.get? next.kind with
  | none =>
    refine yields_dispatch_plain sound flat nearest handled ?_ fun _ _ _ _ => trivial
    intro s' _ added
    refine ⟨_, _, by omega, added, ?_⟩
    rw [spelling_append, spelling_stretch first above, spelling_stretch spans.start low,
      Source.between_append first spans.start spans.stop above low]
  | some handler =>
    simp only [dispatch]
    refine yields_bind.mpr (yields_recordStretch sound flat sound.here spans.start above ?_)
    refine yields_bind.mpr (yields_bind.mpr (yields_get.mpr (yields_pure.mpr ?_)))
    simp only [handled]
    refine yields_bind.mpr (yields_setPos (s := s.plus _) sound spans.start ?_)
    intro c sound' here
    have begun : Added src s (src.stretch none s.pos next.data.start) next.data.start
        { s.plus (src.stretch none s.pos next.data.start) with cursor := c } :=
      ⟨sound', flat, here, ScanState.plus_toList⟩
    refine yields_bind.mpr ?_
    simp only [Yields]
    split
    · next a s' ran =>
      obtain ⟨ts, pos, le, added, spelled⟩ :=
        accounts _ _ handled _ { s.plus _ with cursor := c } s' sound' flat here ran
      rw [begun.here] at le spelled
      have whole : ∃ ts pos, s.pos ≤ pos ∧ Added src s ts pos s' ∧ spelling ts = src.between s.pos pos := by
        refine ⟨_, pos, by omega, added.after begun, ?_⟩
        rw [spelling_append, spelling_stretch first above, spelled,
          Source.between_append first spans.start added.boundary above le]
      refine (yields_ensureProgress_iff added.sound).mpr ?_
      split
      · exact whole
      · trivial
    · trivial

/-- A scan that ends has recorded the source and nothing else. -/
theorem yields_loop (accounts : ∀ kind handler, g.handlers.get? kind = some handler → handler.Accounts src)
    {fuel : Nat} (sound : s.cursor.Sound src) (flat : s.outline = none) :
    Yields (loop g fuel) s
      (fun _ s' => ∃ ts, Added src s ts src.size s' ∧ spelling ts = src.between s.pos src.size) fun _ _ => True := by
  induction fuel generalizing s with
  | zero => trivial
  | succ fuel ih =>
    have le := sound.le_size
    by_cases ended : s.pos = src.size
    · refine yields_loop_ended sound ended ⟨[], ⟨sound, flat, ended, (List.append_nil _).symm⟩, ?_⟩
      rw [ended, Source.between_self src.isBoundary_size]
      rfl
    · have before : s.pos < src.size := Nat.lt_of_le_of_ne le ended
      have first : src.isBoundary s.pos := sound.here
      refine yields_loop_before sound before ?_
      -- What a step has spelled, the steps after it go on from.
      have goOn : ∀ ts pos s', s.pos ≤ pos → Added src s ts pos s' → spelling ts = src.between s.pos pos →
          Yields (loop g fuel) s'
            (fun _ s' => ∃ ts, Added src s ts src.size s' ∧ spelling ts = src.between s.pos src.size)
            fun _ _ => True := by
        intro ts pos s' above added spelled
        refine (ih added.sound added.flat).mono ?_ fun _ _ _ => trivial
        rintro _ s'' ⟨us, rest, spelled'⟩
        refine ⟨_, rest.after added, ?_⟩
        rw [added.here] at spelled'
        rw [spelling_append, spelled, spelled',
          Source.between_append first added.boundary src.isBoundary_size above (Source.isBoundary_le added.boundary)]
      simp only [step]
      refine yields_bind.mpr (yields_ofCursor.mpr (yields_bind.mpr (yields_nextMatch sound g ?_ ?_)))
      · intro c sound' here _
        have here' : ({ s with cursor := c } : ScanState).pos = s.pos := here
        refine yields_recordRemainder (s := { s with cursor := c }) sound' flat (by rw [here']; exact before) ?_
        intro d sound'' atEnd
        refine goOn (src.stretch none s.pos src.size) src.size _ le ⟨sound'', flat, atEnd, ?_⟩
          (spelling_stretch sound.here le)
        rw [← here']
        exact ScanState.plus_toList
      · intro next c sound' here nearest
        have here' : ({ s with cursor := c } : ScanState).pos = s.pos := here
        rw [← here'] at nearest
        have same : dispatch g next s.pos = dispatch g next ({ s with cursor := c } : ScanState).pos := by rw [here']
        show Yields (dispatch g next s.pos) { s with cursor := c } _ _
        rw [same]
        refine (yields_dispatch (s := { s with cursor := c }) accounts sound' flat nearest).mono ?_ fun _ _ _ => trivial
        rintro _ s' ⟨ts, pos, above, added, spelled⟩
        rw [here'] at above spelled
        exact goOn ts pos s' above ⟨added.sound, added.flat, added.here, added.tokens⟩ spelled

end Flat

end Gloss

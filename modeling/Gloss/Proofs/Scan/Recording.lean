import Gloss.Proofs.Filter.Rendering
import Gloss.Proofs.Pattern.Nearest
import Gloss.Proofs.Scan.Effects
import Gloss.Scan.Unwind

/-!
Recording a source without a gap. While a scan goes on, the recorded tokens spell the source from where the
scan started up to some offset. Operations of the cursor keep this, and recording the stretch that follows
moves the offset on. Each rule says what has to hold of the state that an operation leads to.
-/
namespace Gloss

open Text (Spot Source)
open Markup (Shows WellNamed escapeChars)

/-- The texts of tokens, one after another. -/
def spelling (ts : List Token) : List Char := ts.flatMap (·.text.toList)

@[simp] theorem spelling_append (ts us : List Token) : spelling (ts ++ us) = spelling ts ++ spelling us :=
  List.flatMap_append

theorem toList_join_map (f : Token → String) (ts : List Token) :
    (String.join (ts.map f)).toList = ts.flatMap fun t => (f t).toList := by
  induction ts with
  | nil => rfl
  | cons t ts ih => rw [List.map_cons, String.join_cons, String.toList_append, ih, List.flatMap_cons]

theorem toList_join_texts (ts : List Token) : (String.join (ts.map (·.text))).toList = spelling ts :=
  toList_join_map _ ts

/-- A token has a part of what all of them spell. -/
theorem spelling_of_mem {ts : List Token} {t : Token} (member : t ∈ ts) :
    ∃ a c, spelling ts = a ++ t.text.toList ++ c := by
  obtain ⟨front, back, rfl⟩ := List.append_of_mem member
  exact ⟨spelling front, spelling back, by simp [spelling]⟩

/-- The token is text, not finished markup. -/
def Token.IsRaw (t : Token) : Prop := t.escaped = false

theorem Token.isRaw_raw (kind : Option Kind) (text : String) : (raw kind text).IsRaw := rfl

/-- The text that a token stands for: its own, or what its markup shows. -/
def Token.told (t : Token) : String := if t.escaped then Markup.strip t.text else t.text

theorem Token.told_of_isRaw {t : Token} (raw : t.IsRaw) : t.told = t.text := by
  rw [told, show t.escaped = false from raw]
  rfl

/-- A token that shows a text stands for it. -/
theorem Token.told_of_shown {t : Token} {w : List Char} (shown : t.Shown (escapeChars w)) : t.told.toList = w := by
  have same := shown.stripChars
  rw [Markup.unescapeChars_escapeChars] at same
  rw [told]
  split
  · next escaped =>
    have text : Markup.escapeToken t = t := by rw [Markup.escapeToken, if_pos escaped]
    rw [text] at same
    rw [Markup.strip, String.toList_ofList, same]
  · next raw =>
    have text := Token.escapeToken_raw (Bool.eq_false_iff.mpr raw)
    rw [text, (Markup.shows_escapeChars _).stripChars, Markup.unescapeChars_escapeChars] at same
    exact same

/-- Tokens stand for what they spell, part by part. -/
theorem Spells.told_eq {Allowed : Token → Prop} {latest : List Token} {w : List Char} (h : Spells Allowed latest w) :
    latest.reverse.flatMap (·.told.toList) = w := by
  induction h with
  | nil => rfl
  | push _ _ shown _ ih =>
    rw [List.reverse_cons, List.flatMap_append, ih, List.flatMap_singleton, Token.told_of_shown shown]

theorem Spells.each {Allowed : Token → Prop} {latest : List Token} {w : List Char} (h : Spells Allowed latest w) :
    ∀ t ∈ latest, Allowed t ∧ t.Named := by
  induction h with
  | nil => simp
  | push _ allowed _ named ih =>
    intro t member
    rcases List.mem_cons.mp member with rfl | member
    · exact ⟨allowed, named⟩
    · exact ih t member

theorem Spells.shown {Allowed : Token → Prop} {latest : List Token} {w : List Char} (h : Spells Allowed latest w) :
    ∀ t ∈ latest, ∃ x, t.Shown (escapeChars x) := by
  induction h with
  | nil => simp
  | push _ _ shown _ ih =>
    intro t member
    rcases List.mem_cons.mp member with rfl | member
    · exact ⟨_, shown⟩
    · exact ih t member

/-- Tokens of text spell their texts. -/
theorem Spells.spelling_eq {latest : List Token} {w : List Char} (h : Spells Token.IsRaw latest w) :
    spelling latest.reverse = w := by
  have same : ∀ t ∈ latest.reverse, t.text.toList = t.told.toList := by
    intro t member
    rw [Token.told_of_isRaw (h.each t (List.mem_reverse.mp member)).1]
  rw [← h.told_eq, spelling, List.flatMap_def, List.flatMap_def, List.map_congr_left same]

/-- Where recording begins: an offset, and the tokens that were recorded before, latest first. -/
structure Origin where
  pos : Nat
  earlier : List Token := []

instance : Coe Nat Origin := ⟨fun pos => { pos }⟩

/-- The source from `start` up to `upTo` is recorded behind what was recorded before, and nothing else. -/
structure Recorded (src : Source) (Allowed : Token → Prop) (start : Origin) (upTo : Nat) (s : ScanState) : Prop where
  sound : s.cursor.Sound src
  flat : s.outline = none
  first : src.isBoundary start.pos
  last : src.isBoundary upTo
  le : start.pos ≤ upTo
  spells : ∃ added, s.tokens.latest = added ++ start.earlier ∧ Spells Allowed added (src.between start.pos upTo)
  defs : ∀ name kind, s.userDefs.get? name = some kind → WellNamed kind
  raw : ∀ kind text, Allowed (.raw kind text)

namespace ScanState

variable {s : ScanState} {t : Token}

theorem record_of_flat (flat : s.outline = none) : s.record t = { s with tokens := s.tokens.push t } := by
  simp only [record, flat]

@[simp] theorem record_cursor : (s.record t).cursor = s.cursor := by
  simp only [record]
  split <;> rfl

@[simp] theorem record_regions : (s.record t).regions = s.regions := by
  simp only [record]
  split <;> rfl

@[simp] theorem record_userDefs : (s.record t).userDefs = s.userDefs := by
  simp only [record]
  split <;> rfl

theorem record_withCursor {c : Cursor} : ({ s with cursor := c } : ScanState).record t = { s.record t with cursor := c } := by
  simp only [record]
  split <;> rfl

/-- Without text nothing is recorded. -/
theorem record_of_isEmpty (empty : t.text.isEmpty) : s.record t = s := by
  simp only [record]
  split
  · next o eq =>
    have same : o.record t = o := by simp [Outline.record, empty]
    rw [same, ← eq]
  · have same : s.tokens.push t = s.tokens := by simp [TokenStream.push, empty]
    rw [same]

theorem record_empty {kind : Option Kind} : s.record (.raw kind "") = s := record_of_isEmpty rfl

end ScanState

namespace Recorded

variable {src : Source} {Allowed : Token → Prop} {start : Origin} {upTo : Nat} {s : ScanState}

/-- A state in which nothing but the cursor is another. -/
theorem withCursor (h : Recorded src Allowed start upTo s) {c : Cursor} (sound : c.Sound src) :
    Recorded src Allowed start upTo { s with cursor := c } :=
  ⟨sound, h.flat, h.first, h.last, h.le, h.spells, h.defs, h.raw⟩

/-- Recording a token that shows what comes next. -/
theorem push (h : Recorded src Allowed start upTo s) {t : Token} {stop : Nat} (boundary : src.isBoundary stop)
    (le : upTo ≤ stop) (allowed : Allowed t) (shown : t.Shown (escapeChars (src.between upTo stop)))
    (named : t.Named) : Recorded src Allowed start stop (s.record t) := by
  have whole := Source.between_append h.first h.last boundary h.le le
  rw [ScanState.record_of_flat h.flat]
  refine ⟨h.sound, h.flat, h.first, boundary, Nat.le_trans h.le le, ?_, h.defs, h.raw⟩
  rw [← whole]
  obtain ⟨added, latest, spells⟩ := h.spells
  simp only [TokenStream.push]
  split
  · next empty =>
    -- A token without text is not recorded, but then there was nothing to show.
    have text : t.text = "" := by simpa using empty
    have nothing : src.between upTo stop = [] := by
      have blank : (Markup.escapeToken t).text.toList = [] := by
        simp only [Markup.escapeToken, Markup.escape, text]
        split <;> simp [text, escapeChars]
      rw [Token.Shown, blank] at shown
      have same := shown.stripChars
      rw [Markup.unescapeChars_escapeChars] at same
      exact same.symm
    rw [nothing, List.append_nil]
    exact ⟨added, latest, spells⟩
  · exact ⟨t :: added, by simp [latest], .push spells allowed shown named⟩

/-- Recording the text that comes next. -/
theorem pushText (h : Recorded src Allowed start upTo s) {kind : Option Kind} {text : String} {stop : Nat}
    (boundary : src.isBoundary stop) (le : upTo ≤ stop) (text_eq : text.toList = src.between upTo stop)
    (named : ∀ k, kind = some k → WellNamed k) :
    Recorded src Allowed start stop (s.record (.raw kind text)) := by
  refine h.push boundary le (h.raw kind text) ?_ named
  rw [← text_eq]
  exact Token.shown_of_raw rfl

/-- Recording the two halves of a match. -/
theorem pushHalves {m : Match} {mid : Nat} (h : Recorded src Allowed start m.start s) (spans : m.Spans src)
    (halves : m.Halves src mid) {kind kind' : Option Kind} (named : ∀ k, kind = some k → WellNamed k)
    (named' : ∀ k, kind' = some k → WellNamed k) :
    Recorded src Allowed start m.stop
      ((s.record (.raw kind (m.groupText src 1))).record (.raw kind' (m.groupText src 2))) :=
  (h.pushText halves.boundary halves.low halves.first named).pushText spans.stop halves.high halves.second named'

/-- Recording the two halves of the match that the cursor is behind. -/
theorem pushHalves_behind {m : Match} {mid : Nat} (h : Recorded src Allowed start m.start s) {c : Cursor}
    (sound : c.Sound src) (behind : c.pos = m.stop) (spans : m.Spans src) (halves : m.Halves src mid)
    {kind kind' : Option Kind} (named : ∀ k, kind = some k → WellNamed k)
    (named' : ∀ k, kind' = some k → WellNamed k) {s' : ScanState}
    (eq : s' = (({ s with cursor := c } : ScanState).record (.raw kind (m.groupText c.source 1))).record
      (.raw kind' (m.groupText c.source 2))) :
    Recorded src Allowed start s'.pos s' ∧ s'.pos = m.stop ∧ s'.regions = s.regions := by
  have both := (h.withCursor sound).pushHalves spans halves named named'
  rw [← sound.source] at both
  have at_ : s'.pos = m.stop := by
    rw [eq, ScanState.pos, ScanState.record_cursor, ScanState.record_cursor]
    exact behind
  refine ⟨?_, at_, ?_⟩
  · rw [at_, eq, ← sound.source]
    exact both
  · rw [eq, ScanState.record_regions, ScanState.record_regions]

/-- At the place where recording begins nothing is recorded yet. -/
theorem nothing {pos : Nat} (boundary : src.isBoundary pos) (sound : s.cursor.Sound src) (flat : s.outline = none)
    (defs : ∀ name kind, s.userDefs.get? name = some kind → WellNamed kind)
    (raw : ∀ kind text, Allowed (.raw kind text)) : Recorded src Allowed ⟨pos, s.tokens.latest⟩ pos s := by
  refine ⟨sound, flat, boundary, boundary, Nat.le_refl _, ⟨[], rfl, ?_⟩, defs, raw⟩
  rw [Source.between_self boundary]
  exact .nil

end Recorded

section Operations

variable {src : Source} {s : ScanState} {fail : ScanError → ScanState → Prop}

/-- What is scanned is the first match from the cursor on. -/
theorem yields_scanFirst (sound : s.cursor.Sound src) (p : Pattern) {post : Option Match → ScanState → Prop}
    (missed : ∀ c : Cursor, c.Sound src → c.pos = s.pos →
      (∀ u : Spot, u.In src.chars → u.pos = s.pos → ¬ p.Starts u) → post none { s with cursor := c })
    (found : ∀ (m : Match) (c : Cursor) (a b : Spot) (marks : Regex.Marks), c.Sound src → c.pos = m.stop →
      p.Occurs src m a b marks → a.pos = s.pos → p.findFrom? src s.pos = some m →
      post (some m) { s with cursor := c }) :
    Yields (Scan.scan p) s post fail := by
  obtain ⟨r, c, eq, sound', checked, pos⟩ := sound.scan p
  rw [Scan.scan, yields_onCursor, eq]
  cases checked with
  | none absent => exact missed c sound' pos absent
  | some occurs here first => exact found _ c _ _ _ sound' pos occurs here first

theorem yields_scan (sound : s.cursor.Sound src) (p : Pattern) {post : Option Match → ScanState → Prop}
    (missed : ∀ c : Cursor, c.Sound src → c.pos = s.pos →
      (∀ u : Spot, u.In src.chars → u.pos = s.pos → ¬ p.Starts u) → post none { s with cursor := c })
    (found : ∀ (m : Match) (c : Cursor) (a b : Spot) (marks : Regex.Marks), c.Sound src → c.pos = m.stop →
      p.Occurs src m a b marks → a.pos = s.pos → post (some m) { s with cursor := c }) :
    Yields (Scan.scan p) s post fail :=
  yields_scanFirst sound p missed fun m c a b marks sound' pos occurs here _ =>
    found m c a b marks sound' pos occurs here

theorem yields_search (sound : s.cursor.Sound src) (p : Pattern) {post : Option Match → ScanState → Prop}
    (next : ∀ c : Cursor, c.Sound src → c.pos = s.pos → post (p.findFrom? src s.pos) { s with cursor := c }) :
    Yields (Scan.search p) s post fail := by
  obtain ⟨c, eq, sound', pos, _⟩ := sound.search p
  rw [Scan.search, yields_onCursor, eq]
  exact next c sound' pos

theorem yields_check (sound : s.cursor.Sound src) (p : Pattern) {post : Option Match → ScanState → Prop}
    (missed : ∀ c : Cursor, c.Sound src → c.pos = s.pos →
      (∀ u : Spot, u.In src.chars → u.pos = s.pos → ¬ p.Starts u) → post none { s with cursor := c })
    (found : ∀ (m : Match) (c : Cursor) (a b : Spot) (marks : Regex.Marks), c.Sound src → c.pos = s.pos →
      p.Occurs src m a b marks → a.pos = s.pos → post (some m) { s with cursor := c }) :
    Yields (Scan.check p) s post fail := by
  obtain ⟨r, c, eq, sound', pos, _, checked⟩ := sound.check p
  rw [Scan.check, yields_onCursor, eq]
  cases checked with
  | none absent => exact missed c sound' pos absent
  | some occurs here => exact found _ c _ _ _ sound' pos occurs here

theorem yields_scanUntil (sound : s.cursor.Sound src) (p : Pattern) {post : Option Match → ScanState → Prop}
    (missed : ∀ c : Cursor, c.Sound src → c.pos = s.pos → p.findFrom? src s.pos = none →
      post none { s with cursor := c })
    (found : ∀ (m : Match) (c : Cursor), c.Sound src → p.findFrom? src s.pos = some m → c.pos = m.start →
      (Match.ofRange s.pos m.start).Spans src → post (some (Match.ofRange s.pos m.start)) { s with cursor := c }) :
    Yields (Scan.scanUntil p) s post fail := by
  obtain ⟨r, c, eq, sound', ⟨rfl, pos, none_⟩ | ⟨m, some_, rfl, pos, le, boundary⟩⟩ := sound.scanUntil p
  · rw [Scan.scanUntil, yields_onCursor, eq]
    exact missed c sound' pos none_
  · rw [Scan.scanUntil, yields_onCursor, eq]
    exact found m c sound' some_ pos ⟨sound.here, boundary, le⟩

theorem yields_setPos (sound : s.cursor.Sound src) {pos : Nat} (boundary : src.isBoundary pos)
    {post : Unit → ScanState → Prop}
    (next : ∀ c : Cursor, c.Sound src → c.pos = pos → post () { s with cursor := c }) :
    Yields (Scan.setPos pos) s post fail := by
  obtain ⟨sound', here⟩ := sound.setPos boundary
  exact next _ sound' here

theorem yields_shift (sound : s.cursor.Sound src) {bytes : Nat} (boundary : src.isBoundary (s.pos + bytes))
    {post : Unit → ScanState → Prop}
    (next : ∀ c : Cursor, c.Sound src → c.pos = s.pos + bytes → post () { s with cursor := c }) :
    Yields (Scan.shift bytes) s post fail := by
  show Yields (Scan.setPos (s.pos + bytes)) s post fail
  exact yields_setPos sound boundary next

theorem yields_accept (sound : s.cursor.Sound src) {m : Match} (spans : m.Spans src)
    {post : Unit → ScanState → Prop}
    (next : ∀ (c : Cursor) (older : List Cursor.Logged), c.Sound src → c.pos = m.stop →
      c.history = ⟨m.start, m⟩ :: older → post () { s with cursor := c }) :
    Yields (Scan.accept m) s post fail := by
  obtain ⟨sound', pos, history⟩ := sound.accept spans
  exact next _ _ sound' pos history

theorem yields_unscan (sound : s.cursor.Sound src) {m : Match} {older : List Cursor.Logged}
    (latest : s.cursor.history = ⟨m.start, m⟩ :: older) {post : Bool → ScanState → Prop}
    (next : ∀ c : Cursor, c.Sound src → c.pos = m.start → post true { s with cursor := c }) :
    Yields Scan.unscan s post fail := by
  obtain ⟨c, eq, sound', pos⟩ := sound.unscan latest
  rw [Scan.unscan, yields_onCursor, eq]
  exact next c sound' pos

theorem yields_take (sound : s.cursor.Sound src) (n : Nat) {post : String → ScanState → Prop}
    (next : ∀ (text : String) (c : Cursor), c.Sound src → s.pos ≤ c.pos →
      text.toList = src.between s.pos c.pos → text.toList = s.cursor.restChars.take n →
      post text { s with cursor := c }) :
    Yields (Scan.take n) s post fail := by
  obtain ⟨text, c, eq, sound', le, between, taken⟩ := sound.take n
  rw [Scan.take, yields_onCursor, eq]
  exact next text c sound' le between taken

theorem yields_terminate (sound : s.cursor.Sound src) {post : Unit → ScanState → Prop}
    (next : ∀ c : Cursor, c.Sound src → c.pos = src.size → post () { s with cursor := c }) :
    Yields Scan.terminate s post fail := by
  obtain ⟨sound', pos⟩ := sound.terminate
  exact next _ sound' pos

theorem yields_atEnd (sound : s.cursor.Sound src) {post : Bool → ScanState → Prop}
    (next : post (decide (s.pos = src.size)) s) : Yields Scan.atEnd s post fail := by
  have same : s.cursor.atEnd = decide (s.pos = src.size) := by
    rw [Bool.eq_iff_iff, decide_eq_true_eq]
    exact sound.atEnd_iff
  rw [Scan.atEnd, yields_ofCursor, same]
  exact next

/-- White space at the cursor is recorded, if there is any. -/
theorem yields_skipBlank (sound : s.cursor.Sound src) {post : Unit → ScanState → Prop}
    (next : ∀ (w : List Char) (c : Cursor), c.Sound src → s.pos ≤ c.pos → src.between s.pos c.pos = w →
      (∀ ch ∈ w, Unicode.isBlank ch) → post () { s.record (.raw none (String.ofList w)) with cursor := c }) :
    Yields Scan.skipBlank s post fail := by
  simp only [Scan.skipBlank]
  have parts := (List.takeWhile_append_dropWhile (p := Unicode.isBlank) (l := s.cursor.restChars)).symm
  have blanks : ∀ c ∈ s.cursor.restChars.takeWhile Unicode.isBlank, Unicode.isBlank c :=
    fun c member => List.all_eq_true.mp List.all_takeWhile c member
  obtain ⟨boundary, between⟩ := sound.front parts
  refine yields_bind.mpr (yields_ofCursor.mpr ?_)
  generalize s.cursor.restChars.takeWhile Unicode.isBlank = blank at blanks boundary between ⊢
  by_cases empty : blank = []
  · simp only [empty, List.isEmpty_nil, Bool.not_true, Bool.false_eq_true, if_false]
    have here := next [] s.cursor sound (Nat.le_refl _) (Source.between_self sound.here) (by simp)
    rwa [String.ofList_nil, ScanState.record_empty] at here
  · have some_ : blank.isEmpty = false := by simpa using empty
    simp only [some_, Bool.not_false, if_true]
    refine yields_bind.mpr (yields_ofCursor.mpr ?_)
    refine yields_bind.mpr (yields_ofCursor.mpr ?_)
    have slice : s.cursor.slice s.cursor.pos (s.cursor.pos + Text.byteSize blank) = String.ofList blank := by
      rw [Cursor.slice, sound.source, Source.slice_eq_ofList, between]
    rw [slice]
    refine yields_bind.mpr (yields_setPos sound boundary ?_)
    intro c sound' pos
    have last := next blank c sound' (by rw [pos]; exact Nat.le_add_right _ _) (by rw [pos]; exact between) blanks
    refine yields_modify.mpr ?_
    rwa [ScanState.record_withCursor]

theorem yields_nextMatch (sound : s.cursor.Sound src) (g : Grammar) {post : Option NextMatch → ScanState → Prop}
    (missed : ∀ c : Cursor, c.Sound src → c.pos = s.pos →
      (∀ e ∈ g.patterns.entries, e.pattern.findFrom? src s.pos = none) → post none { s with cursor := c })
    (found : ∀ (next : NextMatch) (c : Cursor), c.Sound src → c.pos = s.pos →
      g.patterns.Nearest (fun _ => true) src s.pos next → post (some next) { s with cursor := c }) :
    Yields g.nextMatch s post fail := by
  obtain ⟨next, c, eq, sound', pos, _, some_, none_⟩ :=
    PatternTable.nextAllowed_eq g.patterns (fun _ => true) sound
  rw [Grammar.nextMatch, yields_onCursor, PatternTable.nextMatch, eq]
  cases next with
  | none => exact missed c sound' pos fun e member => none_ rfl e member rfl
  | some n => exact found n c sound' pos (some_ n rfl)

/-- What comes next is the nearest match, and nothing if there is none. -/
theorem yields_nextMatch_iff (sound : s.cursor.Sound src) (g : Grammar) {post : Option NextMatch → ScanState → Prop}
    (after : ∀ (next : Option NextMatch) (c : Cursor), c.Sound src → c.pos = s.pos →
      (∀ n, next = some n ↔ g.patterns.Nearest (fun _ => true) src s.pos n) → post next { s with cursor := c }) :
    Yields g.nextMatch s post fail := by
  refine yields_nextMatch sound g ?_ ?_
  · intro c sound' pos absent
    refine after none c sound' pos ?_
    refine fun n => ⟨nofun, fun nearest => ?_⟩
    obtain ⟨e, at_, _, _, found⟩ := nearest.entry
    rw [absent e (List.mem_of_getElem? at_)] at found
    cases found
  · intro next c sound' pos nearest
    refine after (some next) c sound' pos ?_
    refine fun n => ⟨?_, fun other => congrArg some (nearest.unique other)⟩
    rintro ⟨⟩
    exact nearest

theorem yields_ensureProgress {language : String} {start depth : Nat} {post : Unit → ScanState → Prop}
    (progress : start < s.pos ∨ s.depth ≠ depth ∨ s.cursor.atEnd) (next : post () s) :
    Yields (Scan.ensureProgress language start depth) s post fail := by
  have moved : (start < s.pos || s.depth != depth || s.cursor.atEnd) = true := by
    simpa [or_assoc] using progress
  simp only [Scan.ensureProgress, yields_bind, yields_get]
  rw [if_pos moved]
  exact next

theorem yields_compile {text : String} {post : Pattern → ScanState → Prop}
    (ok : ∀ p, Pattern.compile text = .ok p → post p s)
    (error : ∀ e, Pattern.compile text = .error e → fail (.invalidPattern e) s) :
    Yields (Scan.compile text) s post fail := by
  simp only [Scan.compile]
  split
  · next p eq => exact ok p eq
  · next e eq => exact error e eq

/-- A text that writes a pattern, unless the pattern is refused for its size. -/
theorem yields_compile_sized {text : String} {parsed : Regex.Parsed} {fits : Prop} [Decidable fits]
    (read : Regex.parse text = if fits then .ok parsed else .error .tooLarge) {post : Pattern → ScanState → Prop}
    (ok : ∀ p, fits → post p s) (refused : ¬ fits → fail (.invalidPattern ⟨text, .tooLarge⟩) s) :
    Yields (Scan.compile text) s post fail := by
  by_cases fit : fits
  · rw [if_pos fit] at read
    obtain ⟨q, compiled, _⟩ := Pattern.compile_of_ok read
    refine yields_compile (fun p _ => ok p fit) ?_
    intro e eq
    rw [compiled] at eq
    cases eq
  · rw [if_neg fit] at read
    have compiled := Pattern.compile_of_error read
    refine yields_compile ?_ ?_
    · intro p eq
      rw [compiled] at eq
      cases eq
    · intro e eq
      rw [compiled] at eq
      cases eq
      exact refused fit

end Operations

namespace Recorded

variable {src : Source} {Allowed : Token → Prop} {start : Origin} {upTo : Nat} {s : ScanState}
  {fail : ScanError → ScanState → Prop} {post : Unit → ScanState → Prop} {kind : Option Kind} {m : Match}

theorem pushMatch (h : Recorded src Allowed start m.start s) (spans : m.Spans src)
    (named : ∀ k, kind = some k → WellNamed k) :
    Recorded src Allowed start m.stop (s.record (.raw kind (m.text s.cursor.source))) := by
  refine h.pushText spans.stop spans.le ?_ named
  rw [h.sound.source]
  exact spans.text_eq

/-- All between what is recorded and the cursor is recorded. -/
theorem recordSince (h : Recorded src Allowed start upTo s) (le : upTo ≤ s.pos) (named : ∀ k, kind = some k → WellNamed k)
    (next : ∀ s', Recorded src Allowed start s'.pos s' → s'.pos = s.pos → s'.regions = s.regions → post () s') :
    Yields (Scan.record kind (s.cursor.slice upTo s.cursor.pos)) s post fail := by
  have text_eq : (s.cursor.slice upTo s.cursor.pos).toList = src.between upTo s.pos := by
    rw [Cursor.slice, h.sound.source]
    rfl
  refine yields_modify.mpr (next _ ?_ ?_ ScanState.record_regions)
  · simp only [ScanState.pos, ScanState.record_cursor]
    exact h.pushText h.sound.here le text_eq named
  · simp only [ScanState.pos, ScanState.record_cursor]

/-- The cursor is moved to where it is recorded up to. -/
theorem shiftTo (h : Recorded src Allowed start upTo s) {bytes : Nat} (there : s.pos + bytes = upTo)
    (next : ∀ s', Recorded src Allowed start s'.pos s' → s'.pos = upTo → s'.regions = s.regions → post () s') :
    Yields (Scan.shift bytes) s post fail := by
  subst there
  refine yields_shift h.sound h.last ?_
  intro c sound pos
  have at_ : ({ s with cursor := c } : ScanState).pos = s.pos + bytes := pos
  have moved := h.withCursor sound
  rw [← at_] at moved
  exact next _ moved at_ rfl

/-- The cursor is moved behind a word, which is recorded then. -/
theorem shiftAndRecord {α : Type} {rest : ScanM α} {post : α → ScanState → Prop} {a b : Spot} {word : List Char}
    (h : Recorded src Allowed start a.pos s) (inside : a.In src.chars) (reads : Spot.Reads a word b) {bytes : Nat}
    (there : s.pos + bytes = b.pos) (named : ∀ k, kind = some k → WellNamed k)
    (next : ∀ s', Recorded src Allowed start s'.pos s' → s'.pos = b.pos → s'.regions = s.regions →
      Yields rest s' post fail) :
    Yields (do Scan.shift bytes; Scan.record kind (String.ofList word); rest) s post fail := by
  have boundary := Source.isBoundary_of_in (inside.reads reads)
  rw [← there] at boundary
  refine yields_bind.mpr (yields_shift h.sound boundary ?_)
  intro c sound pos
  rw [there] at boundary pos
  have pushed := (h.withCursor sound).pushText boundary reads.pos_le
    (by rw [String.toList_ofList, Source.between_reads inside reads]) named
  have at_ : (ScanState.record { s with cursor := c } (.raw kind (String.ofList word))).pos = b.pos := by
    rw [ScanState.pos, ScanState.record_cursor]
    exact pos
  rw [← at_] at pushed
  exact yields_bind.mpr (yields_modify.mpr (next _ pushed at_ ScanState.record_regions))

theorem recordMatch (h : Recorded src Allowed start upTo s) (spans : m.Spans src) (next_ : m.start = upTo)
    (named : ∀ k, kind = some k → WellNamed k)
    (next : ∀ s', Recorded src Allowed start m.stop s' → s'.cursor = s.cursor → s'.regions = s.regions →
      post () s') :
    Yields (Scan.recordMatch kind m) s post fail := by
  subst next_
  exact next _ (h.pushMatch spans named) (by simp) (by simp)

/-- The match that the cursor is behind is recorded. -/
theorem recordBehind (h : Recorded src Allowed start m.start s) (spans : m.Spans src) (behind : s.pos = m.stop)
    (named : ∀ k, kind = some k → WellNamed k)
    (next : ∀ s', Recorded src Allowed start s'.pos s' → s'.pos = m.stop → s'.regions = s.regions → post () s') :
    Yields (Scan.recordMatch kind m) s post fail := by
  refine h.recordMatch spans rfl named ?_
  intro s' recorded cursor regions
  have at_ : s'.pos = m.stop := by
    show s'.cursor.pos = m.stop
    rw [cursor]
    exact behind
  rw [← at_] at recorded
  exact next s' recorded at_ regions

theorem recordRange (h : Recorded src Allowed start upTo s) {stop : Nat} (boundary : src.isBoundary stop)
    (le : upTo ≤ stop) (named : ∀ k, kind = some k → WellNamed k)
    (next : ∀ s', Recorded src Allowed start stop s' → s'.cursor = s.cursor → s'.regions = s.regions →
      post () s') :
    Yields (Scan.recordRange upTo stop kind) s post fail := by
  have inOrder : ¬ stop < upTo := by omega
  simp only [Scan.recordRange]
  rw [if_neg inOrder]
  by_cases any : upTo < stop
  · rw [if_pos any]
    refine next _ (h.pushText boundary le ?_ named) (by simp) (by simp)
    show (s.cursor.source.slice upTo stop).toList = src.between upTo stop
    rw [h.sound.source]
    rfl
  · obtain rfl : upTo = stop := by omega
    rw [if_neg any]
    exact next s h rfl rfl

theorem recordRest (h : Recorded src Allowed start s.pos s) (named : ∀ k, kind = some k → WellNamed k)
    (next : ∀ s', Recorded src Allowed start src.size s' → s'.pos = src.size → s'.regions = s.regions →
      post () s') :
    Yields (Scan.recordRest kind) s post fail := by
  simp only [Scan.recordRest]
  refine yields_bind.mpr (yields_atEnd h.sound ?_)
  by_cases ended : s.pos = src.size
  · rw [ended] at h
    simp only [ended, decide_true, Bool.not_true, Bool.false_eq_true, if_false]
    exact next s h ended rfl
  · simp only [ended, decide_false, Bool.not_false, if_true]
    have whole := h.sound.front (List.append_nil s.cursor.restChars).symm
    rw [h.sound.size_eq] at whole
    have le := h.sound.le_size
    have recorded : Recorded src Allowed start src.size (s.record (.raw kind s.cursor.rest)) := by
      refine h.pushText whole.1 le ?_ named
      rw [Cursor.rest, String.toList_ofList]
      exact whole.2.symm
    refine yields_bind.mpr ?_
    show Yields Scan.terminate (s.record (.raw kind s.cursor.rest)) post fail
    refine yields_terminate recorded.sound ?_
    intro c sound pos
    exact next _ (recorded.withCursor sound) pos (by simp)

/-- A match at the cursor is recorded, if there is one. -/
theorem scanAndRecord (h : Recorded src Allowed start s.pos s) (p : Pattern)
    (named : ∀ k, kind = some k → WellNamed k)
    (next : ∀ s', Recorded src Allowed start s'.pos s' → s.pos ≤ s'.pos → s'.regions = s.regions →
      post () s') :
    Yields (Scan.scanAndRecord p kind) s post fail := by
  simp only [Scan.scanAndRecord]
  refine yields_bind.mpr (yields_scan h.sound p ?_ ?_)
  · intro c sound pos _
    have here : ({ s with cursor := c } : ScanState).pos = s.pos := pos
    have moved := h.withCursor sound
    rw [← here] at moved
    exact next _ moved (Nat.le_of_eq here.symm) rfl
  · intro m c a b marks sound pos occurs here
    have start_ : m.start = s.pos := occurs.start.trans here
    have le := occurs.spans.le
    have moved := h.withCursor sound
    rw [← start_] at moved
    refine moved.recordBehind occurs.spans pos named ?_
    intro s' recorded at_ regions
    exact next s' recorded (by omega) regions

/-- White space at the cursor is recorded, and nothing else. -/
theorem skipBlank (h : Recorded src Allowed start s.pos s)
    (next : ∀ s', Recorded src Allowed start s'.pos s' → s.pos ≤ s'.pos → s'.regions = s.regions →
      (∀ c ∈ src.between s.pos s'.pos, Unicode.isBlank c) → post () s') :
    Yields Scan.skipBlank s post fail := by
  refine yields_skipBlank h.sound ?_
  intro w c sound le between blanks
  have whole : Recorded src Allowed start c.pos (s.record (.raw none (String.ofList w))) :=
    h.pushText sound.here le (by rw [String.toList_ofList, between]) (by simp)
  refine next _ (whole.withCursor sound) le (by simp) ?_
  intro ch member
  rw [← between] at blanks
  exact blanks ch member

end Recorded

end Gloss

import Gloss.Proofs.Language.Perl.Bodies
import Gloss.Proofs.Regex.Edges
import Gloss.Proofs.Regex.Quoted
import Gloss.Proofs.Scan.Suspended

/-!
Texts of several lines and documentation. An announcement has four groups, one behind the other, so the cursor is moved
by the lengths of what is recorded. The name of a text of several lines becomes a pattern, and a pattern for a name that
is too long is refused; apart from that, a text of several lines and documentation are recorded up to where the cursor is
left.
-/
namespace Gloss.Language.Perl

open Text (Spot Source)
open Markup (WellNamed)

/-- Names of texts of several lines up to this size can be searched for. -/
def nameLimit : Nat := 327671

/-- The failure at a name that cannot be searched for. -/
def tooLong (name : List Char) : ScanError := .invalidPattern ⟨heredocEnd (String.ofList name), .tooLarge⟩

section Announcements

/-- Does the expression stand for an operator, a quote, a name and another quote, which are the groups? The quotes may
be missing, and the name has no characters with a meaning of their own in patterns. -/
def isAnnouncement : Regex → Bool
  | .seq (.group 1 op) (.seq (.group 2 quote) (.seq (.group 3 name) (.group 4 last))) =>
    op.groupless && op.consumes && quote.groupless && name.groupless && name.consumes && last.groupless && name.isLiteral
  | _ => false

/-- The groups of an announcement, where they stand in the source. -/
structure Announcement (src : Source) (m : Match) (op quote name last : List Char) : Prop where
  stands : ∃ a b, a.In src.chars ∧ a.pos = m.start ∧ Spot.Reads a (op ++ (quote ++ (name ++ last))) b
  first : m.groupText src 1 = String.ofList op
  second : m.groupText src 2 = String.ofList quote
  third : m.groupText src 3 = String.ofList name
  fourth : m.groupText src 4 = String.ofList last
  some_ : op ≠ [] ∧ name ≠ []
  literal : Regex.Literal name

theorem ne_nil_of_less {a b : Spot} {w : List Char} (reads : Spot.Reads a w b) (less : a.pos < b.pos) : w ≠ [] := by
  rintro rfl
  rw [reads.eq_of_nil] at less
  exact Nat.lt_irrefl _ less

/-- Where the groups begin and end, latest first. -/
abbrev groupMarks (a u v w b : Spot) : Regex.Marks :=
  [(2 * 4 + 1, b.pos), (2 * 4, w.pos), (2 * 3 + 1, w.pos), (2 * 3, v.pos), (2 * 2 + 1, v.pos), (2 * 2, u.pos),
    (2 * 1 + 1, u.pos), (2 * 1, a.pos)]

theorem announcement_of_reads {p : Pattern} {src : Source} {a u v w b : Spot} {op quote name last : List Char}
    (count : 3 < p.groupCount) (inside : a.In src.chars) (readsOp : Spot.Reads a op u) (readsQuote : Spot.Reads u quote v)
    (readsName : Spot.Reads v name w) (readsLast : Spot.Reads w last b) (some_ : op ≠ [] ∧ name ≠ [])
    (literal : Regex.Literal name) :
    Announcement src (p.toMatch ⟨a.pos, b, groupMarks a u v w b⟩) op quote name last := by
  have insideU := inside.reads readsOp
  have insideV := insideU.reads readsQuote
  have insideW := insideV.reads readsName
  refine ⟨⟨a, b, inside, rfl, readsOp.trans (readsQuote.trans (readsName.trans readsLast))⟩,
    ?_, ?_, ?_, ?_, some_, literal⟩
  · exact Pattern.groupText_toMatch (by omega) rfl rfl inside readsOp
  · exact Pattern.groupText_toMatch (by omega) rfl rfl insideU readsQuote
  · exact Pattern.groupText_toMatch (by omega) rfl rfl insideV readsName
  · exact Pattern.groupText_toMatch (by omega) rfl rfl insideW readsLast

/-- What an announcement matches falls into its four groups. -/
theorem announcement_of_occurs {p : Pattern} (shape : isAnnouncement p.parsed.regex) {src : Source} {m : Match}
    {a b : Spot} {marks : Regex.Marks} (occurs : p.Occurs src m a b marks) :
    ∃ op quote name last, Announcement src m op quote name last := by
  obtain ⟨inside, reports, rfl⟩ := occurs
  have covers := reports.covers
  rw [Pattern.Covers] at covers
  generalize eq : p.parsed.regex = r at shape covers
  unfold isAnnouncement at shape
  split at shape
  · simp only [Bool.and_eq_true] at shape
    obtain ⟨⟨⟨⟨⟨⟨plain₁, some₁⟩, plain₂⟩, plain₃⟩, some₃⟩, plain₄⟩, literal⟩ := shape
    obtain ⟨u, _, ⟨_, matched₁, rfl⟩, v, _, ⟨_, matched₂, rfl⟩, w, _, ⟨_, matched₃, rfl⟩, _, matched₄, rfl⟩ := covers
    obtain rfl := matched₁.marks_eq plain₁
    obtain rfl := matched₂.marks_eq plain₂
    obtain rfl := matched₃.marks_eq plain₃
    obtain rfl := matched₄.marks_eq plain₄
    obtain ⟨op, readsOp⟩ := matched₁.reads
    obtain ⟨quote, readsQuote⟩ := matched₂.reads
    obtain ⟨name, readsName⟩ := matched₃.reads
    obtain ⟨last, readsLast⟩ := matched₄.reads
    have count : 3 < p.groupCount := by
      simp only [Pattern.groupCount, eq, Regex.lastGroup]
      omega
    have someOp := ne_nil_of_less readsOp (matched₁.consumes some₁)
    have someName := ne_nil_of_less readsName (matched₃.consumes some₃)
    exact ⟨op, quote, name, last, announcement_of_reads count inside readsOp readsQuote readsName readsLast
      ⟨someOp, someName⟩ (matched₃.literal literal readsName)⟩
  · cases shape

end Announcements

variable {src : Source} {start : Origin} {s : ScanState} {m : Match} {fail : ScanError → ScanState → Prop}

namespace Keeps

/-- Of an announcement the operator and the name are recorded, or just the operator. -/
theorem takeHeredocMark (h : Keeps src start s) (here : m.start = s.pos) {op quote name last : List Char}
    (parts : Announcement src m op quote name last) {post : Option String → ScanState → Prop}
    (only : quote ≠ [] → ∀ s', Keeps src start s' → s.pos < s'.pos → post none s')
    (named : ∀ s', Keeps src start s' → s.pos < s'.pos → s'.regions = s.regions →
      (quote = [] → s'.pos = s.pos + Text.byteSize op + Text.byteSize name) → post (some (String.ofList name)) s') :
    Yields (Perl.takeHeredocMark m) s post fail := by
  obtain ⟨a, b, inside, start_, whole⟩ := parts.stands
  obtain ⟨u, readsOp, behind⟩ := whole.split
  have insideU := inside.reads readsOp
  have some_ : 0 < Text.byteSize op := Nat.pos_of_ne_zero (mt Text.byteSize_eq_zero.mp parts.some_.1)
  have atU : s.pos + Text.byteSize op = u.pos := by rw [readsOp.pos, start_, here]
  have recorded := h.recorded
  rw [← here, ← start_] at recorded
  have pushed := recorded.pushText (Source.isBoundary_of_in insideU) readsOp.pos_le
    (by rw [String.toList_ofList, Source.between_reads inside readsOp])
    (by decide : ∀ k, some Kind.operator = some k → WellNamed k)
  simp only [Perl.takeHeredocMark]
  refine yields_bind.mpr (yields_ofCursor.mpr (yields_bind.mpr (yields_ofCursor.mpr ?_)))
  refine yields_bind.mpr (yields_ofCursor.mpr (yields_bind.mpr (yields_ofCursor.mpr ?_)))
  simp only [h.recorded.sound.source, parts.first, parts.second, parts.third, parts.fourth, Text.utf8ByteSize_ofList]
  refine yields_bind.mpr (yields_modify.mpr ?_)
  have atT : (s.record (.raw (some .operator) (String.ofList op))).pos = s.pos := by
    rw [ScanState.pos, ScanState.record_cursor]
    rfl
  have regionsT : (s.record (.raw (some .operator) (String.ofList op))).regions = s.regions := ScanState.record_regions
  generalize s.record (.raw (some .operator) (String.ofList op)) = t at pushed atT regionsT ⊢
  -- The second quote is recorded with the name if it is the same as the first.
  obtain ⟨front, more, parts_, tail⟩ : ∃ front more, last = front ++ more ∧
      (if (!(String.ofList quote).isEmpty && decide (String.ofList last = String.ofList quote)) = true
        then String.ofList quote else "") = String.ofList front := by
    split
    · next closed =>
      simp only [Bool.and_eq_true, decide_eq_true_eq] at closed
      exact ⟨last, [], by simp, closed.2.symm⟩
    · exact ⟨[], last, rfl, rfl⟩
  simp only [tail, ← String.ofList_append, Text.utf8ByteSize_ofList]
  split
  · next single =>
    simp only [Bool.and_eq_true, Bool.not_eq_true', decide_eq_true_eq] at single
    refine yields_bind.mpr (pushed.shiftTo (by rw [atT, atU]) ?_)
    intro s' recorded' at_ regions
    refine only ?_ s' (h.moved recorded' (regions.trans regionsT)) (by omega)
    rintro rfl
    exact absurd single.1.2 (by decide)
  · rw [parts_, ← List.append_assoc, ← List.append_assoc] at behind
    obtain ⟨v, readsName, _⟩ := behind.split
    have posV := readsName.pos
    refine pushed.shiftAndRecord insideU readsName (by rw [atT]; omega) (by decide) ?_
    intro s' recorded' at_ regions
    refine yields_pure.mpr (named s' (h.moved recorded' (regions.trans regionsT)) (by omega) (regions.trans regionsT) ?_)
    rintro rfl
    obtain rfl : front = [] := by simpa using tail.symm
    rw [at_, posV, ← atU, List.append_nil, List.nil_append]

end Keeps

/-- The pattern for the end of a text of several lines; there is none for a name that is too long. -/
theorem yields_compileEnd {name : List Char} (literal : Regex.Literal name) (some_ : name ≠ [])
    {post : Pattern → ScanState → Prop} (ok : ∀ p, Text.byteSize name ≤ nameLimit → post p s)
    (failed : nameLimit < Text.byteSize name → fail (tooLong name) s) :
    Yields (Scan.compile (heredocEnd (String.ofList name))) s post fail := by
  have limit : 272 + 32 * Text.byteSize name ≤ Regex.Extent.limit ↔ Text.byteSize name ≤ nameLimit := by
    simp only [nameLimit, Regex.Extent.limit]
    omega
  refine yields_compile_sized (Regex.parse_lineWord literal some_) ?_ ?_
  · exact fun p fits => ok p (limit.mp fits)
  · exact fun large => failed (Nat.lt_of_not_le (mt limit.mpr large))

/-- A text of several lines is recorded from the line end in front of it on; a name that is too long makes the scan
fail. -/
theorem Keeps.takeHeredoc (h : Keeps src start s) (before : s.pos < src.size) {name : List Char}
    (literal : Regex.Literal name) (some_ : name ≠ []) {post : Unit → ScanState → Prop}
    (next : ∀ s', Keeps src start s' → s.pos < s'.pos → Text.byteSize name ≤ nameLimit → post () s')
    (failed : ∀ s', nameLimit < Text.byteSize name → fail (tooLong name) s') :
    Yields (Perl.takeHeredoc (String.ofList name)) s post fail := by
  have heredoc : ∀ k, some Kind.heredoc = some k → WellNamed k := by decide
  simp only [Perl.takeHeredoc]
  have lineEnd : Yields (do Scan.record none (← Scan.take 1)) s (fun _ t => Keeps src start t ∧ s.pos < t.pos) fail := by
    refine h.recorded.recordTaken (by decide) (by simp) ?_
    intro t recorded _ further regions
    exact ⟨h.moved recorded regions, further before⟩
  refine yields_bind.mpr ((yields_bind.mp lineEnd).mono ?_ fun _ _ => id)
  intro _ _ taken
  refine yields_bind.mpr (taken.mono ?_ fun _ _ => id)
  rintro _ t ⟨keeps, less⟩
  refine yields_bind.mpr (yields_compileEnd literal some_ ?_ (failed t))
  intro stop short
  refine yields_bind.mpr (yields_scanUntil keeps.recorded.sound stop ?_ ?_)
  · intro c sound pos _
    refine (keeps.withCursor sound pos).recorded.recordRest heredoc ?_
    intro s' recorded ended regions
    rw [← ended] at recorded
    refine next s' (keeps.moved recorded regions) ?_ short
    rw [ended]
    exact before
  · intro m c sound _ behind spans
    refine yields_bind.mpr ((keeps.recorded.withCursor sound).recordMatch spans rfl heredoc ?_)
    intro u recorded cursor regions
    have at_ : u.pos = m.start := by
      show u.cursor.pos = m.start
      rw [cursor]
      exact behind
    have low : t.pos ≤ m.start := spans.le
    have recorded' : Recorded src OfBody start u.pos u := by
      rw [at_]
      exact recorded
    refine recorded'.scanAndRecord stop (by decide) ?_
    intro s' recorded'' le regions'
    exact next s' (keeps.moved recorded'' (regions'.trans regions)) (by omega) short

section Documentation

/-- What the expression matches behind an equals sign at the start of a line, if it begins with these. -/
def pastEquals? : Regex → Option Regex
  | .seq (.look .lineStart) (.seq (.text ['=']) r) => some r
  | _ => none

theorem pastEquals?_some {r rest : Regex} (found : pastEquals? r = some rest) :
    r = .seq (.look .lineStart) (.seq (.text ['=']) rest) := by
  unfold pastEquals? at found
  split at found
  · rw [Option.some.inj found]
  · cases found

theorem podLine_past : (pastEquals? podLine.parsed.regex).any (·.skippable) ∧ podLine.parsed.regex.consumes := by
  decide +kernel

/-- Where documentation begins there is a line of it. -/
theorem podLine_starts {p : Pattern} (head : (pastEquals? p.parsed.regex).isSome) {a b : Spot} {marks : Regex.Marks}
    (covers : p.Covers a b marks) : podLine.Starts a := by
  obtain ⟨rest, found⟩ := Option.isSome_iff_exists.mp head
  obtain ⟨line, found', skippable⟩ := (Option.any_eq_true ..).mp podLine_past.1
  rw [Pattern.Covers, pastEquals?_some found] at covers
  obtain ⟨_, _, ⟨atStart, rfl, rfl⟩, u, _, ⟨equals, rfl⟩, _⟩ := covers
  obtain ⟨mu, matched⟩ := Regex.matches_of_skippable skippable u []
  refine ⟨u, mu, ?_⟩
  rw [Pattern.Covers, pastEquals?_some found']
  exact ⟨_, _, ⟨atStart, rfl, rfl⟩, u, _, ⟨equals, rfl⟩, matched⟩

theorem yields_scan_moves (sound : s.cursor.Sound src) (p : Pattern) {post : Option Match → ScanState → Prop}
    (next : ∀ m c, Cursor.Sound src c → s.pos ≤ c.pos → post m { s with cursor := c }) :
    Yields (Scan.scan p) s post fail := by
  refine yields_scan sound p ?_ ?_
  · intro c sound' pos _
    exact next none c sound' (Nat.le_of_eq pos.symm)
  · intro m c a b marks sound' pos occurs here
    have le := occurs.spans.le
    have start_ := occurs.start
    exact next m c sound' (by omega)

theorem yields_scanUntil_moves (sound : s.cursor.Sound src) (p : Pattern) {post : Option Match → ScanState → Prop}
    (next : ∀ m c, Cursor.Sound src c → s.pos ≤ c.pos → post m { s with cursor := c }) :
    Yields (Scan.scanUntil p) s post fail := by
  refine yields_scanUntil sound p ?_ ?_
  · intro c sound' pos _
    exact next none c sound' (Nat.le_of_eq pos.symm)
  · intro m c sound' _ pos spans
    have le : s.pos ≤ m.start := spans.le
    exact next _ c sound' (by omega)

/-- Documentation is recorded as one token, with its first line at least. -/
theorem Keeps.takePod (h : Keeps src start s) {a : Spot} (starts : podLine.Starts a) (inside : a.In src.chars)
    (here : a.pos = s.pos) {post : Unit → ScanState → Prop}
    (next : ∀ s', Keeps src start s' → s.pos < s'.pos → post () s') :
    Yields Perl.takePod s post fail := by
  simp only [Perl.takePod]
  refine yields_bind.mpr (yields_ofCursor.mpr (yields_bind.mpr (yields_scan h.recorded.sound podLine ?_ ?_)))
  · intro c _ _ absent
    exact absurd starts (absent a inside here)
  · intro m c₁ _ _ _ sound₁ pos₁ occurs here₁
    have some_ := occurs.start_lt_stop podLine_past.2
    have start_ := occurs.start
    refine yields_bind.mpr (yields_scanUntil_moves sound₁ podEnd ?_)
    intro _ c₂ sound₂ le₂
    refine yields_bind.mpr (yields_scan_moves sound₂ podEnd ?_)
    intro _ c₃ sound₃ le₃
    have le₂ : c₁.pos ≤ c₂.pos := le₂
    have le₃ : c₂.pos ≤ c₃.pos := le₃
    have less : s.pos < c₃.pos := by omega
    refine yields_bind.mpr (yields_ofCursor.mpr (yields_bind.mpr (yields_ofCursor.mpr ?_)))
    refine (h.recorded.withCursor sound₃).recordSince (Nat.le_of_lt less) (by decide) ?_
    intro s' recorded at_ regions
    have at_ : s'.pos = c₃.pos := at_
    exact next s' (h.moved recorded regions) (by omega)

end Documentation

end Gloss.Language.Perl

import Gloss.Proofs.Language.Diff.Lines
import Gloss.Proofs.Regex.LineEnds
import Gloss.Proofs.Scan.Hosted

/-!
Runs over diffs. Every step takes a line of one token or a block of code, up to a line end, and the line end behind
it. Whatever the highlighters make of the code, the output has the line ends of the source; if they are honest, it shows
the source.
-/
namespace Gloss.Language.Diff

open Text (Source Spot splitLines)
open Markup (Legible Tidy OneLine Telling LineTelling escapeChars stripChars)

/-- All texts that the highlighters return show the texts they were given. -/
def Honest (lookup : Option Lookup) : Prop :=
  ∀ find, lookup = some find → ∀ n ext h, find n ext = .ok h → h.Honest

theorem yields_lift {α : Type} {m : ScanM α} {x : DiffScanner} {post : α → DiffScanner → Prop}
    {fail : ScanError → DiffScanner → Prop} :
    Yields (liftM m : DiffM α) x post fail ↔
      Yields m x.state (fun a s => post a { x with state := s }) fun e s => fail e { x with state := s } :=
  yields_zoom

/-- The scanner is in order: its highlighter is one that was looked up. -/
structure Able (src : Source) (lookup : Option Lookup) (x : DiffScanner) : Prop where
  sound : x.state.cursor.Sound src
  flat : x.state.outline = none
  grammar : x.grammar = Diff.grammar
  finds : x.lookup = lookup
  child : ∀ h, x.child = some h → ∃ find n ext, lookup = some find ∧ find n ext = .ok h

/-- The scanner has looked at the source, and has neither moved nor recorded anything. -/
structure Looked (src : Source) (lookup : Option Lookup) (x y : DiffScanner) : Prop where
  able : Able src lookup y
  here : y.state.pos = x.state.pos
  tokens : y.state.tokens = x.state.tokens

/-- There is a line feed at the offset, or the source ends there. -/
def LineEndAt (src : Source) (pos : Nat) : Prop := ∃ t : Spot, t.In src.chars ∧ t.pos = pos ∧ Regex.AtLineEnd t

section

variable {src : Source} {lookup : Option Lookup} {x y z : DiffScanner} {fail : ScanError → DiffScanner → Prop}

theorem Looked.trans (first : Looked src lookup x y) (second : Looked src lookup y z) : Looked src lookup x z :=
  ⟨second.able, second.here.trans first.here, second.tokens.trans first.tokens⟩

theorem yields_check (able : Able src lookup x) (p : Pattern) {post : Option Match → DiffScanner → Prop}
    (missed : ∀ y, Looked src lookup x y → (∀ u : Spot, u.In src.chars → u.pos = x.state.pos → ¬ p.Starts u) → post none y)
    (found : ∀ m y a b marks, Looked src lookup x y → p.Occurs src m a b marks → a.pos = x.state.pos → post (some m) y) :
    Yields (liftM (Scan.check p) : DiffM _) x post fail := by
  refine yields_lift.mpr (Gloss.yields_check able.sound p ?_ ?_)
  · intro c sound here absent
    exact missed _ ⟨⟨sound, able.flat, able.grammar, able.finds, able.child⟩, here, rfl⟩ absent
  · intro m c a b marks sound here occurs at_
    exact found m _ a b marks ⟨⟨sound, able.flat, able.grammar, able.finds, able.child⟩, here, rfl⟩ occurs at_

/-- A stretch that a step may take: it is not empty, or it stops at a line end. -/
structure Takes (src : Source) (pos stop : Nat) : Prop where
  le : pos ≤ stop
  boundary : src.isBoundary stop
  moves : pos < stop ∨ LineEndAt src stop

theorem takes_of_occurs {p : Pattern} {m : Match} {a b : Spot} {marks : Regex.Marks} {pos : Nat}
    (occurs : p.Occurs src m a b marks) (here : a.pos = pos) (consumes : p.parsed.regex.consumes) :
    Takes src pos m.stop := by
  have less := Regex.Matches.consumes consumes occurs.covers
  rw [← occurs.stop, here] at less
  exact ⟨Nat.le_of_lt less, occurs.spans.stop, .inl less⟩

theorem lineEndAt_of_occurs {p : Pattern} {m : Match} {a b : Spot} {marks : Regex.Marks}
    (occurs : p.Occurs src m a b marks) (guarded : p.parsed.regex.guarded) (fills : p.parsed.regex.fillsLine) :
    LineEndAt src m.stop := by
  obtain ⟨w, reads⟩ := occurs.reads
  exact ⟨b, occurs.inside.reads reads, occurs.stop.symm,
    (occurs.reports.picks guarded).atLineEnd fills fun _ => trivial⟩

/-- Stopping at a line end. -/
theorem takes_of_fillsLine {p : Pattern} {m : Match} {a b : Spot} {marks : Regex.Marks} {pos : Nat}
    (occurs : p.Occurs src m a b marks) (here : a.pos = pos) (guarded : p.parsed.regex.guarded)
    (fills : p.parsed.regex.fillsLine) : Takes src pos m.stop := by
  have low := occurs.spans.le
  rw [occurs.start, here] at low
  exact ⟨low, occurs.spans.stop, .inr (lineEndAt_of_occurs occurs guarded fills)⟩

/-- The token of a line: a stretch that a step may take, and a kind that can stand in a tag. -/
def Tokenizes (src : Source) (pos : Nat) (t : LineToken) : Prop :=
  Takes src pos t.2 ∧ ∀ k, t.1 = some k → Tidy k

theorem headerKind_tidy (f : Format) (mark : Char) : Tidy (f.headerKind mark) := by
  cases f <;> simp only [Format.headerKind] <;> split <;> decide

theorem childFor_some {path : String} {h : Highlighter} (found : x.childFor path = some h) :
    ∃ find n ext, x.lookup = some find ∧ find n ext = .ok h := by
  simp only [DiffScanner.childFor] at found
  split at found
  · next find ext isPretty _ =>
    refine ⟨find, x.state.source.size, ext, isPretty, ?_⟩
    cases result : find x.state.source.size ext with
    | ok h' =>
      rw [result] at found
      cases found
      rfl
    | error e =>
      rw [result] at found
      cases found
  · cases found

/-- A header is a token, and the highlighter it chooses is one that was looked up. -/
theorem yields_header (able : Able src lookup x) :
    Yields header x (fun r y => Looked src lookup x y ∧ ∀ t, r = some t → Tokenizes src x.state.pos t) fail := by
  simp only [header]
  refine yields_bind.mpr (yields_check able _ ?_ ?_)
  · intro y looked _
    exact yields_pure.mpr ⟨looked, by simp⟩
  · intro m y a b marks looked occurs here
    have takes := takes_of_occurs occurs here (by decide +kernel)
    have tokenizes : ∀ mark, Tokenizes src x.state.pos (some (y.format.headerKind mark), m.stop) :=
      fun mark => ⟨takes, fun k eq => Option.some.inj eq ▸ headerKind_tidy y.format mark⟩
    refine yields_bind.mpr (yields_get.mpr ?_)
    split
    · refine yields_bind.mpr (yields_lift.mpr (yields_ofCursor.mpr (yields_bind.mpr (yields_modify.mpr ?_))))
      refine yields_bind.mpr (yields_get.mpr (yields_pure.mpr ⟨⟨?_, looked.here, looked.tokens⟩, ?_⟩))
      · refine ⟨looked.able.sound, looked.able.flat, looked.able.grammar, looked.able.finds, ?_⟩
        intro h found
        have chosen := childFor_some found
        rwa [looked.able.finds] at chosen
      · rintro t ⟨⟩
        exact tokenizes _
    · refine yields_bind.mpr (yields_get.mpr (yields_pure.mpr ⟨looked, ?_⟩))
      rintro t ⟨⟩
      exact tokenizes _

theorem yields_lineToken (able : Able src lookup x) :
    Yields lineToken x (fun r y => Looked src lookup x y ∧ ∀ t, r = some t → Tokenizes src x.state.pos t) fail := by
  simp only [lineToken]
  refine yields_bind.mpr (yields_get.mpr (yields_bind.mpr (yields_check able _ ?diffMissed ?diff)))
  case diff =>
    intro m y a b marks looked occurs here
    refine yields_pure.mpr ⟨looked, ?_⟩
    rintro t ⟨⟩
    exact ⟨takes_of_occurs occurs here (by decide +kernel), fun k eq => Option.some.inj eq ▸ by decide⟩
  intro y₁ looked₁ _
  refine yields_bind.mpr (yields_check looked₁.able _ ?rangeMissed ?range)
  case range =>
    intro m y a b marks looked occurs here
    refine yields_bind.mpr (yields_modify.mpr (yields_pure.mpr ⟨looked₁.trans ⟨?_, looked.here, looked.tokens⟩, ?_⟩))
    · exact ⟨looked.able.sound, looked.able.flat, looked.able.grammar, looked.able.finds, looked.able.child⟩
    · rintro t ⟨⟩
      refine ⟨takes_of_occurs occurs (here.trans looked₁.here) ?_, fun k eq => Option.some.inj eq ▸ by decide⟩
      cases x.format <;> decide +kernel
  intro y₂ looked₂ _
  have far₂ := looked₁.trans looked₂
  refine yields_bind.mpr (yields_check looked₂.able _ ?dashesMissed ?dashes)
  case dashes =>
    intro m y a b marks looked occurs here
    refine yields_pure.mpr ⟨far₂.trans looked, ?_⟩
    rintro t ⟨⟩
    exact ⟨takes_of_occurs occurs (here.trans far₂.here) (by decide +kernel), by simp⟩
  intro y₃ looked₃ _
  have far₃ := far₂.trans looked₃
  refine yields_bind.mpr (yields_check looked₃.able _ ?keywordMissed ?keyword)
  case keyword =>
    intro m y a b marks looked occurs here
    refine yields_pure.mpr ⟨far₃.trans looked, ?_⟩
    rintro t ⟨⟩
    exact ⟨takes_of_fillsLine occurs (here.trans far₃.here) (by decide +kernel) (by decide +kernel),
      fun k eq => Option.some.inj eq ▸ by decide⟩
  intro y₄ looked₄ _
  have far₄ := far₃.trans looked₄
  refine yields_bind.mpr ((yields_header looked₄.able).mono ?_ fun _ _ failed => failed)
  rintro (_ | token) y₅ ⟨looked₅, tokenizes⟩
  · have far₅ := far₄.trans looked₅
    refine yields_bind.mpr (yields_check looked₅.able _ ?_ ?_)
    · intro y looked _
      exact yields_pure.mpr ⟨far₅.trans looked, by simp⟩
    · intro m y a b marks looked occurs here
      refine yields_pure.mpr ⟨far₅.trans looked, ?_⟩
      rintro t ⟨⟩
      exact ⟨takes_of_occurs occurs (here.trans far₅.here) (by decide +kernel), by simp⟩
  · refine yields_pure.mpr ⟨far₄.trans looked₅, ?_⟩
    rintro t ⟨⟩
    rw [← far₄.here]
    exact tokenizes token rfl

/-- A second half that starts behind some lines starts behind a line feed. -/
theorem halfEnd?_some {pos stop : Nat} {first : List Char} {rest : List (List Char)}
    (found : halfEnd? (pos + Text.byteSize first + 1) rest = some stop) :
    ∃ front back, ['\n'].intercalate (first :: rest) = front ++ '\n' :: back ∧ stop = pos + Text.byteSize front := by
  induction rest generalizing pos first with
  | nil => cases found
  | cons line rest ih =>
    rw [List.intercalate_cons_of_ne_nil (by simp)]
    simp only [halfEnd?] at found
    split at found
    · cases found
      exact ⟨first, ['\n'].intercalate (line :: rest), by simp, by omega⟩
    · obtain ⟨front, back, whole, rfl⟩ := ih found
      refine ⟨first ++ '\n' :: front, back, ?_, ?_⟩
      · rw [whole]
        simp
      · have one : '\n'.utf8Size = 1 := by decide
        rw [Text.byteSize_append, Text.byteSize_cons, one]
        omega

/-- A block of code stops at a line end. -/
theorem yields_blockEnd (able : Able src lookup x) :
    Yields blockEnd x (fun r y => Looked src lookup x y ∧
      ∀ stop, r = some stop → Takes src x.state.pos stop ∧ LineEndAt src stop) fail := by
  simp only [blockEnd]
  refine yields_bind.mpr (yields_get.mpr (yields_bind.mpr (yields_check able _ ?_ ?_)))
  · intro y looked _
    exact yields_pure.mpr ⟨looked, by simp⟩
  · intro m y a b marks looked occurs here
    have guarded : x.format.block.parsed.regex.guarded := by cases x.format <;> decide +kernel
    have fills : x.format.block.parsed.regex.fillsLine := by cases x.format <;> decide +kernel
    have whole : ∀ stop, some m.stop = some stop → Takes src x.state.pos stop ∧ LineEndAt src stop := by
      rintro stop ⟨⟩
      exact ⟨takes_of_fillsLine occurs here guarded fills, lineEndAt_of_occurs occurs guarded fills⟩
    by_cases isContext : x.format ≠ .context
    · simp only [if_pos isContext]
      exact yields_pure.mpr ⟨looked, whole⟩
    · simp only [if_neg isContext]
      refine yields_bind.mpr (yields_lift.mpr (yields_ofCursor.mpr ?_))
      obtain ⟨w, reads⟩ := occurs.reads
      rw [looked.able.sound.source, occurs.text_eq reads, String.toList_ofList]
      have lines := Markup.intercalate_splitLines_self w
      split
      · exact yields_pure.mpr ⟨looked, whole⟩
      · next first rest eq =>
        rw [eq] at lines
        refine yields_pure.mpr ⟨looked, ?_⟩
        cases half : halfEnd? (m.start + Text.byteSize first + 1) rest with
        | none => exact whole
        | some at_ =>
          -- The line end stands between the two halves.
          obtain ⟨front, back, halves, rfl⟩ := halfEnd?_some half
          rw [lines] at halves
          rw [halves] at reads
          obtain ⟨t, before, behind⟩ := reads.split
          have inside := occurs.inside.reads before
          have there : t.pos = m.start + Text.byteSize front := by rw [before.pos, occurs.start]
          have newline : LineEndAt src (m.start + Text.byteSize front) :=
            ⟨t, inside, there, .inr (by rw [behind.rest]; rfl)⟩
          rintro stop ⟨⟩
          refine ⟨⟨?_, ?_, .inr newline⟩, newline⟩
          · rw [← here, ← occurs.start]
            exact Nat.le_add_right _ _
          · show src.isBoundary (m.start + Text.byteSize front)
            rw [← there]
            exact Source.isBoundary_of_in inside

/-- Between two steps: what is recorded tells the source up to the cursor. At the end of the source, the last line may
need its end. -/
structure Ready (src : Source) (lookup : Option Lookup) (x : DiffScanner) : Prop where
  able : Able src lookup x
  told : LineTold (Honest lookup) (rendered x.state.tokens.toList) (src.between 0 x.state.pos)
  more : x.state.pos < src.size → Told (Honest lookup) (rendered x.state.tokens.toList) (src.between 0 x.state.pos)

/-- Within a step: a line or a block is recorded, and the line end behind it is not. -/
structure Stopped (src : Source) (lookup : Option Lookup) (start : Nat) (x : DiffScanner) : Prop where
  able : Able src lookup x
  takes : Takes src start x.state.pos
  told : LineTold (Honest lookup) (rendered x.state.tokens.toList) (src.between 0 x.state.pos)
  ends : Told (Honest lookup) (rendered x.state.tokens.toList) (src.between 0 x.state.pos) ∨ LineEndAt src x.state.pos

theorem head_of_lineEndAt {c : Cursor} (sound : c.Sound src) (ends : LineEndAt src c.pos) :
    c.restChars = [] ∨ c.restChars.head? = some '\n' := by
  obtain ⟨s, inside, pos, rest⟩ := sound.spot
  obtain ⟨t, insideT, posT, atEnd⟩ := ends
  rw [rest, inside.eq_of_pos insideT (pos.trans posT.symm)]
  exact atEnd

/-- The line end behind a line or a block, and the check that the step has made progress. -/
theorem yields_lineEnd {start : Nat} (stopped : Stopped src lookup start x) (before : start < src.size) :
    Yields (do
      if (← (liftM Scan.peek? : DiffM _)) = some '\n' then
        let _ ← (liftM (Scan.take 1) : DiffM _)
        liftM (Scan.record none "\n")
        liftM (Scan.ensureProgress (← get).grammar.name start 0)
      else
        liftM (Scan.ensureProgress (← get).grammar.name start 0) : DiffM Unit) x
      (fun _ y => Ready src lookup y ∧ start < y.state.pos) fail := by
  obtain ⟨able, takes, told, ends⟩ := stopped
  have here : src.isBoundary x.state.pos := able.sound.here
  refine yields_bind.mpr (yields_lift.mpr (yields_ofCursor.mpr ?_))
  by_cases newline : x.state.cursor.peek? = some '\n'
  · rw [if_pos newline]
    refine yields_bind.mpr (yields_lift.mpr (yields_take able.sound 1 ?_))
    intro text c sound le between taken
    obtain ⟨rest, chars⟩ := List.head?_eq_some_iff.mp newline
    rw [chars] at taken
    have one : src.between x.state.pos c.pos = ['\n'] := by
      rw [← between, taken]
      rfl
    have moved : x.state.pos < c.pos := by
      rcases Nat.lt_or_eq_of_le le with less | same
      · exact less
      · rw [← same, Source.between_self here] at one
        cases one
    have low := takes.le
    refine yields_bind.mpr (yields_lift.mpr (yields_modify.mpr (yields_bind.mpr (yields_get.mpr (yields_lift.mpr ?_)))))
    have flat : ({ x.state with cursor := c } : ScanState).outline = none := able.flat
    have ended : Told (Honest lookup) (rendered (x.state.tokens.push (.raw none "\n")).toList) (src.between 0 c.pos) := by
      have whole := told.push_newline
      rwa [← one, Source.between_append src.isBoundary_zero here sound.here (Nat.zero_le _) le] at whole
    rw [ScanState.record_of_flat flat]
    refine yields_ensureProgress (.inl (Nat.lt_of_le_of_lt low moved)) ⟨⟨?_, ended.line, fun _ => ended⟩,
      Nat.lt_of_le_of_lt low moved⟩
    exact ⟨sound, able.flat, able.grammar, able.finds, able.child⟩
  · rw [if_neg newline]
    have last : LineEndAt src x.state.pos → x.state.pos = src.size := by
      intro atEnd
      rcases head_of_lineEndAt able.sound atEnd with none_ | some_
      · have size := able.sound.size_eq
        rwa [none_, Text.byteSize_nil] at size
      · exact absurd some_ newline
    have moved : start < x.state.pos := by
      rcases takes.moves with moved | atEnd
      · exact moved
      · rw [last atEnd]
        exact before
    refine yields_bind.mpr (yields_get.mpr (yields_lift.mpr (yields_ensureProgress (.inl moved) ⟨⟨able, told, ?_⟩, moved⟩)))
    intro inside
    rcases ends with whole | atEnd
    · exact whole
    · exact absurd (last atEnd) (Nat.ne_of_lt inside)

/-- A block of code is read, and its lines are recorded behind it. -/
theorem codeBlock_eq (start stop : Nat) :
    codeBlock start stop x =
      (liftM (recordLines x.newHalf true (markedUp x.child (splitLines (x.state.cursor.slice start stop).toList))) :
        DiffM Unit) { x with state := x.state.setPos stop } := rfl

/-- A block of code is recorded line by line. -/
theorem yields_codeBlock {start stop : Nat} (able : Able src lookup x) (here : x.state.pos = start)
    (takes : Takes src start stop)
    (told : Told (Honest lookup) (rendered x.state.tokens.toList) (src.between 0 x.state.pos)) :
    Yields (codeBlock start stop) x (fun _ y => Able src lookup y ∧ y.state.pos = stop ∧
      LineTold (Honest lookup) (rendered y.state.tokens.toList) (src.between 0 stop)) fail := by
  subst here
  have first : src.isBoundary x.state.pos := able.sound.here
  have block : (x.state.cursor.slice x.state.pos stop).toList = src.between x.state.pos stop := by
    rw [Cursor.slice, able.sound.source]
    rfl
  have sure : Honest lookup → ∀ h, x.child = some h → h.Honest := by
    intro honest h isChild
    obtain ⟨find, n, ext, finds, found⟩ := able.child h isChild
    exact honest find finds n ext h found
  obtain ⟨lines, coded⟩ := coded_markedUp sure (src.between x.state.pos stop)
  obtain ⟨sound, there⟩ := able.sound.setPos takes.boundary
  rw [Yields, codeBlock_eq, block]
  refine yields_lift.mpr ((yields_recordBlock (s := x.state.setPos stop) ?_ coded able.flat told).mono ?_ fun _ _ failed => failed)
  · intro none_
    rw [none_] at lines
    exact Markup.splitLines_ne_nil _ lines.symm
  · rintro _ s ⟨cursor, flat, recorded⟩
    have pos : s.pos = stop := by
      rw [ScanState.pos, cursor]
      exact there
    refine ⟨⟨?_, flat, able.grammar, able.finds, able.child⟩, pos, ?_⟩
    · show s.cursor.Sound src
      rw [cursor]
      exact sound
    · rw [lines, Markup.intercalate_splitLines_self,
        Source.between_append src.isBoundary_zero first takes.boundary (Nat.zero_le _) takes.le] at recorded
      exact recorded

/-- A line of one token is recorded as it is. -/
theorem yields_recordLine {kind : Option Kind} {start stop : Nat} (able : Able src lookup x)
    (here : x.state.pos = start) (tokenizes : Tokenizes src start (kind, stop))
    (told : Told (Honest lookup) (rendered x.state.tokens.toList) (src.between 0 x.state.pos))
    {act : DiffM Unit} {post : Unit → DiffScanner → Prop}
    (next : ∀ y, Stopped src lookup start y → Yields act y post fail) :
    Yields (do
      liftM (Scan.recordRange start stop kind)
      liftM (Scan.setPos stop)
      act : DiffM Unit) x post fail := by
  subst here
  obtain ⟨takes, tidy⟩ := tokenizes
  have here : src.isBoundary x.state.pos := able.sound.here
  refine yields_bind.mpr (yields_lift.mpr (yields_recordStretch able.sound able.flat here takes.boundary takes.le ?_))
  refine yields_bind.mpr (yields_lift.mpr (yields_setPos (s := x.state.plus _) able.sound takes.boundary ?_))
  intro c sound there
  simp only at there takes
  subst there
  have whole := told.stretch tidy here takes.le
  rw [Source.between_append src.isBoundary_zero here takes.boundary (Nat.zero_le _) takes.le] at whole
  exact next _ ⟨⟨sound, able.flat, able.grammar, able.finds, able.child⟩, takes, whole.line, .inl whole⟩

/-- There is a line at every place, if only an empty one. -/
theorem wholeLine_starts (u : Spot) : wholeLine.Starts u := by
  have skippable : wholeLine.parsed.regex.skippable := by decide +kernel
  obtain ⟨marks, matched⟩ := Regex.matches_of_skippable skippable u []
  exact ⟨u, marks, matched⟩

/-- One step takes a line or a block, and the line end behind it. -/
theorem yields_step (ready : Ready src lookup x) (before : x.state.pos < src.size) :
    Yields step x (fun _ y => Ready src lookup y ∧ x.state.pos < y.state.pos) fail := by
  obtain ⟨able, _, more⟩ := ready
  -- Nothing is recorded while the scanner looks at the source.
  have still : ∀ {y}, Looked src lookup x y →
      Told (Honest lookup) (rendered y.state.tokens.toList) (src.between 0 y.state.pos) := by
    intro y looked
    rw [looked.tokens, looked.here]
    exact more before
  have begins : x.state.cursor.pos = x.state.pos := rfl
  simp only [step]
  refine yields_bind.mpr (yields_lift.mpr (yields_ofCursor.mpr ?_))
  rw [begins]
  refine yields_bind.mpr ((yields_lineToken able).mono ?_ fun _ _ failed => failed)
  rintro (_ | ⟨kind, stop⟩) y ⟨looked, tokenizes⟩
  · refine yields_bind.mpr ((yields_blockEnd looked.able).mono ?_ fun _ _ failed => failed)
    rintro (_ | stop) z ⟨looked', ends⟩
    · have far := looked.trans looked'
      refine yields_bind.mpr (yields_check far.able _ ?_ ?_)
      · intro u _ absent
        obtain ⟨v, inside, at_, _⟩ := far.able.sound.spot
        exact absurd (wholeLine_starts v) (absent v inside at_)
      · intro m u a b marks looked'' occurs there
        have farther := far.trans looked''
        have takes := takes_of_fillsLine occurs (there.trans far.here) (by decide +kernel) (by decide +kernel)
        exact yields_recordLine farther.able farther.here ⟨takes, by simp⟩ (still farther)
          fun z stopped => yields_lineEnd stopped before
    · have far := looked.trans looked'
      obtain ⟨takes, lineEnd⟩ := ends stop rfl
      rw [looked.here] at takes
      refine yields_bind.mpr ((yields_codeBlock far.able far.here takes (still far)).mono ?_ fun _ _ failed => failed)
      rintro _ u ⟨able', there, told⟩
      rw [← there] at takes lineEnd told
      exact yields_lineEnd ⟨able', takes, told, .inr lineEnd⟩ before
  · exact yields_recordLine looked.able looked.here (tokenizes _ rfl) (still looked)
      fun z stopped => yields_lineEnd stopped before

/-- The steps come to the end of the source. -/
theorem yields_loop {fuel : Nat} (ready : Ready src lookup x) (enough : src.size - x.state.pos < fuel) :
    Yields (loop fuel) x (fun _ y => Ready src lookup y ∧ y.state.pos = src.size) fail := by
  induction fuel generalizing x with
  | zero => omega
  | succ fuel ih =>
    simp only [loop]
    refine yields_bind.mpr (yields_lift.mpr (yields_atEnd ready.able.sound ?_))
    have le : x.state.pos ≤ src.size := ready.able.sound.le_size
    by_cases ended : x.state.pos = src.size
    · simp only [ended, decide_true, Bool.not_true, Bool.false_eq_true, if_false]
      exact yields_pure.mpr ⟨ready, ended⟩
    · simp only [ended, decide_false, Bool.not_false, if_true]
      refine yields_bind.mpr ((yields_step ready (Nat.lt_of_le_of_ne le ended)).mono ?_ fun _ _ failed => failed)
      rintro _ y ⟨ready', moved⟩
      exact ih ready' (by omega)

end

/-- The grammar renders tokens as they are. -/
theorem toList_tagged {s : ScanState} (flat : s.outline = none) : (grammar.tagged s).1.toList = rendered s.tokens.toList := by
  have joined : ∀ ts : List Token, (String.join (ts.map Markup.renderToken)).toList = rendered ts := by
    intro ts
    induction ts with
    | nil => rfl
    | cons t ts ih => simp [rendered, String.join_cons, ih, List.flatMap_cons]
  have filters : grammar.filters = [] := rfl
  have streamFilters : grammar.streamFilters = [] := rfl
  simp only [Grammar.tagged, flat, Grammar.renderTokens_of_unfiltered filters streamFilters]
  exact joined _

/-- A fresh scanner with another source has everything still to do. -/
theorem ready_setSource (lookup : Option Lookup) (src : Source) :
    Ready src lookup (Scanner.setSource ({ lookup } : DiffScanner) src) := by
  have told : Told (Honest lookup) (rendered (Scanner.setSource ({ lookup } : DiffScanner) src).state.tokens.toList)
      (src.between 0 0) := by
    rw [Source.between_self src.isBoundary_zero]
    exact .nil
  exact ⟨⟨Cursor.sound_ofSource src, rfl, rfl, rfl, by rintro h ⟨⟩⟩, told.line, fun _ => told⟩

/-- A text is highlighted whatever the highlighters do. -/
theorem highlight_told (lookup : Option Lookup) (text : String) :
    ∃ out y, Scanner.highlight text ({ lookup } : DiffScanner) = .ok out y ∧
      LineTold (Honest lookup) out.toList text.toList := by
  have ready := ready_setSource lookup (.ofString text)
  generalize started : Scanner.setSource ({ lookup } : DiffScanner) (.ofString text) = x at ready
  have begin_ : x.state.pos = 0 := by rw [← started]; rfl
  have size : x.state.source.size = (Source.ofString text).size := by rw [ScanState.source, ready.able.sound.source]
  have run : Yields main x (fun _ y => Ready (.ofString text) lookup y ∧ y.state.pos = (Source.ofString text).size)
      fun _ _ => False := by
    simp only [main]
    refine yields_bind.mpr (yields_get.mpr (yields_loop ready ?_))
    rw [Flat.budget, begin_, size]
    omega
  obtain ⟨_, y, ran, ready', ended⟩ := run.succeeds
  have ran' : Scanner.main (Scanner.setSource ({ lookup } : DiffScanner) (.ofString text)) = .ok () y := by
    rw [started]
    exact ran
  refine ⟨_, _, Scanner.highlight_eq ran', ?_⟩
  have told := ready'.told
  rw [ended, Source.between_whole, Source.chars_ofString] at told
  have out : (Scanner.tagged y).1 = (grammar.tagged y.state).1 := by
    rw [← ready'.able.grammar]
    rfl
  rw [out, toList_tagged ready'.able.flat]
  exact told

/-- Lines that a highlighter fails on or changes the number of have no markup. -/
theorem markedUp_refused {h : Highlighter} {lines : List (List Char)}
    (refused : ∀ out, h.highlight (String.ofList (['\n'].intercalate (lines.map (·.drop 1)))) = .ok out →
      (splitLines out.toList).length ≠ lines.length) : markedUp (some h) lines = lines.map (·, none) := by
  have none_ : renderCode? (some h) lines = none := by
    simp only [renderCode?]
    split
    · rfl
    · next out highlighted =>
      rw [if_neg (refused out highlighted)]
  simp only [markedUp, none_]
  rw [List.zip_map_right, List.zip_eq_zipWith, List.zipWith_self, List.map_map]
  rfl

/-- A diff is highlighted whatever the highlighters for its code do, and the output has the line ends of the text. If
all that they return shows the code they were given, the output shows the text; so it does if there are none. A block
whose highlighter fails or changes the number of lines is recorded line by line as it is. -/
theorem highlight_keeps_text (lookup : Option Lookup) (text : String) :
    (∃ out y, Scanner.highlight text ({ lookup } : DiffScanner) = .ok out y ∧
      out.toList.count '\n' = text.toList.count '\n' ∧
      ((∀ find, lookup = some find → ∀ n ext h, find n ext = .ok h →
        ∀ code shown, h.highlight code = .ok shown → Markup.strip shown = code) → Markup.strip out = text)) ∧
    ∀ (x : DiffScanner) (h : Highlighter) (start stop : Nat) (lines : List (List Char)), x.child = some h →
      splitLines (x.state.cursor.slice start stop).toList = lines →
      (∀ out, h.highlight (String.ofList (['\n'].intercalate (lines.map (·.drop 1)))) = .ok out →
        (splitLines out.toList).length ≠ lines.length) →
      codeBlock start stop x = (liftM (recordLines x.newHalf true (lines.map (·, none))) : DiffM Unit)
        { x with state := x.state.setPos stop } := by
  constructor
  · obtain ⟨out, y, ran, told⟩ := highlight_told lookup text
    refine ⟨out, y, ran, told.newlines, fun honest => String.toList_injective ?_⟩
    rw [Markup.strip, String.toList_ofList]
    exact (told.tells honest).stripChars
  · intro x h start stop lines isChild block refused
    rw [codeBlock_eq, isChild, block, markedUp_refused refused]

end Gloss.Language.Diff

import Gloss.Proofs.Language.Perl.Heredocs

/-!
A run of the scanner for Perl. Every step records what it passes over and moves on, so a run comes to the end of the
source, unless it comes to a text of several lines whose name is too long to be searched for. A body that is not closed
is given up at the end, and what is left of the source is recorded then.
-/
namespace Gloss.Language.Perl

open Text (Spot Source)
open Markup (WellNamed)

/-- What the entries of the table are checked for. -/
theorem entries_fine : ∀ e ∈ Perl.grammar.patterns.entries, e.pattern.parsed.regex.consumes ∧ WellNamed e.kind ∧
    (e.kind = heredocMark → isAnnouncement e.pattern.parsed.regex) ∧
    (e.kind = pod → (pastEquals? e.pattern.parsed.regex).isSome) := by decide +kernel

theorem newline_consumes : newline.parsed.regex.consumes := by decide +kernel

/-- A name without special characters that is not longer than the source, which it stands in. -/
structure Name (src : Source) (name : List Char) : Prop where
  literal : Regex.Literal name
  some_ : name ≠ []
  within : Text.byteSize name ≤ src.size

theorem Announcement.name {src : Source} {m : Match} {op quote name last : List Char}
    (h : Announcement src m op quote name last) : Name src name := by
  obtain ⟨a, b, inside, _, reads⟩ := h.stands
  refine ⟨h.literal, h.some_.2, ?_⟩
  have bound := Source.isBoundary_le (Source.isBoundary_of_in (inside.reads reads))
  have size := reads.pos
  simp only [Text.byteSize_append] at size
  omega

/-- A scanner for Perl in the middle of a source. -/
structure Ready (src : Source) (start : Origin) (x : PerlScanner) : Prop where
  grammar : x.grammar = Perl.grammar
  keeps : Keeps src start x.state
  announced : ∀ name, x.heredoc = some name → ∃ chars, name = String.ofList chars ∧ Name src chars

/-- A text of several lines with this name was announced, and its line starts before the next match. -/
def Due (src : Source) (heredoc : Option String) (pos : Nat) (name : List Char) : Prop :=
  heredoc = some (String.ofList name) ∧ ∃ lineEnd, newline.findFrom? src pos = some lineEnd ∧
    ∀ next, Perl.grammar.patterns.Nearest (fun _ => true) src pos next → lineEnd.start < next.data.start

section Lifts

variable {α : Type} {x : PerlScanner} {post : α → PerlScanner → Prop} {fail : ScanError → PerlScanner → Prop}

theorem yields_lift {m : ScanM α} :
    Yields (liftM m : PerlM α) x post fail ↔
      Yields m x.state (fun a s => post a { x with state := s }) (fun e s => fail e { x with state := s }) :=
  yields_zoom

end Lifts

variable {src : Source} {start : Origin} {x : PerlScanner} {fail : ScanError → PerlScanner → Prop}

namespace Ready

theorem moved (h : Ready src start x) {s : ScanState} (keeps : Keeps src start s) :
    Ready src start { x with state := s } :=
  ⟨h.grammar, keeps, h.announced⟩

/-- What stands in front of a boundary is recorded, and the scan goes on from there. -/
theorem recordTo (h : Ready src start x) {pos target : Nat} (here : x.state.pos = pos) (boundary : src.isBoundary target)
    (le : pos ≤ target) {α : Type} {rest : PerlM α} {post : α → PerlScanner → Prop}
    (next : ∀ x', Ready src start x' → x'.state.pos = target → x'.heredoc = x.heredoc →
      x'.state.regions = x.state.regions → Yields rest x' post fail) :
    Yields (do liftM (Scan.recordRange pos target none); liftM (Scan.setPos target); rest) x post fail := by
  have recorded := h.keeps.recorded
  rw [here] at recorded
  refine yields_bind.mpr (yields_lift.mpr (recorded.recordRange boundary le (by simp) ?_))
  intro s recorded' _ regions
  refine yields_bind.mpr (yields_lift.mpr (yields_setPos recorded'.sound boundary ?_))
  intro c sound pos_
  have there : ({ s with cursor := c } : ScanState).pos = target := pos_
  have moved := recorded'.withCursor sound
  rw [← there] at moved
  exact next _ (h.moved (h.keeps.moved moved regions)) there rfl regions

/-- A match at the cursor is recorded, and more behind it. -/
theorem takeMatch (h : Ready src start x) {next : NextMatch} {p : Pattern} {a b : Spot} {marks : Regex.Marks}
    (occurs : p.Occurs src next.data a b marks) (here : next.data.start = x.state.pos)
    (consumes : p.parsed.regex.consumes) (named : WellNamed next.kind)
    (announces : next.kind = heredocMark → isAnnouncement p.parsed.regex)
    (documents : next.kind = pod → (pastEquals? p.parsed.regex).isSome) {post : Unit → PerlScanner → Prop}
    (after : ∀ x', Ready src start x' → next.data.start < x'.state.pos → post () x') :
    Yields (Perl.takeMatch next) x post fail := by
  have spans := occurs.spans
  have some_ := occurs.start_lt_stop consumes
  have behind : ∀ s, Keeps src start s → next.data.stop ≤ s.pos → post () { x with state := s } := by
    intro s keeps le
    exact after _ (h.moved keeps) (Nat.lt_of_lt_of_le some_ le)
  simp only [Perl.takeMatch]
  split
  · exact yields_lift.mpr (h.keeps.takeSlash spans here behind)
  split
  · exact yields_lift.mpr (h.keeps.takeQuoteLike spans here behind)
  split
  · next isMark =>
    obtain ⟨op, quote, name, last, parts⟩ := announcement_of_occurs (announces isMark) occurs
    refine yields_bind.mpr (yields_lift.mpr (h.keeps.takeHeredocMark here parts ?_ ?_))
    · intro _ s keeps less
      exact after _ (h.moved keeps) (by rw [here]; exact less)
    · intro s keeps less _ _
      refine yields_modify.mpr (after _ ⟨h.grammar, keeps, ?_⟩ (by rw [here]; exact less))
      rintro _ ⟨⟩
      exact ⟨name, rfl, parts.name⟩
  split
  · next isPod =>
    have starts := podLine_starts (documents isPod) occurs.covers
    refine yields_lift.mpr (h.keeps.takePod starts occurs.inside (occurs.start.symm.trans here) ?_)
    intro s keeps less
    exact after _ (h.moved keeps) (by rw [here]; exact less)
  split
  · refine yields_bind.mpr (yields_lift.mpr (h.keeps.accept spans here ?_))
    intro s behind_
    refine yields_bind.mpr (yields_lift.mpr (behind_.record (by decide) ?_))
    intro t keeps at_
    refine yields_lift.mpr (keeps.recorded.recordRest (by simp) ?_)
    intro u recorded ended regions
    rw [← ended] at recorded
    refine behind u (keeps.moved recorded regions) ?_
    rw [ended]
    exact Source.isBoundary_le spans.stop
  · refine yields_bind.mpr (yields_lift.mpr (h.keeps.accept spans here ?_))
    intro s behind_
    refine yields_lift.mpr (behind_.record named ?_)
    intro t keeps at_
    exact behind t keeps (Nat.le_of_eq at_.symm)

/-- The name of a text of several lines is dropped, and the text is recorded from the line end in front of it on. -/
theorem takeAnnounced (h : Ready src start x) {pos : Nat} (here : x.state.pos = pos) {name : List Char}
    (named : Name src name) {lineEnd : Match} (found : newline.findFrom? src pos = some lineEnd)
    {post : Bool → PerlScanner → Prop}
    (took : ∀ x', Ready src start x' → pos < x'.state.pos → Text.byteSize name ≤ nameLimit → post true x')
    (failed : ∀ x', nameLimit < Text.byteSize name → fail (tooLong name) x') :
    Yields (do
      modify fun x : PerlScanner => { x with heredoc := none }
      liftM (Scan.recordRange pos lineEnd.start none)
      liftM (Scan.setPos lineEnd.start)
      liftM (Perl.takeHeredoc (String.ofList name))
      return true) x post fail := by
  obtain ⟨a, b, marks, occurs, above, _⟩ := Pattern.findFrom?_some found
  have spans := occurs.spans
  have before : lineEnd.start < src.size :=
    Nat.lt_of_lt_of_le (occurs.start_lt_stop newline_consumes) (Source.isBoundary_le spans.stop)
  have le : pos ≤ lineEnd.start := Nat.le_trans above (Nat.le_of_eq occurs.start.symm)
  have dropped : Ready src start { x with heredoc := none } := ⟨h.grammar, h.keeps, nofun⟩
  refine yields_bind.mpr (yields_modify.mpr (dropped.recordTo here spans.start le ?_))
  intro x' ready there _ _
  rw [← there] at before le
  refine yields_bind.mpr (yields_lift.mpr (ready.keeps.takeHeredoc before named.literal named.some_ ?_ ?_))
  · intro s keeps less short
    exact took _ (ready.moved keeps) (Nat.lt_of_le_of_lt le less) short
  · exact fun s long => failed _ long

/-- A text of several lines comes first if its line starts before the next match. -/
theorem heredocFirst (h : Ready src start x) {pos : Nat} (here : pos = x.state.pos) {next : Option NextMatch}
    (agrees : ∀ n, next = some n ↔ Perl.grammar.patterns.Nearest (fun _ => true) src pos n)
    {post : Bool → PerlScanner → Prop}
    (took : ∀ name x', Due src x.heredoc pos name → Ready src start x' → pos < x'.state.pos →
      Text.byteSize name ≤ nameLimit → post true x')
    (left : ∀ x', (∀ name, ¬ Due src x.heredoc pos name) → Ready src start x' → x'.state.pos = pos → post false x')
    (failed : ∀ name x', Due src x.heredoc pos name → nameLimit < Text.byteSize name → fail (tooLong name) x') :
    Yields (Perl.heredocFirst pos next) x post fail := by
  subst here
  simp only [Perl.heredocFirst]
  refine yields_bind.mpr (yields_get.mpr ?_)
  cases declared : x.heredoc with
  | none =>
    refine left x ?_ h rfl
    rintro name ⟨some_, _⟩
    rw [declared] at some_
    cases some_
  | some name =>
    obtain ⟨chars, rfl, named⟩ := h.announced name declared
    refine yields_bind.mpr (yields_lift.mpr (yields_search h.keeps.recorded.sound newline ?_))
    intro c sound at_
    have keeps := h.keeps.withCursor sound at_
    cases found : newline.findFrom? src x.state.pos with
    | none =>
      refine left _ ?_ (h.moved keeps) at_
      rintro _ ⟨_, _, found', _⟩
      rw [found] at found'
      cases found'
    | some lineEnd =>
      simp only
      split
      · next first =>
        have due : Due src x.heredoc x.state.pos chars := by
          refine ⟨declared, lineEnd, found, ?_⟩
          intro n nearest
          rw [(agrees n).mpr nearest] at first
          simpa using first
        refine (h.moved keeps).takeAnnounced at_ named found ?_ ?_
        · exact fun x' ready less short => took chars x' due ready less short
        · exact fun x' long => failed chars x' due long
      · next later =>
        refine left _ ?_ (h.moved keeps) at_
        rintro _ ⟨_, other, found', before⟩
        rw [found] at found'
        obtain rfl := Option.some.inj found'
        refine later ?_
        cases next with
        | none => rfl
        | some n => simpa using before n ((agrees n).mp rfl)

/-- A step records what it passes over. It fails just at a name that is too long. -/
theorem step (h : Ready src start x) {post : Bool → PerlScanner → Prop}
    (more : ∀ x', Ready src start x' → x.state.pos < x'.state.pos →
      (∀ name, Due src x.heredoc x.state.pos name → Text.byteSize name ≤ nameLimit) → post true x')
    (stop : ∀ x', Ready src start x' → (∀ name, ¬ Due src x.heredoc x.state.pos name) → post false x')
    (failed : ∀ name x', Due src x.heredoc x.state.pos name → nameLimit < Text.byteSize name → fail (tooLong name) x') :
    Yields Perl.step x post fail := by
  simp only [Perl.step]
  refine yields_bind.mpr (yields_lift.mpr (yields_ofCursor.mpr ?_))
  refine yields_bind.mpr (yields_lift.mpr (yields_bind.mpr (yields_get.mpr (yields_pure.mpr ?_))))
  refine yields_bind.mpr (yields_get.mpr (yields_bind.mpr ?_))
  refine yields_lift.mpr (yields_nextMatch_iff h.keeps.recorded.sound x.grammar ?_)
  intro next c sound at_ agrees
  rw [h.grammar] at agrees
  refine yields_bind.mpr ((h.moved (h.keeps.withCursor sound at_)).heredocFirst at_.symm agrees ?_ ?_ failed)
  · intro name x' due ready less short
    refine more x' ready less ?_
    rintro name' ⟨declared, _⟩
    obtain rfl := String.ofList_injective (Option.some.inj (due.1.symm.trans declared))
    exact short
  intro x₁ never ready₁ at₁
  simp only [Bool.false_eq_true, if_false]
  cases next with
  | none =>
    refine yields_bind.mpr (yields_lift.mpr (ready₁.keeps.recorded.recordRest (by simp) ?_))
    intro s recorded ended regions
    rw [← ended] at recorded
    exact stop _ (ready₁.moved (ready₁.keeps.moved recorded regions)) never
  | some next =>
    have nearest := (agrees next).mp rfl
    obtain ⟨above, spans⟩ := nearest.bounds
    obtain ⟨e, member, kind, _, found⟩ := nearest.entry
    obtain ⟨a, b, marks, occurs, _⟩ := Pattern.findFrom?_some found
    obtain ⟨consumes, named, announces, documents⟩ := entries_fine e (List.mem_of_getElem? member)
    rw [kind] at named announces documents
    refine ready₁.recordTo at₁ spans.start above ?_
    intro x₂ ready₂ there _ _
    refine yields_bind.mpr (ready₂.takeMatch occurs there.symm consumes named announces documents ?_)
    intro x₃ ready₃ further
    refine yields_bind.mpr (yields_lift.mpr (yields_bind.mpr (yields_get.mpr (yields_pure.mpr ?_))))
    split
    · exact stop _ ready₃ never
    · refine yields_bind.mpr (yields_get.mpr (yields_bind.mpr (yields_lift.mpr ?_)))
      refine yields_ensureProgress (.inl further) ?_
      refine more _ ready₃ (Nat.lt_of_le_of_lt above further) ?_
      exact fun name due => absurd due (never name)

end Ready

/-- From a state on, the scan comes to a text of several lines with this name. -/
inductive Comes (src : Source) : PerlScanner → List Char → Prop where
  | here {x : PerlScanner} {name : List Char} (before : x.state.pos < src.size)
      (due : Due src x.heredoc x.state.pos name) : Comes src x name
  | later {x x' : PerlScanner} {name : List Char} (before : x.state.pos < src.size)
      (step : Perl.step x = .ok true x') (more : Comes src x' name) : Comes src x name

namespace Ready

/-- Steps lead to the end or to a body that is not closed, unless they come to a name that is too long. -/
theorem loop (h : Ready src start x) {fuel : Nat} (enough : src.size - x.state.pos < fuel)
    {post : Unit → PerlScanner → Prop}
    (next : ∀ x', Ready src start x' → (∀ name, Comes src x name → Text.byteSize name ≤ nameLimit) → post () x')
    (failed : ∀ name x', Comes src x name → nameLimit < Text.byteSize name → fail (tooLong name) x') :
    Yields (Perl.loop fuel) x post fail := by
  induction fuel generalizing x with
  | zero => omega
  | succ fuel ih =>
    simp only [Perl.loop]
    refine yields_bind.mpr (yields_lift.mpr (yields_atEnd h.keeps.recorded.sound ?_))
    by_cases ended : x.state.pos = src.size
    · simp only [ended, decide_true, Bool.not_true, Bool.false_eq_true, if_false]
      refine next x h ?_
      intro name comes
      cases comes with
      | here before => omega
      | later before => omega
    · have le : x.state.pos ≤ src.size := h.keeps.recorded.sound.le_size
      have before : x.state.pos < src.size := Nat.lt_of_le_of_ne le ended
      simp only [ended, decide_false, Bool.not_false, if_true]
      refine yields_bind.mpr (Yields.ran (h.step ?_ ?_ ?_))
      · intro x' ready less short ran
        simp only [if_true]
        have within : x'.state.pos ≤ src.size := ready.keeps.recorded.sound.le_size
        refine ih ready (by omega) ?_ ?_
        · intro x'' ready' short'
          refine next x'' ready' ?_
          intro name comes
          cases comes with
          | here _ due => exact short name due
          | later _ step more =>
            cases ran.symm.trans step
            exact short' name more
        · exact fun name x'' comes long => failed name x'' (.later before ran comes) long
      · intro x' ready never ran
        simp only [Bool.false_eq_true, if_false]
        refine next x' ready ?_
        intro name comes
        cases comes with
        | here _ due => exact absurd due (never name)
        | later _ step => cases ran.symm.trans step
      · exact fun name x' due long _ => failed name x' (.here before due) long

/-- A run comes to the end, where it gives up what is still open, unless it comes to a name that is too long. -/
theorem main (h : Ready src start x) {post : Unit → PerlScanner → Prop}
    (next : ∀ x', x'.grammar = Perl.grammar → Recorded src OfBody start src.size x'.state → x'.state.pos = src.size →
      x'.state.regions = [] → (∀ name, Comes src x name → Text.byteSize name ≤ nameLimit) → post () x')
    (failed : ∀ name x', Comes src x name → nameLimit < Text.byteSize name → fail (tooLong name) x') :
    Yields Perl.main x post fail := by
  have size : x.state.source.size = src.size := by rw [ScanState.source, h.keeps.recorded.sound.source]
  simp only [Perl.main]
  refine yields_bind.mpr (yields_get.mpr (yields_bind.mpr (h.loop ?_ ?_ failed)))
  · simp only [Flat.budget, size]
    omega
  · intro x₁ ready short
    refine yields_bind.mpr (yields_get.mpr (yields_lift.mpr ?_))
    rw [ready.grammar]
    refine ready.keeps.recorded.unwind ready.keeps.shown ?_
    exact fun s recorded ended regions => next _ rfl recorded ended regions short

/-- A name that the scan comes to stands in the source. -/
theorem size_le (h : Ready src start x) {name : List Char} (comes : Comes src x name) :
    Text.byteSize name ≤ src.size := by
  induction comes with
  | here _ due =>
    obtain ⟨chars, same, named⟩ := h.announced _ due.1
    rw [String.ofList_injective same]
    exact named.within
  | @later x x' _ _ step _ ih =>
    have ready : Yields Perl.step x (fun _ y => Ready src start y) fun _ _ => True :=
      h.step (fun _ y _ _ => y) (fun _ y _ => y) fun _ _ _ _ => trivial
    rw [Yields, step] at ready
    exact ih ready

end Ready

/-- A new scanner in front of a text. -/
def started (text : String) : PerlScanner := Scanner.setSource ({} : PerlScanner) (.ofString text)

/-- All of a text is recorded: the scanner is at the end of it, no region is open, and the tokens stand for its parts. -/
structure Partitions (text : String) (y : PerlScanner) : Prop where
  pos : Scanner.pos y = text.utf8ByteSize
  regions : y.state.regions = []
  told : String.join (y.state.tokens.toList.map Token.told) = text

theorem ready_started (text : String) : Ready (.ofString text) ⟨0, []⟩ (started text) := by
  have blank := ScanState.blank_setSource (s := {}) rfl (.ofString text)
  have begun : Recorded (.ofString text) OfBody ⟨0, _⟩ 0 (started text).state := blank.recorded fun _ _ => nofun
  rw [blank.empty] at begun
  exact ⟨rfl, ⟨begun, nofun⟩, nofun⟩

/-- The scanner is at the end of a text that is recorded, with no region open. -/
structure Finished (text : String) (y : PerlScanner) : Prop where
  grammar : y.grammar = Perl.grammar
  recorded : Recorded (.ofString text) OfBody ⟨0, []⟩ (Source.ofString text).size y.state
  pos : y.state.pos = (Source.ofString text).size
  regions : y.state.regions = []

theorem Finished.spells {text : String} {y : PerlScanner} (h : Finished text y) :
    Spells OfBody y.state.tokens.latest text.toList := by
  obtain ⟨added, latest, spells⟩ := h.recorded.spells
  rw [List.append_nil] at latest
  rw [latest, ← Source.chars_ofString, ← Source.between_whole]
  exact spells

theorem Finished.partitions {text : String} {y : PerlScanner} (h : Finished text y) : Partitions text y := by
  refine ⟨h.pos.trans (Source.size_ofString text), h.regions, ?_⟩
  rw [← String.toList_inj, toList_join_map, TokenStream.toList, h.spells.told_eq]

theorem yields_started (text : String) :
    Yields Scanner.main (started text)
      (fun _ y => Finished text y ∧
        ∀ name, Comes (.ofString text) (started text) name → Text.byteSize name ≤ nameLimit)
      fun e _ => ∃ name, Comes (.ofString text) (started text) name ∧ nameLimit < Text.byteSize name ∧
        e = tooLong name := by
  refine (ready_started text).main ?_ ?_
  · exact fun y grammar recorded ended regions short => ⟨⟨grammar, recorded, ended, regions⟩, short⟩
  · exact fun name _ comes long => ⟨name, comes, long, rfl⟩

/-- All of a text that is no longer than a name may be is recorded, whatever it holds. -/
theorem main_partitions_of_size {text : String} (short : text.utf8ByteSize ≤ nameLimit) :
    ∃ y, Scanner.main (started text) = .ok () y ∧ Partitions text y := by
  have run := yields_started text
  simp only [Yields] at run
  split at run
  · next y eq => exact ⟨y, eq, run.1.partitions⟩
  · next e y eq =>
    obtain ⟨name, comes, long, _⟩ := run
    have le := (ready_started text).size_le comes
    rw [Source.size_ofString] at le
    omega

end Gloss.Language.Perl

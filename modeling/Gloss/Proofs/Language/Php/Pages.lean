import Gloss.Proofs.Language.Html.Runs
import Gloss.Proofs.Language.Php.Announced

/-!
Pages of HTML with PHP in them. Code and HTML take turns; each goes on where the other stopped, and none of the
source is lost between them. A page is highlighted unless its code comes to a text of several lines whose name is
too long to be searched for.
-/
namespace Gloss.Language.Php

open Html (HtmlScanner)
open Text (Spot Source)
open Markup (Shows WellNamed escapeChars)

section Lifts

variable {α : Type} {x : PhpScanner} {post : α → PhpScanner → Prop} {fail : ScanError → PhpScanner → Prop}

/-- An operation on the state of the scan. -/
theorem yields_state {m : ScanM α} :
    Yields (liftM m : PhpM α) x post fail ↔
      Yields m x.state (fun a s => post a { x with state := s }) (fun e s => fail e { x with state := s }) :=
  yields_zoom

end Lifts

/-- How a page embeds HTML. -/
def served : Embedding := { server := true }

/-- The page is recorded up to the cursor, and both children wait. -/
structure Holds (src : Source) (x : PhpScanner) : Prop where
  grammar : x.grammar = .bare "php"
  recorded : Recorded src (Grammar.bare "php").Allowed ⟨0, []⟩ x.state.pos x.state
  html : Scanner.Waits (Html.Able served src) x.html.scanner
  code : Scanner.Waits (CodeAble src) x.code.scanner

variable {src : Source} {x : PhpScanner} {fail : ScanError → PhpScanner → Prop}

theorem Holds.withState (h : Holds src x) {s : ScanState}
    (recorded : Recorded src (Grammar.bare "php").Allowed ⟨0, []⟩ s.pos s) : Holds src { x with state := s } :=
  ⟨h.grammar, recorded, h.html, h.code⟩

/-- HTML goes on to the end or to the next opening mark. -/
theorem Holds.toHtml (h : Holds src x) {post : Unit → PhpScanner → Prop}
    (next : ∀ y, Holds src y → x.state.pos ≤ y.state.pos → y.state.pos = src.size ∨ src.At "<?" y.state.pos →
      post () y) : Yields toHtml x post fail := by
  simp only [Php.toHtml]
  refine yields_bind.mpr (yields_zoom.mpr ?_)
  refine yields_delegate (Html.covers served src) h.recorded h.html (fun _ _ => .inr rfl) (by simp) ?_ ?_
  · intro host z recorded le _ waits _ ends
    refine next _ ⟨h.grammar, recorded, waits, h.code⟩ le ?_
    cases eq : Scanner.interrupted z with
    | true => exact .inr (ends.server eq).2
    | false => exact .inl ((ends.ended eq).resolve_right id)
  · intro e s no
    cases no

/-- Code goes on to the end or to a closing mark, unless it comes to a name that is too long. -/
theorem Holds.toCode (h : Holds src x) {wrap : Option Kind} (named : ∀ k, wrap = some k → WellNamed k)
    {post : Unit → PhpScanner → Prop}
    (next : ∀ y, Holds src y → x.state.pos ≤ y.state.pos → y.state.pos = src.size ∨ src.At "?>" y.state.pos →
      (∀ name, Meets src (x.code.scanner.state.setPos x.state.pos) name → Text.byteSize name ≤ nameLimit) →
      post () y)
    (failed : ∀ name y, Meets src (x.code.scanner.state.setPos x.state.pos) name → nameLimit < Text.byteSize name →
      fail (tooLong name) y) : Yields (toCode wrap) x post fail := by
  simp only [Php.toCode]
  refine yields_bind.mpr (yields_zoom.mpr ?_)
  refine yields_delegate (code_covers src) h.recorded h.code (fun _ _ => .inr rfl) named ?_ ?_
  · intro host z recorded le _ waits _ ends
    exact next _ ⟨h.grammar, recorded, h.html, waits⟩ le ends.1 ends.2
  · intro e s refused
    obtain ⟨name, meets, long, rfl⟩ := refused
    exact failed name _ meets long

theorem closeMark_regex : closeMark.parsed.regex = .text ['?', '>'] := by decide +kernel

theorem closeMark_starts {u : Spot} (inside : u.In src.chars) (at_ : src.At "?>" u.pos) : closeMark.Starts u := by
  obtain ⟨v, insideV, here, back, rest⟩ := at_
  obtain rfl := insideV.eq_of_pos inside here
  simp only [Pattern.Starts, Pattern.Covers, closeMark_regex]
  exact ⟨_, [], Spot.Reads.of_rest rest, rfl⟩

/-- Code behind its opening mark, with the mark that closes it. -/
theorem Holds.codeRest (h : Holds src x) {wrap : Option Kind} (named : ∀ k, wrap = some k → WellNamed k)
    {post : Unit → PhpScanner → Prop}
    (next : ∀ y, Holds src y → x.state.pos ≤ y.state.pos → x.state.pos < y.state.pos ∨ y.state.pos = src.size →
      (∀ name, Meets src (x.code.scanner.state.setPos x.state.pos) name → Text.byteSize name ≤ nameLimit) →
      post () y)
    (failed : ∀ name y, Meets src (x.code.scanner.state.setPos x.state.pos) name → nameLimit < Text.byteSize name →
      fail (tooLong name) y) :
    Yields (do
      Php.toCode wrap
      Scan.scanAndRecord closeMark (some .delimiter) : PhpM Unit) x post fail := by
  refine yields_bind.mpr (h.toCode named ?_ failed)
  intro y holds le stops short
  refine yields_state.mpr ?_
  simp only [Scan.scanAndRecord]
  refine yields_bind.mpr (yields_scan holds.recorded.sound closeMark ?_ ?_)
  · intro c sound posC absent
    have here : ({ y.state with cursor := c } : ScanState).pos = y.state.pos := posC
    have moved := holds.recorded.withCursor sound
    rw [← here] at moved
    refine next _ (holds.withState moved) (Nat.le_trans le (Nat.le_of_eq here.symm)) (.inr ?_) short
    rcases stops with ended | at_
    · exact here.trans ended
    · obtain ⟨u, inside, pos, _⟩ := holds.recorded.sound.spot
      have same : u.pos = y.state.pos := pos
      rw [← same] at at_
      exact absurd (closeMark_starts inside at_) (absent u inside pos)
  · intro m c a b marks sound behind occurs here
    have start_ : m.start = y.state.pos := occurs.start.trans here
    have any := occurs.start_lt_stop (by rw [closeMark_regex]; decide)
    have moved := holds.recorded.withCursor sound
    rw [← start_] at moved
    refine moved.recordBehind occurs.spans behind (by decide) ?_
    intro s recorded at_ _
    have further : x.state.pos < s.pos := by omega
    exact next _ (holds.withState recorded) (Nat.le_of_lt further) (.inl further) short

/-- The match that a search for an opening mark reports if there is one at an offset. -/
def opening? (src : Source) (pos : Nat) : Option Match :=
  (openMark.findFrom? src pos).filter (·.start == pos)

/-- Where the code of a round begins, if the round is one of code. -/
def codeAt? (src : Source) (inCode : Bool) (pos : Nat) : Option Nat :=
  if inCode then some pos else (opening? src pos).map (·.stop)

theorem openMark_regex : openMark.parsed.regex =
    .seq (.text ['<', '?']) (.times 0 (some 1) true (.alt (.text ['p', 'h', 'p']) (.text ['=']))) := by
  decide +kernel

theorem openMark_starts {u : Spot} (inside : u.In src.chars) (at_ : src.At "<?" u.pos) : openMark.Starts u := by
  obtain ⟨v, insideV, here, back, rest⟩ := at_
  obtain rfl := insideV.eq_of_pos inside here
  simp only [Pattern.Starts, Pattern.Covers, openMark_regex]
  exact ⟨_, [], _, [], ⟨Spot.Reads.of_rest rest, rfl⟩, Regex.matches_optional.mpr (.inl ⟨rfl, rfl⟩)⟩

theorem opening?_none (absent : ∀ u : Spot, u.In src.chars → u.pos = pos → ¬ openMark.Starts u) :
    opening? src pos = none := by
  cases eq : opening? src pos with
  | none => rfl
  | some m =>
    simp only [opening?, Option.filter_eq_some_iff, beq_iff_eq] at eq
    obtain ⟨found, here⟩ := eq
    obtain ⟨a, b, marks, occurs, _⟩ := Pattern.findFrom?_some found
    exact absurd occurs.starts (absent a occurs.inside (occurs.start.symm.trans here))

/-- A block of code behind the mark that opens it. -/
theorem Holds.block (h : Holds src x) {m : Match} {c : Cursor} {a b : Spot} {marks : Regex.Marks} (sound : c.Sound src)
    (behind : c.pos = m.stop) (occurs : openMark.Occurs src m a b marks) (start : m.start = x.state.pos)
    {post : Unit → PhpScanner → Prop}
    (next : ∀ y, Holds src y → x.state.pos < y.state.pos →
      (∀ name, Meets src (x.code.scanner.state.setPos m.stop) name → Text.byteSize name ≤ nameLimit) → post () y)
    (failed : ∀ name y, Meets src (x.code.scanner.state.setPos m.stop) name → nameLimit < Text.byteSize name →
      fail (tooLong name) y) :
    Yields (Php.codeBlock (some (m.text c.source))) { x with state := { x.state with cursor := c } } post fail := by
  have any := occurs.start_lt_stop (by rw [openMark_regex]; decide)
  have further : x.state.pos < m.stop := by omega
  simp only [Php.codeBlock]
  refine yields_bind.mpr (yields_state.mpr (yields_modify.mpr ?_))
  have moved := h.recorded.withCursor sound
  rw [← start] at moved
  have delimiter : ∀ k, some Kind.delimiter = some k → WellNamed k := by decide
  have marked := moved.pushMatch occurs.spans delimiter
  have at_ : (ScanState.record { x.state with cursor := c }
      (.raw (some .delimiter) (m.text c.source))).pos = m.stop := by
    rw [ScanState.pos, ScanState.record_cursor]
    exact behind
  rw [← at_] at marked next failed further
  have named : ∀ k, (if some (m.text c.source) = some "<?=" then some Kind.interpolation else none) = some k →
      WellNamed k := by
    intro k eq
    split at eq <;> cases eq
    decide
  refine (h.withState marked).codeRest named ?_ failed
  intro y holds le _ short
  exact next y holds (Nat.lt_of_lt_of_le further le) short

/-- HTML in front of which there is no opening mark goes on. -/
theorem Holds.page (h : Holds src x) {c : Cursor} (sound : c.Sound src) (posC : c.pos = x.state.pos)
    (absent : ∀ u : Spot, u.In src.chars → u.pos = x.state.pos → ¬ openMark.Starts u)
    {post : Unit → PhpScanner → Prop}
    (next : ∀ y, Holds src y → x.state.pos ≤ y.state.pos → x.state.pos < y.state.pos ∨ y.state.pos = src.size →
      post () y) : Yields Php.toHtml { x with state := { x.state with cursor := c } } post fail := by
  have here : ({ x.state with cursor := c } : ScanState).pos = x.state.pos := posC
  have moved := h.recorded.withCursor sound
  rw [← here] at moved
  refine (h.withState moved).toHtml ?_
  intro y holds le stops
  have le' : x.state.pos ≤ y.state.pos := Nat.le_trans (Nat.le_of_eq here.symm) le
  refine next y holds le' ?_
  rcases stops with ended | at_
  · exact .inr ended
  · obtain ⟨u, inside, pos, _⟩ := h.recorded.sound.spot
    have pos' : u.pos = x.state.pos := pos
    -- The mark at which HTML stops is not the one in front of which it began.
    have other : x.state.pos ≠ y.state.pos := by
      intro same
      rw [← same, ← pos'] at at_
      exact absent u inside pos' (openMark_starts inside at_)
    exact .inl (Nat.lt_of_le_of_ne le' other)

/-- A round is one of code or one of HTML. It goes on in the source or reaches the end, unless its code comes to a
name that is too long. -/
theorem Holds.round (h : Holds src x) {inCode : Bool} {post : Unit → PhpScanner → Prop}
    (next : ∀ y, Holds src y → x.state.pos ≤ y.state.pos → x.state.pos < y.state.pos ∨ y.state.pos = src.size →
      (∀ p name, codeAt? src inCode x.state.pos = some p → Meets src (x.code.scanner.state.setPos p) name →
        Text.byteSize name ≤ nameLimit) → post () y)
    (failed : ∀ p name y, codeAt? src inCode x.state.pos = some p → Meets src (x.code.scanner.state.setPos p) name →
      nameLimit < Text.byteSize name → fail (tooLong name) y) :
    Yields (Php.round inCode) x post fail := by
  simp only [Php.round]
  refine yields_bind.mpr (yields_state.mpr (yields_ofCursor.mpr ?_))
  refine yields_bind.mpr (yields_state.mpr (yields_bind.mpr (yields_get.mpr (yields_pure.mpr ?_))))
  -- The round has gone on, or there is nothing more to do.
  have check : ∀ y, Holds src y → x.state.pos ≤ y.state.pos → x.state.pos < y.state.pos ∨ y.state.pos = src.size →
      (∀ p name, codeAt? src inCode x.state.pos = some p → Meets src (x.code.scanner.state.setPos p) name →
        Text.byteSize name ≤ nameLimit) →
      Yields (do Scan.ensureProgress (← get).grammar.name x.state.pos x.state.depth : PhpM Unit) y post fail := by
    intro y holds le progress short
    refine yields_bind.mpr (yields_get.mpr (yields_state.mpr ?_))
    refine yields_ensureProgress ?_ (next y holds le progress short)
    rcases progress with less | ended
    · exact .inl less
    · exact .inr (.inr (holds.recorded.sound.atEnd_iff.mpr ended))
  cases inCode with
  | true =>
    simp only [if_true, Php.codeBlock]
    refine yields_bind.mpr (h.codeRest (by simp) ?_ ?_)
    · intro y holds le progress short
      refine check y holds le progress ?_
      intro p name begins meets
      obtain rfl := Option.some.inj begins
      exact short name meets
    · intro name y meets long
      exact failed _ name y rfl meets long
  | false =>
    simp only [Bool.false_eq_true, if_false]
    refine yields_bind.mpr (yields_state.mpr (yields_scanFirst h.recorded.sound openMark ?_ ?_))
    · intro c sound posC absent
      refine yields_bind.mpr (h.page sound posC absent ?_)
      intro y holds le progress
      refine check y holds le progress ?_
      intro p name begins
      simp [codeAt?, opening?_none absent] at begins
    · intro m c a b marks sound behind occurs here found
      have start : m.start = x.state.pos := occurs.start.trans here
      have opening : codeAt? src false x.state.pos = some m.stop := by
        simp only [codeAt?, opening?, found, Bool.false_eq_true, if_false, Option.filter_some, start, beq_self_eq_true,
          if_true, Option.map_some]
      refine yields_bind.mpr (yields_state.mpr (yields_ofCursor.mpr ?_))
      refine yields_bind.mpr (h.block sound behind occurs start ?_ ?_)
      · intro y holds less short
        refine check y holds (Nat.le_of_lt less) (.inl less) ?_
        intro p name begins meets
        rw [opening] at begins
        obtain rfl := Option.some.inj begins
        exact short name meets
      · intro name y meets long
        exact failed _ name y opening meets long

/-- From a scanner on, the scan comes to a text of several lines with this name. -/
inductive Comes (src : Source) : PhpScanner → Bool → List Char → Prop where
  | here {x : PhpScanner} {inCode : Bool} {name : List Char} {p : Nat} (before : x.state.pos < src.size)
      (begins : codeAt? src inCode x.state.pos = some p) (meets : Meets src (x.code.scanner.state.setPos p) name) :
      Comes src x inCode name
  | later {x y : PhpScanner} {inCode : Bool} {name : List Char} (before : x.state.pos < src.size)
      (ran : Php.round inCode x = .ok () y) (more : Comes src y false name) : Comes src x inCode name

theorem Comes.size_le {inCode : Bool} {name : List Char} (h : Comes src x inCode name) :
    Text.byteSize name ≤ src.size := by
  induction h with
  | here _ _ meets => exact meets.size_le
  | later _ _ _ ih => exact ih

/-- Rounds lead to the end, unless their code comes to a name that is too long. -/
theorem Holds.loop {fuel : Nat} (h : Holds src x) {inCode : Bool} (enough : src.size - x.state.pos < fuel)
    {post : Unit → PhpScanner → Prop}
    (next : ∀ y, Holds src y → y.state.pos = src.size →
      (∀ name, Comes src x inCode name → Text.byteSize name ≤ nameLimit) → post () y)
    (failed : ∀ name y, Comes src x inCode name → nameLimit < Text.byteSize name → fail (tooLong name) y) :
    Yields (Php.loop fuel inCode) x post fail := by
  induction fuel generalizing x inCode with
  | zero => omega
  | succ fuel ih =>
    simp only [Php.loop]
    refine yields_bind.mpr (yields_state.mpr (yields_atEnd h.recorded.sound ?_))
    have le := h.recorded.sound.le_size
    by_cases ended : x.state.pos = src.size
    · simp only [ended, decide_true, Bool.not_true, Bool.false_eq_true, if_false]
      refine next x h ended ?_
      intro name comes
      cases comes with
      | here before => omega
      | later before => omega
    · have before : x.state.pos < src.size := Nat.lt_of_le_of_ne le ended
      simp only [ended, decide_false, Bool.not_false, if_true]
      refine yields_bind.mpr (Yields.ran (h.round ?_ ?_))
      · intro y holds above progress short ran
        have le' : y.state.pos ≤ src.size := holds.recorded.sound.le_size
        have less : src.size - y.state.pos < fuel := by omega
        refine ih holds less ?_ ?_
        · intro z holds' ended' short'
          refine next z holds' ended' ?_
          intro name comes
          cases comes with
          | here _ begins meets => exact short _ name begins meets
          | later _ ran' more =>
            rw [ran] at ran'
            cases ran'
            exact short' name more
        · intro name z comes long
          exact failed name z (.later before ran comes) long
      · intro p name y begins meets long _
        exact failed name y (.here before begins meets) long

/-- A scanner of pages or of snippets, with a text to scan. -/
def started (snippet : Bool) (text : String) : PhpScanner :=
  Scanner.setSource ({ snippet := snippet } : PhpScanner) (Source.ofString text)

theorem started_holds (snippet : Bool) (text : String) : Holds (Source.ofString text) (started snippet text) := by
  have blank : ∀ s : ScanState, s.outline = none → (s.setSource (Source.ofString text)).Blank (Source.ofString text) :=
    fun s flat => ScanState.blank_setSource flat _
  have begun := blank {} rfl
  have recorded : Recorded (Source.ofString text) (Grammar.bare "php").Allowed ⟨0, []⟩ 0 (started snippet text).state :=
    begun.recorded fun _ _ escaped => by cases escaped
  exact ⟨rfl, recorded, Html.waits_setSource rfl _, ⟨⟨rfl, begun.toSane⟩, rfl⟩⟩

/-- A run of the highlighter, by the names that the code of the source comes to. -/
theorem yields_highlight (snippet : Bool) (text : String) :
    Yields (Scanner.highlight text : EStateM ScanError PhpScanner String) { snippet := snippet }
      (fun out _ => Markup.strip out = text ∧
        ∀ name, Comes (Source.ofString text) (started snippet text) snippet name → Text.byteSize name ≤ nameLimit)
      (fun e _ => ∃ name, Comes (Source.ofString text) (started snippet text) snippet name ∧
        nameLimit < Text.byteSize name ∧ e = tooLong name) := by
  simp only [Scanner.highlight]
  refine yields_bind.mpr (yields_modify.mpr ?_)
  show Yields _ (started snippet text) _ _
  have holds := started_holds snippet text
  refine yields_bind.mpr ?_
  show Yields Php.main _ _ _
  simp only [Php.main]
  refine yields_bind.mpr (yields_get.mpr ?_)
  have inCode : ((started snippet text).snippet && (started snippet text).state.pos == 0) = snippet := by
    cases snippet <;> rfl
  rw [inCode]
  refine holds.loop ?_ ?_ ?_
  · have size : (started snippet text).state.source.size = (Source.ofString text).size := by
      rw [ScanState.source, holds.recorded.sound.source]
    simp only [Flat.budget, size]
    omega
  · intro y holdsY ended short
    refine yields_modifyGet.mpr ⟨?_, short⟩
    obtain ⟨grammar, recorded, _, _⟩ := holdsY
    rw [ended] at recorded
    obtain ⟨added, latest, spells⟩ := recorded.spells
    rw [List.append_nil] at latest
    rw [← latest] at spells
    have shows := (spells.tagged recorded.flat (Grammar.renders_bare "php")).1
    have same : (Scanner.tagged y : String × PhpScanner).1 = ((Grammar.bare "php").tagged y.state).1 := by
      rw [← grammar]
      rfl
    rw [same, Markup.strip, shows.stripChars, Markup.unescapeChars_escapeChars, Source.between_whole]
    exact String.ofList_toList
  · intro name y comes long
    exact ⟨name, comes, long, rfl⟩

/-- A text that is no longer than a name may be is highlighted, whatever it holds. -/
theorem highlight_strips_of_size (snippet : Bool) {text : String} (short : text.utf8ByteSize ≤ nameLimit) :
    ∃ out y, Scanner.highlight text ({ snippet := snippet } : PhpScanner) = .ok out y ∧ Markup.strip out = text := by
  have run := yields_highlight snippet text
  simp only [Yields] at run
  split at run
  · next out y eq => exact ⟨out, y, eq, run.1⟩
  · next e y eq =>
    obtain ⟨name, comes, long, _⟩ := run
    have le := comes.size_le
    rw [Source.size_ofString] at le
    omega

end Gloss.Language.Php

import Gloss.Language.Style
import Gloss.Proofs.Pattern.Resumed
import Gloss.Proofs.Regex.Everywhere
import Gloss.Proofs.Scan.Clear
import Gloss.Proofs.Scan.Regions

/-!
A run of the scanner for styles. Each of its attempts at the next token either takes one, which is the source
between two offsets, or leaves the state as it is apart from what the cursor remembers.
-/
namespace Gloss.Language.Style

open Text (Spot Source)
open Markup (Shows WellNamed escapeChars)

section Lifts

variable {α : Type} {x : StyleScanner} {post : α → StyleScanner → Prop} {fail : ScanError → StyleScanner → Prop}

/-- An operation on the state of the scan. -/
theorem yields_state {m : ScanM α} :
    Yields (liftM m : StyleM α) x post fail ↔
      Yields m x.state (fun a s => post a { x with state := s }) (fun e s => fail e { x with state := s }) := by
  show Yields (zoom _ _ (Suspend.lift m)) x post fail ↔ _
  simp only [Yields, zoom, Suspend.lift]
  cases m x.state <;> rfl

/-- An operation that may suspend the scan. -/
theorem yields_suspended {m : SuspendM α} :
    Yields (liftM m : StyleM α) x post fail ↔
      Yields m (x.state, x.suspension) (fun a y => post a { x with state := y.1, suspension := y.2 })
        (fun e y => fail e { x with state := y.1, suspension := y.2 }) := by
  show Yields (zoom _ _ m) x post fail ↔ _
  simp only [Yields, zoom]
  cases m (x.state, x.suspension) <;> rfl

end Lifts

/-- Regions of styles are opened by a brace or by a media rule. -/
def Opened (r : Region) : Prop := r.extra = none ∧ (r.name = block ∨ r.name = media ∨ r.name = nestedTop)

/-- The source is recorded up to an offset, without a server's tag in it, and no token is cut. -/
structure Keeps (e : Embedding) (src : Source) (start : Origin) (upTo : Nat) (x : StyleScanner) : Prop where
  grammar : x.grammar = Style.grammar
  embedding : x.embedding = e
  serverTag : x.serverTag = .literal "<?"
  recorded : Recorded src Token.IsRaw start upTo x.state
  regions : ∀ r ∈ x.state.regions, Opened r
  clear : e.server → src.Clear "<?" start.pos upTo
  idle : x.suspension = {}

/-- The scanner stands before the end of the source and not at a server's tag, at the offset up to which it has
recorded. -/
structure Stands (e : Embedding) (src : Source) (start : Origin) (pos : Nat) (x : StyleScanner) : Prop where
  keeps : Keeps e src start pos x
  here : x.state.pos = pos
  before : pos < src.size
  away : e.server → ¬ src.At "<?" pos

/-- A match at an offset that can be recorded as a token and cut at the server's tag. -/
structure Fits (e : Embedding) (src : Source) (pos : Nat) (kind : Option Kind) (m : Match) : Prop where
  start : m.start = pos
  any : m.start < m.stop
  spans : m.Spans src
  named : ∀ k, kind = some k → WellNamed k
  recovers : ∀ k, kind = some k → e.server → Text.indexOf? "<?" (m.text src) ≠ none →
    (Style.grammar.recovery.get? k).isSome
  untagged : kind = none → Text.indexOf? "<?" (m.text src) = none
  apart : e.server → ¬ src.InTag m.stop

/-- Where the markup around a style goes on. -/
def Closes (e : Embedding) (src : Source) (pos : Nat) : Prop := e.html ∧ styleClose.StartsAt src pos

/-- The next token was taken and the cursor is behind it, or the scan stops where it stands. -/
inductive Took (e : Embedding) (src : Source) (start : Origin) (pos : Nat) : Finding → StyleScanner → Prop where
  | token {kind : Option Kind} {m : Match} {x : StyleScanner} (keeps : Keeps e src start pos x)
      (behind : x.state.pos = m.stop) (fits : Fits e src pos kind m) : Took e src start pos (.token kind m) x
  | stop {x y : StyleScanner} (interrupted : Bool) (keeps : Keeps e src start pos x) (here : x.state.pos = pos)
      (left : y = { x with suspension := { interrupted } }) (server : interrupted → e.server ∧ src.At "<?" pos)
      (closes : interrupted = false → Closes e src pos) : Took e src start pos .stop y

/-- An attempt took the next token, or left the scanner where it stands. -/
inductive Attempted (e : Embedding) (src : Source) (start : Origin) (pos : Nat) : Option Finding → StyleScanner → Prop where
  | missed {x : StyleScanner} (stands : Stands e src start pos x) : Attempted e src start pos none x
  | took {f : Finding} {x : StyleScanner} (took : Took e src start pos f x) : Attempted e src start pos (some f) x

variable {e : Embedding} {src : Source} {start : Origin} {pos : Nat} {x : StyleScanner}
  {fail : ScanError → StyleScanner → Prop}

/-- Attempts come one after another until one takes something, or the last one does. -/
theorem yields_firstOf_of (missed : StyleScanner → Prop) {took : Finding → StyleScanner → Prop}
    {attempts : List (StyleM (Option Finding))} {last : StyleM Finding}
    (each : ∀ a ∈ attempts, ∀ x, missed x → Yields a x (fun r y => r.elim (missed y) (took · y)) fail)
    (final : ∀ x, missed x → Yields last x took fail) (here : missed x) : Yields (firstOf attempts last) x took fail := by
  induction attempts generalizing x with
  | nil => exact final x here
  | cons a attempts ih =>
    simp only [firstOf]
    refine yields_bind.mpr ((each a List.mem_cons_self x here).mono ?_ fun _ _ failed => failed)
    intro r y attempted
    cases r with
    | none => exact ih (fun b member => each b (List.mem_cons_of_mem _ member)) attempted
    | some f => exact attempted

theorem Attempted.elim {r : Option Finding} (h : Attempted e src start pos r x) :
    r.elim (Stands e src start pos x) (Took e src start pos · x) := by
  cases h with
  | missed stands => exact stands
  | took took => exact took

theorem yields_firstOf {attempts : List (StyleM (Option Finding))} {last : StyleM Finding}
    (each : ∀ a ∈ attempts, ∀ x, Stands e src start pos x → Yields a x (Attempted e src start pos) fail)
    (final : ∀ x, Stands e src start pos x → Yields last x (Took e src start pos) fail)
    (stands : Stands e src start pos x) : Yields (firstOf attempts last) x (Took e src start pos) fail :=
  yields_firstOf_of (Stands e src start pos)
    (fun a member x here => (each a member x here).mono (fun _ _ attempted => attempted.elim) fun _ _ failed => failed)
    final stands

/-- Other attempts come after one that took nothing. -/
theorem yields_firstOf_cons {a : StyleM (Option Finding)} {attempts : List (StyleM (Option Finding))}
    {last : StyleM Finding} (first : Yields a x (Attempted e src start pos) fail)
    (others : ∀ y, Stands e src start pos y → Yields (firstOf attempts last) y (Took e src start pos) fail) :
    Yields (firstOf (a :: attempts) last) x (Took e src start pos) fail := by
  simp only [firstOf]
  refine yields_bind.mpr (first.mono ?_ fun _ _ failed => failed)
  intro r y attempted
  cases attempted with
  | missed stands => exact others y stands
  | took took => exact took

theorem Keeps.withState (h : Keeps e src start pos x) {s : ScanState} {upTo : Nat}
    (recorded : Recorded src Token.IsRaw start upTo s) (regions : ∀ r ∈ s.regions, Opened r)
    (clear : e.server → src.Clear "<?" pos upTo) : Keeps e src start upTo { x with state := s } :=
  ⟨h.grammar, h.embedding, h.serverTag, recorded, regions, fun on => (h.clear on).append (clear on), h.idle⟩

theorem Keeps.sameState (h : Keeps e src start pos x) {s : ScanState} (recorded : Recorded src Token.IsRaw start pos s)
    (regions : ∀ r ∈ s.regions, Opened r) : Keeps e src start pos { x with state := s } :=
  h.withState recorded regions fun _ => .self src _ pos

/-- The same with another cursor. -/
theorem Stands.withCursor (h : Stands e src start pos x) {c : Cursor} (sound : c.Sound src)
    (here : c.pos = x.state.pos) : Stands e src start pos { x with state := { x.state with cursor := c } } :=
  ⟨h.keeps.sameState (h.keeps.recorded.withCursor sound) h.keeps.regions, here.trans h.here, h.before, h.away⟩

/-- A pattern whose matches can be recorded under a kind and cut. -/
structure Usable (kind : Kind) (p : Pattern) : Prop where
  consumes : p.parsed.regex.consumes
  named : WellNamed kind
  recovers : (Style.grammar.recovery.get? kind).isSome ∨ p.parsed.regex.separates '<' '?'
  guarded : p.parsed.regex.guarded
  apart : p.parsed.regex.apart '<' '?'

theorem Usable.fits {kind : Kind} {p : Pattern} (h : Usable kind p) {m : Match} {a b : Spot} {marks : Regex.Marks}
    (occurs : p.Occurs src m a b marks) (here : a.pos = pos) : Fits e src pos (some kind) m := by
  refine ⟨occurs.start.trans here, occurs.start_lt_stop h.consumes, occurs.spans, ?_, ?_, (fun no => by cases no),
    fun _ => occurs.not_inTag h.guarded h.apart⟩
  · intro k eq
    cases eq
    exact h.named
  · intro k eq _ tagged
    cases eq
    rcases h.recovers with known | separates
    · exact known
    · exact absurd (occurs.no_tag separates) tagged

theorem yields_tryToken (stands : Stands e src start pos x) (condition : Bool) {kind : Kind} {p : Pattern}
    (usable : Usable kind p) :
    Yields (liftM (tryToken condition kind p) : StyleM _) x (Attempted e src start pos) fail := by
  refine yields_state.mpr ?_
  simp only [tryToken]
  cases condition with
  | false => exact .missed stands
  | true =>
    simp only [Bool.not_true, Bool.false_eq_true, if_false]
    refine yields_bind.mpr (yields_scan stands.keeps.recorded.sound p ?_ ?_)
    · intro c sound here _
      exact .missed (stands.withCursor sound here)
    · intro m c a b marks sound behind occurs here
      have keeps := stands.keeps.sameState (stands.keeps.recorded.withCursor sound) stands.keeps.regions
      exact .took (.token keeps behind (usable.fits occurs (here.trans stands.here)))

instance (kind : Kind) (p : Pattern) : Decidable (Usable kind p) :=
  decidable_of_iff (p.parsed.regex.consumes ∧ WellNamed kind ∧
      ((Style.grammar.recovery.get? kind).isSome ∨ p.parsed.regex.separates '<' '?') ∧ p.parsed.regex.guarded ∧
      p.parsed.regex.apart '<' '?')
    ⟨fun ⟨consumes, named, recovers, guarded, apart⟩ => ⟨consumes, named, recovers, guarded, apart⟩,
      fun h => ⟨h.consumes, h.named, h.recovers, h.guarded, h.apart⟩⟩

/-- What the scanner tries one by one, with the kind that each is recorded under. -/
def tried : List (Kind × Pattern) :=
  [(.comment, commentPattern), (.numeric, hexColour), (.numeric, length), (selector, selectorName),
    (.tag, mediaRule), (.value, word), (.tag, word), (key, word), (.function, word),
    (attributeSelector, attributePattern), (roundSelector, roundPattern), (doubleString, doubleQuoted),
    (singleString, singleQuoted), (.operator, operators)]

theorem tried_usable {kind : Kind} {p : Pattern} (member : (kind, p) ∈ tried) : Usable kind p :=
  (by decide +kernel : ∀ e ∈ tried, Usable e.1 e.2) _ member

theorem word_usable {kind : Kind} (member : kind ∈ [Kind.value, .tag, key, .function]) : Usable kind word := by
  simp only [List.mem_cons, List.not_mem_nil, or_false] at member
  rcases member with rfl | rfl | rfl | rfl <;> exact tried_usable (by simp [tried])

/-- One character is a token; it has no room for the server's tag, and is not the front of one. -/
theorem yields_single (stands : Stands e src start pos x) {kind : Option Kind}
    (named : ∀ k, kind = some k → WellNamed k) :
    Yields (liftM (single kind) : StyleM _) x (Took e src start pos) fail := by
  have sound := stands.keeps.recorded.sound
  have here : x.state.cursor.pos = pos := stands.here
  obtain ⟨ch, rest, eq, spans⟩ := sound.head (by rw [here]; exact stands.before)
  refine yields_state.mpr ?_
  simp only [single]
  refine yields_bind.mpr (yields_ofCursor.mpr ?_)
  refine yields_bind.mpr (yields_ofCursor.mpr ?_)
  have size : (x.state.cursor.peek?.map Char.utf8Size).getD 1 = ch.utf8Size := by simp [Cursor.peek?, eq]
  rw [size]
  refine yields_bind.mpr (yields_accept sound spans ?_)
  intro c _ sound' behind _
  have keeps := stands.keeps.sameState (stands.keeps.recorded.withCursor sound') stands.keeps.regions
  have lone := sound.lone eq spans
  refine .token keeps behind ⟨here, ?_, spans, named, ?_, fun _ => lone.1, ?_⟩
  · show x.state.cursor.pos < x.state.cursor.pos + ch.utf8Size
    have := Char.utf8Size_pos ch
    omega
  · intro k _ _ tagged
    exact absurd lone.1 tagged
  · intro on inTag
    have at_ := lone.2 inTag
    rw [here] at at_
    exact stands.away on at_

/-- Regions that are closed leave the scanner where it stands. -/
theorem Stands.withState (h : Stands e src start pos x) {s : ScanState}
    (recorded : Recorded src Token.IsRaw start pos s) (cursor : s.cursor = x.state.cursor)
    (regions : ∀ r ∈ s.regions, Opened r) : Stands e src start pos { x with state := s } := by
  refine ⟨h.keeps.sameState recorded regions, ?_, h.before, h.away⟩
  show s.cursor.pos = pos
  rw [cursor]
  exact h.here

section ClosingRegions

variable {Allowed : Token → Prop} {upTo : Nat} {s : ScanState} {fail : ScanError → ScanState → Prop}

/-- A region is only closed where one of its name is open. -/
theorem yields_popNamed (h : Recorded src Allowed start upTo s) (opened : ∀ r ∈ s.regions, Opened r)
    (named : s.stateName ≠ .initial) {post : Region → ScanState → Prop}
    (next : ∀ r s', Recorded src Allowed start upTo s' → s'.cursor = s.cursor → (∀ r ∈ s'.regions, Opened r) →
      post r s') : Yields Scan.popRegion s post fail := by
  cases open_ : s.regions with
  | nil => simp [ScanState.stateName, open_] at named
  | cons r outer =>
    refine h.popRegion open_ ?_
    intro s' recorded cursor regions
    refine next r s' recorded cursor ?_
    intro q member
    rw [regions] at member
    exact opened q (by rw [open_]; exact List.mem_cons_of_mem _ member)

theorem yields_closeBrace (h : Recorded src Allowed start upTo s) (opened : ∀ r ∈ s.regions, Opened r)
    {post : Unit → ScanState → Prop}
    (next : ∀ s', Recorded src Allowed start upTo s' → s'.cursor = s.cursor → (∀ r ∈ s'.regions, Opened r) →
      post () s') : Yields closeBrace s post fail := by
  simp only [closeBrace]
  refine yields_bind.mpr (yields_bind.mpr (yields_get.mpr ?_))
  refine yields_pure.mpr ?_
  split
  · next inBlock =>
    simp only [Bool.or_eq_true, decide_eq_true_eq] at inBlock
    have named : s.stateName ≠ .initial := by
      rcases inBlock with eq | eq <;> rw [eq] <;> decide
    exact yields_bind.mpr (yields_popNamed h opened named fun r s' recorded cursor opened' =>
      next s' recorded cursor opened')
  · split
    · next inTop =>
      have named : s.stateName ≠ .initial := by rw [inTop]; decide
      refine yields_bind.mpr (yields_popNamed h opened named ?_)
      intro r s' recorded cursor opened'
      refine yields_bind.mpr (yields_bind.mpr (yields_get.mpr (yields_pure.mpr ?_)))
      split
      · next inMedia =>
        have named' : s'.stateName ≠ .initial := by rw [inMedia]; decide
        exact yields_bind.mpr (yields_popNamed recorded opened' named' fun r s'' recorded' cursor' opened'' =>
          next s'' recorded' (cursor'.trans cursor) opened'')
      · exact next s' recorded cursor opened'
    · exact next s h rfl opened

theorem yields_closeRegions (h : Recorded src Allowed start upTo s) {post : Unit → ScanState → Prop}
    (next : ∀ s', Recorded src Allowed start upTo s' → s'.cursor = s.cursor → s'.regions = [] → post () s') :
    Yields (closeRegions s.regions) s post fail := by
  generalize open_ : s.regions = regions
  induction regions generalizing s with
  | nil => exact next s h rfl open_
  | cons r outer ih =>
    simp only [closeRegions]
    refine yields_bind.mpr (h.popRegion open_ ?_)
    intro s' recorded cursor regions
    refine ih recorded ?_ regions
    intro s'' recorded' cursor' regions'
    exact next s'' recorded' (cursor'.trans cursor) regions'

end ClosingRegions

/-- A word is a token of some kind that fits it. -/
theorem yields_wordToken (stands : Stands e src start pos x) (inBlock inMedia : Bool) (expected : Expected) :
    Yields (liftM (wordToken inBlock inMedia expected) : StyleM _) x (Attempted e src start pos) fail := by
  refine yields_state.mpr ?_
  simp only [wordToken]
  refine yields_bind.mpr (yields_scan stands.keeps.recorded.sound word ?_ ?_)
  · intro c sound here _
    exact .missed (stands.withCursor sound here)
  · intro m c a b marks sound behind occurs here
    refine yields_bind.mpr (yields_ofCursor.mpr (yields_pure.mpr ?_))
    have keeps := stands.keeps.sameState (stands.keeps.recorded.withCursor sound) stands.keeps.regions
    have took : ∀ kind ∈ [Kind.value, .tag, key, .function],
        Attempted e src start pos (some (.token (some kind) m)) { x with state := { x.state with cursor := c } } :=
      fun kind member => .took (.token keeps behind ((word_usable member).fits occurs (here.trans stands.here)))
    refine took _ ?_
    split
    · simp
    · split
      · simp
      · split
        · simp
        · split <;> simp

/-- A token of one character under a kind that can stand in a tag. -/
theorem yields_someSingle (stands : Stands e src start pos x) {kind : Option Kind}
    (named : ∀ k, kind = some k → WellNamed k) :
    Yields (do return some (← (single kind : ScanM _)) : StyleM (Option Finding)) x (Attempted e src start pos)
      fail :=
  yields_bind.mpr ((yields_single stands named).mono (fun _ _ took => .took took) fun _ _ failed => failed)

/-- Opening a region leaves the scanner where it stands. -/
theorem Stands.push (h : Stands e src start pos x) {s : ScanState} {r : Region} (opened : Opened r)
    (recorded : Recorded src Token.IsRaw start pos s) (cursor : s.cursor = x.state.cursor)
    (regions : s.regions = r :: x.state.regions) : Stands e src start pos { x with state := s } := by
  refine h.withState recorded cursor ?_
  intro q member
  rw [regions] at member
  rcases List.mem_cons.mp member with rfl | member
  · exact opened
  · exact h.keeps.regions q member

theorem Stands.expect (h : Stands e src start pos x) (expected : Expected) :
    Stands e src start pos { x with expected } :=
  ⟨⟨h.keeps.grammar, h.keeps.embedding, h.keeps.serverTag, h.keeps.recorded, h.keeps.regions, h.keeps.clear,
    h.keeps.idle⟩, h.here, h.before, h.away⟩

theorem yields_mark (stands : Stands e src start pos x) (c : Char) (inBlock inMedia : Bool) :
    Yields (mark c inBlock inMedia) x (Attempted e src start pos) fail := by
  have missed : Attempted e src start pos none x := .missed stands
  unfold mark
  split
  · refine yields_bind.mpr (yields_state.mpr ?_)
    refine yields_closeBrace stands.keeps.recorded stands.keeps.regions ?_
    intro s recorded cursor opened
    exact yields_someSingle (stands.withState recorded cursor opened) (by simp)
  · refine yields_bind.mpr (yields_state.mpr (yields_ofCursor.mpr ?_))
    split
    · refine yields_bind.mpr (yields_state.mpr (stands.keeps.recorded.pushRegion _ ?_))
      intro s recorded cursor regions
      exact yields_someSingle (stands.push ⟨rfl, .inr (.inr rfl)⟩ recorded cursor regions) (by simp)
    · split
      · refine yields_bind.mpr (yields_state.mpr (stands.keeps.recorded.pushRegion _ ?_))
        intro s recorded cursor regions
        refine yields_bind.mpr (yields_modify.mpr ?_)
        exact yields_someSingle ((stands.push ⟨rfl, .inl rfl⟩ recorded cursor regions).expect _) (by simp)
      · exact yields_someSingle stands (by simp)
  · exact yields_tryToken stands true (tried_usable (by simp [tried]))
  · exact yields_tryToken stands true (tried_usable (by simp [tried]))
  · split
    · refine yields_bind.mpr (yields_modify.mpr ?_)
      exact yields_someSingle (stands.expect _) (by decide)
    · exact missed
  · split
    · refine yields_bind.mpr (yields_modify.mpr ?_)
      exact yields_someSingle (stands.expect _) (by decide)
    · exact missed
  · exact missed

/-- Before all else the scanner looks whether it is at the server's tag. -/
theorem yields_serverStop (keeps : Keeps e src start pos x) (here : x.state.pos = pos) (before : pos < src.size) :
    Yields (do
      let x ← get
      if x.embedding.server && (← Scan.check x.serverTag).isSome then
        modify fun x => { x with suspension := { x.suspension with interrupted := true } }
        return some .stop
      return none : StyleM (Option Finding)) x (Attempted e src start pos) fail := by
  refine yields_bind.mpr (yields_get.mpr ?_)
  rw [keeps.embedding, keeps.serverTag]
  refine yields_bind.mpr (yields_state.mpr (yields_check keeps.recorded.sound _ ?_ ?_))
  · intro c sound pos' absent
    simp only [Option.isSome_none, Bool.and_false, Bool.false_eq_true, if_false]
    refine .missed ⟨keeps.sameState (keeps.recorded.withCursor sound) keeps.regions, pos'.trans here, before, ?_⟩
    intro _ at_
    obtain ⟨u, inside, at_, starts⟩ := (Pattern.startsAt_tag Pattern.tag_regex).mpr at_
    exact absent u inside (at_.trans here.symm) starts
  · intro m c a b marks sound pos' occurs at_
    have keeps' := keeps.sameState (keeps.recorded.withCursor sound) keeps.regions
    have there : c.pos = pos := pos'.trans here
    simp only [Option.isSome_some, Bool.and_true]
    by_cases on : e.server
    · rw [if_pos on]
      have tag := occurs.at_start Pattern.tag_regex
      rw [occurs.start, at_, here] at tag
      refine yields_bind.mpr (yields_modify.mpr (yields_pure.mpr (.took (.stop true keeps' there ?_ ?_ ?_))))
      · simp [keeps.idle]
      · exact fun _ => ⟨on, tag⟩
      · intro no
        cases no
    · rw [if_neg on]
      exact .missed ⟨keeps', there, before, fun server => absurd server on⟩

/-- At the closing tag of the markup around, the scan stops with no region open. -/
theorem yields_closeStop (stands : Stands e src start pos x) :
    Yields (do
      if (← get).embedding.html && (← Scan.check styleClose).isSome then
        modify fun x => { x with suspension := {} }
        closeRegions (← get).state.regions
        return some .stop
      return none : StyleM (Option Finding)) x (Attempted e src start pos) fail := by
  refine yields_bind.mpr (yields_get.mpr ?_)
  rw [stands.keeps.embedding]
  refine yields_bind.mpr (yields_state.mpr (yields_check stands.keeps.recorded.sound _ ?_ ?_))
  · intro c sound pos' _
    simp only [Option.isSome_none, Bool.and_false, Bool.false_eq_true, if_false]
    exact .missed (stands.withCursor sound pos')
  · intro m c a b marks sound pos' occurs at_
    have stands' := stands.withCursor sound pos'
    simp only [Option.isSome_some, Bool.and_true]
    by_cases on : e.html
    · rw [if_pos on]
      refine yields_bind.mpr (yields_modify.mpr (yields_bind.mpr (yields_get.mpr ?_)))
      refine yields_bind.mpr (yields_state.mpr (yields_closeRegions stands'.keeps.recorded ?_))
      intro s recorded cursor regions
      have closed := stands'.withState recorded cursor (by simp [regions])
      refine .took (.stop false closed.keeps closed.here rfl (fun no => by cases no) fun _ => ⟨on, ?_⟩)
      exact ⟨a, occurs.inside, at_.trans stands.here, occurs.starts⟩
    · rw [if_neg on]
      exact .missed stands'

/-- The next token is taken by the first attempt that finds one, or as a single character. -/
theorem yields_next (keeps : Keeps e src start pos x) (here : x.state.pos = pos) (before : pos < src.size) :
    Yields next x (Took e src start pos) fail := by
  simp only [next]
  refine yields_bind.mpr (yields_state.mpr (yields_ofCursor.mpr ?_))
  refine yields_bind.mpr (yields_state.mpr (yields_bind.mpr (yields_get.mpr (yields_pure.mpr ?_))))
  refine yields_firstOf_cons (yields_serverStop keeps here before) ?_
  intro z stands
  refine yields_firstOf ?_ (fun y stands' => yields_single stands' (by simp)) stands
  intro a member y here
  simp only [List.mem_cons, List.not_mem_nil, or_false] at member
  rcases member with rfl | rfl | rfl | rfl | rfl | rfl | rfl | rfl | rfl | rfl | rfl
  · exact yields_tryToken here _ (tried_usable (by simp [tried]))
  · exact yields_tryToken here _ (tried_usable (by simp [tried]))
  · exact yields_tryToken here _ (tried_usable (by simp [tried]))
  · refine yields_bind.mpr (yields_state.mpr (yields_ofCursor.mpr ?_))
    exact yields_tryToken here _ (tried_usable (by simp [tried]))
  · refine yields_bind.mpr ((yields_tryToken here _ (tried_usable (by simp [tried]))).mono ?_ fun _ _ failed => failed)
    intro r y attempted
    cases attempted with
    | missed stands' => exact .missed stands'
    | took took =>
      cases took with
      | stop interrupted keeps here' left server closes =>
        exact .took (.stop interrupted keeps here' left server closes)
      | token keeps behind fits =>
        refine yields_bind.mpr (yields_state.mpr (keeps.recorded.pushRegion _ ?_))
        intro s recorded cursor regions
        refine .took (.token (keeps.sameState recorded ?_) ?_ fits)
        · intro q member
          rw [regions] at member
          rcases List.mem_cons.mp member with rfl | member
          · exact ⟨rfl, .inr (.inl rfl)⟩
          · exact keeps.regions q member
        · show s.cursor.pos = _
          rw [cursor]
          exact behind
  · split
    · refine yields_bind.mpr (yields_get.mpr ?_)
      exact yields_wordToken here _ _ _
    · exact .missed here
  · exact yields_tryToken here _ (tried_usable (by simp [tried]))
  · exact yields_tryToken here _ (tried_usable (by simp [tried]))
  · exact yields_mark here _ _ _
  · exact yields_closeStop here
  · exact yields_tryToken here _ (tried_usable (by simp [tried]))

/-- All is recorded up to the cursor, without a server's tag in it, and a token that was cut can be taken up. -/
structure Holds (e : Embedding) (src : Source) (start : Origin) (x : StyleScanner) : Prop where
  grammar : x.grammar = Style.grammar
  embedding : x.embedding = e
  serverTag : x.serverTag = .literal "<?"
  recorded : Recorded src Token.IsRaw start x.state.pos x.state
  regions : ∀ r ∈ x.state.regions, Opened r
  clear : e.server → src.Clear "<?" start.pos x.state.pos
  known : ∀ k, x.suspension.cut = some k → (Style.grammar.recovery.get? k).isSome

/-- The scan has left, at the server's tag if that interrupted it. -/
structure Leaves (e : Embedding) (src : Source) (start : Origin) (x : StyleScanner) : Prop extends
    Holds e src start x where
  server : x.suspension.interrupted → e.server ∧ src.At "<?" x.state.pos
  ended : x.suspension.interrupted = false → x.state.pos = src.size ∨ Closes e src x.state.pos

/-- How a step from an offset ends. -/
inductive Advanced (e : Embedding) (src : Source) (start : Origin) (pos : Nat) : Progress → StyleScanner → Prop where
  | more {x : StyleScanner} (keeps : Keeps e src start x.state.pos x) (less : pos < x.state.pos) :
      Advanced e src start pos .more x
  | atEnd {x : StyleScanner} (keeps : Keeps e src start x.state.pos x) (le : pos ≤ x.state.pos)
      (ended : x.state.pos = src.size) : Advanced e src start pos .atEnd x
  | left {x : StyleScanner} (leaves : Leaves e src start x) (le : pos ≤ x.state.pos) :
      Advanced e src start pos .left x

theorem Advanced.mono {before : Nat} {r : Progress} (h : Advanced e src start pos r x) (le : before ≤ pos) :
    Advanced e src start before r x := by
  cases h with
  | more keeps less => exact .more keeps (by omega)
  | atEnd keeps le' ended => exact .atEnd keeps (by omega) ended
  | left leaves le' => exact .left leaves (by omega)

/-- A token that is cut is recorded up to the tag, and left to be taken up again. -/
theorem Keeps.cut (h : Keeps e src start pos x) {s : ScanState} {kind : Kind}
    (recorded : Recorded src Token.IsRaw start s.pos s) (regions : s.regions = x.state.regions) (on : e.server)
    (clear : src.Clear "<?" pos s.pos) (at_ : src.At "<?" s.pos) (known : (Style.grammar.recovery.get? kind).isSome) :
    Leaves e src start { x with state := s, suspension := { interrupted := true, cut := some kind } } := by
  refine ⟨⟨h.grammar, h.embedding, h.serverTag, recorded, ?_, fun on => (h.clear on).append clear, ?_⟩,
    fun _ => ⟨on, at_⟩, fun no => by cases no⟩
  · rw [regions]
    exact h.regions
  · intro k eq
    cases eq
    exact known

theorem yields_stepToken (tag : e.serverTag = "<?") (keeps : Keeps e src start x.state.pos x) :
    Yields stepToken x (Advanced e src start x.state.pos) fail := by
  simp only [stepToken]
  refine yields_bind.mpr (yields_state.mpr (keeps.recorded.skipBlank ?_))
  intro s recorded le regions blank
  have keeps' := keeps.withState recorded (by rw [regions]; exact keeps.regions) fun _ =>
    Source.clear_of_avoids keeps.recorded.last recorded.last fun member => absurd (blank _ member) (by decide)
  refine yields_bind.mpr (yields_state.mpr (yields_atEnd recorded.sound ?_))
  by_cases ended : s.pos = src.size
  · simp only [ended, decide_true, if_true]
    exact .atEnd keeps' le ended
  · simp only [ended, decide_false, Bool.false_eq_true, if_false]
    have before : s.pos < src.size := Nat.lt_of_le_of_ne recorded.sound.le_size ended
    refine yields_bind.mpr (yields_state.mpr (yields_ofCursor.mpr ?_))
    refine yields_bind.mpr (yields_state.mpr (yields_bind.mpr (yields_get.mpr (yields_pure.mpr ?_))))
    refine yields_bind.mpr ((yields_next keeps' rfl before).mono ?_ fun _ _ failed => failed)
    intro f y took
    cases took with
    | @stop z _ interrupted keepsZ here left server closes =>
      subst left
      rw [← here] at keepsZ server closes
      refine .left ⟨⟨keepsZ.grammar, keepsZ.embedding, keepsZ.serverTag, keepsZ.recorded, keepsZ.regions, keepsZ.clear,
        (fun k no => by cases no)⟩, server, fun quiet => .inr (closes quiet)⟩ ?_
      show x.state.pos ≤ z.state.pos
      rw [here]
      exact le
    | @token kind m _ keepsY behind fits =>
      refine yields_bind.mpr (yields_get.mpr ?_)
      have any := fits.any
      have start_ := fits.start
      -- Recording the token moves on, whatever its kind.
      have record : ∀ z : StyleScanner, Keeps e src start s.pos z → z.state.pos = m.stop →
          (e.server → src.Clear "<?" m.start m.stop) →
          Yields (do
            Scan.recordMatch kind m
            Scan.ensureProgress y.grammar.name s.cursor.pos s.depth
            pure Progress.more : StyleM Progress) z (Advanced e src start x.state.pos) fail := by
        intro z keepsZ behindZ clear
        refine yields_bind.mpr (yields_state.mpr (keepsZ.recorded.recordMatch fits.spans start_ fits.named ?_))
        intro s' recorded' cursor regions'
        have at_ : s'.pos = m.stop := by
          show s'.cursor.pos = m.stop
          rw [cursor]
          exact behindZ
        have further : s.cursor.pos < s'.pos := by
          have : s.cursor.pos = m.start := start_.symm
          omega
        refine yields_bind.mpr (yields_state.mpr (yields_ensureProgress (.inl further) ?_))
        rw [← at_] at recorded' clear
        rw [start_] at clear
        refine .more (keepsZ.withState recorded' ?_ clear) ?_
        · rw [regions']
          exact keepsZ.regions
        · show x.state.pos < s'.pos
          have : s.cursor.pos = s.pos := rfl
          omega
      cases kind with
      | none => exact record y keepsY behind fun on => fits.spans.clear (fits.untagged rfl) (fits.apart on)
      | some kind =>
        simp only
        rw [keepsY.embedding]
        have recordedY := keepsY.recorded
        rw [← start_] at recordedY
        refine yields_bind.mpr (yields_suspended.mpr (Suspend.yields_serverBreak recordedY fits.spans
          (fits.named kind rfl) ?_ ?_ ?_))
        · intro on tagged
          rw [tag] at tagged
          rw [keepsY.grammar]
          exact fits.recovers kind rfl on tagged
        · intro untagged
          refine record y keepsY behind fun on => fits.spans.clear ?_ (fits.apart on)
          rw [← tag]
          exact untagged on
        · intro a b s' on text least recorded' pos' regions'
          rw [tag] at text least
          have tagAt := fits.spans.at_ text
          have clear := fits.spans.clear_front text least
          rw [← pos'] at tagAt recorded' clear
          rw [start_] at clear
          simp only [if_true]
          refine .left (keepsY.cut recorded' regions' on clear tagAt ?_) ?_
          · refine fits.recovers kind rfl on ?_
            intro missed
            exact Text.indexOf?_none missed _ _ text
          · show x.state.pos ≤ s'.pos
            omega

/-- Quoted texts and arguments that were cut go on to their closing character, or to the end of the source. -/
theorem closedBy_starts {p : Pattern} (plain : Regex.CharSet) (close : Char)
    (regex : p.parsed.regex = .seq (.times 0 none true (.escaped plain)) (.closedOr [close] .textEnd))
    (all : plain.allBut ['\\', close]) (s : Spot) : p.Starts s := by
  have everything : Regex.CharSet.any.allBut [] := by decide
  simp only [Pattern.Starts, Pattern.Covers, regex]
  refine Regex.quotedUntil_starts [close] ?_ all ?_ ?_
  · intro s ended
    simp [Regex.Assertion.holds, ended]
  · intro s m c rest eq listed
    obtain rfl := List.mem_singleton.mp listed
    exact .inr ⟨_, m, Spot.Reads.step eq, rfl⟩
  · intro s c rest _
    exact .inr (Regex.CharSet.mem_of_allBut everything (by simp))

/-- The patterns by which tokens of styles are taken up again. -/
theorem recovery_eq : Style.grammar.recovery = [
    (roundSelector, .ofText "(?s)(?:[^)\\\\]|\\\\.)*(?:\\)|\\\\?\\z)"),
    (attributeSelector, .ofText "(?s)(?:[^\\]\\\\]|\\\\.)*(?:\\]|\\\\?\\z)"),
    (doubleString, .ofText "(?s)(?:[^\\\\\"]|\\\\.)*(?:\"|\\\\?\\z)"),
    (singleString, .ofText "(?s)(?:[^\\\\']|\\\\.)*(?:'|\\\\?\\z)"),
    (.comment, .ofText "(?s).*?(?:\\*/|\\z)")] := rfl

/-- What these patterns parse to. -/
theorem recoveries_parse :
    (Pattern.ofText "(?s)(?:[^)\\\\]|\\\\.)*(?:\\)|\\\\?\\z)").parsed.regex =
      .seq (.times 0 none true (.escaped ⟨[(0, 40), (42, 91), (93, 1114111)]⟩)) (.closedOr [')'] .textEnd) ∧
    (Pattern.ofText "(?s)(?:[^\\]\\\\]|\\\\.)*(?:\\]|\\\\?\\z)").parsed.regex =
      .seq (.times 0 none true (.escaped ⟨[(0, 91), (94, 1114111)]⟩)) (.closedOr [']'] .textEnd) ∧
    (Pattern.ofText "(?s)(?:[^\\\\\"]|\\\\.)*(?:\"|\\\\?\\z)").parsed.regex =
      .seq (.times 0 none true (.escaped ⟨[(0, 33), (35, 91), (93, 1114111)]⟩)) (.closedOr ['"'] .textEnd) ∧
    (Pattern.ofText "(?s)(?:[^\\\\']|\\\\.)*(?:'|\\\\?\\z)").parsed.regex =
      .seq (.times 0 none true (.escaped ⟨[(0, 38), (40, 91), (93, 1114111)]⟩)) (.closedOr ['\''] .textEnd) ∧
    (Pattern.ofText "(?s).*?(?:\\*/|\\z)").parsed.regex =
      .seq (.times 0 none false (.set .any)) (.alt (.text ['*', '/']) (.look .textEnd)) := by
  decide +kernel

/-- Every token that was cut can be taken up, wherever the scan goes on. -/
theorem recovery_starts {kind : Kind} {p : Pattern} (known : Style.grammar.recovery.get? kind = some p) :
    (∀ s : Spot, p.Starts s) ∧ WellNamed kind := by
  have member := Keyed.mem_of_get? known
  obtain ⟨round, square, double, single, block⟩ := recoveries_parse
  rw [recovery_eq] at member
  simp only [List.mem_cons, List.not_mem_nil, or_false, Prod.mk.injEq] at member
  rcases member with ⟨rfl, rfl⟩ | ⟨rfl, rfl⟩ | ⟨rfl, rfl⟩ | ⟨rfl, rfl⟩ | ⟨rfl, rfl⟩
  · exact ⟨closedBy_starts _ ')' round (by decide), by decide⟩
  · exact ⟨closedBy_starts _ ']' square (by decide), by decide⟩
  · exact ⟨closedBy_starts _ '"' double (by decide), by decide⟩
  · exact ⟨closedBy_starts _ '\'' single (by decide), by decide⟩
  · refine ⟨fun s => ?_, by decide⟩
    simp only [Pattern.Starts, Pattern.Covers, block]
    exact Regex.anythingUntil_starts (by decide)

theorem recovery_apart {kind : Kind} {p : Pattern} (known : Style.grammar.recovery.get? kind = some p) :
    p.parsed.regex.guarded ∧ p.parsed.regex.apart '<' '?' := by
  have all : ∀ x ∈ Style.grammar.recovery, x.2.parsed.regex.guarded ∧ x.2.parsed.regex.apart '<' '?' := by
    rw [recovery_eq]
    decide +kernel
  exact all _ (Keyed.mem_of_get? known)

/-- One step; what was cut comes first. -/
theorem yields_step (tag : e.serverTag = "<?") (h : Holds e src start x) (quiet : x.suspension.interrupted = false) :
    Yields step x (Advanced e src start x.state.pos) fail := by
  simp only [step]
  refine yields_bind.mpr (yields_get.mpr ?_)
  have total : ∀ k, x.suspension.cut = some k →
      ∃ p, x.grammar.recovery.get? k = some p ∧ ∀ u : Spot, p.Starts u := by
    intro k eq
    obtain ⟨p, some_⟩ := Option.isSome_iff_exists.mp (h.known k eq)
    rw [h.grammar]
    exact ⟨p, some_, (recovery_starts some_).1⟩
  refine yields_bind.mpr (yields_suspended.mpr (Suspend.yields_resume h.recorded.sound total ?_ ?_))
  · intro none_
    have idle : x.suspension = {} := by
      cases eq : x.suspension with
      | mk interrupted cut =>
        rw [eq] at quiet none_
        simp only at quiet none_
        rw [quiet, none_]
    exact yields_stepToken tag ⟨h.grammar, h.embedding, h.serverTag, h.recorded, h.regions, h.clear, idle⟩
  · intro kind p m c a b marks isCut some_ sound behind occurs here
    obtain rfl := h.embedding
    have start_ : m.start = x.state.pos := occurs.start.trans here
    rw [h.grammar] at some_
    obtain ⟨_, named⟩ := recovery_starts some_
    obtain ⟨guarded, apart⟩ := recovery_apart some_
    have le := occurs.spans.le
    have recorded := h.recorded.withCursor sound
    have clear := h.clear
    rw [← start_] at recorded clear
    -- What was cut is given up here; the state is as before, with the cursor behind the match.
    have keeps : Keeps x.embedding src start m.start
        { x with state := { x.state with cursor := c }, suspension := {} } :=
      ⟨h.grammar, rfl, h.serverTag, recorded, h.regions, clear, rfl⟩
    -- The token is recorded, if there is any, and the next one is taken.
    have goOn : ∀ y : StyleScanner, Keeps x.embedding src start m.stop y → y.state.pos = m.stop →
        Yields stepToken y (Advanced x.embedding src start x.state.pos) fail := by
      intro y keeps here'
      rw [← here'] at keeps
      refine (yields_stepToken tag keeps).mono ?_ fun _ _ failed => failed
      intro r z advanced
      exact advanced.mono (by omega)
    refine yields_bind.mpr (yields_suspended.mpr (Suspend.yields_serverBreak recorded occurs.spans named ?_ ?_ ?_))
    · intro _ _
      rw [h.grammar, some_]
      rfl
    · intro untagged
      have clear' : x.embedding.server → src.Clear "<?" m.start m.stop := by
        intro on
        refine occurs.spans.clear ?_ (occurs.not_inTag guarded apart)
        rw [← tag]
        exact untagged on
      simp only [Bool.false_eq_true, if_false]
      by_cases empty : m.span.isEmpty
      · simp only [empty, Bool.not_true, Bool.false_eq_true, if_false]
        have stop : m.stop = m.start := by
          have : m.stop - m.start = 0 := by simpa [Span.isEmpty, Span.size, Match.start, Match.stop] using empty
          omega
        rw [← stop] at keeps
        exact goOn _ keeps behind
      · simp only [empty, Bool.not_false, if_true]
        have named' : ∀ k, some kind = some k → WellNamed k := by
          intro k eq
          cases eq
          exact named
        refine yields_bind.mpr (yields_state.mpr (recorded.recordMatch occurs.spans rfl named' ?_))
        intro s' recorded' cursor regions'
        refine goOn _ (keeps.withState recorded' (by rw [regions']; exact h.regions) clear') ?_
        show s'.cursor.pos = m.stop
        rw [cursor]
        exact behind
    · intro a b s' on text least recorded' pos' regions'
      rw [tag] at text least
      have tagAt := occurs.spans.at_ text
      have clear' := occurs.spans.clear_front text least
      rw [← pos'] at tagAt recorded' clear'
      simp only [if_true]
      refine .left (keeps.cut recorded' regions' on clear' tagAt (by rw [some_]; rfl)) ?_
      show x.state.pos ≤ s'.pos
      omega

theorem shown_of_opened {regions : List Region} (opened : ∀ r ∈ regions, Opened r) :
    Recorded.Shown Style.grammar regions := by
  intro r member kind shown
  obtain ⟨extra, name⟩ := opened r member
  have named : ∀ name ∈ [block, media, nestedTop], ∀ kind, Style.grammar.displayKind name = some kind →
      WellNamed kind := by decide
  rw [extra] at shown
  exact named r.name (by simpa using name) kind shown

/-- Giving up what is open at the end of a scan. -/
theorem yields_unwind (h : Holds e src start x) (quiet : x.suspension.interrupted = false)
    (ended : x.state.pos = src.size) {post : Unit → StyleScanner → Prop}
    (next : ∀ y, Leaves e src start y → x.state.pos ≤ y.state.pos → post () y) :
    Yields (liftM (Scan.unwind x.grammar) : StyleM Unit) x post fail := by
  have shown : Recorded.Shown x.grammar x.state.regions := by
    rw [h.grammar]
    exact shown_of_opened h.regions
  refine yields_state.mpr (h.recorded.unwind shown ?_)
  intro s recorded pos regions
  have clear := h.clear
  rw [ended, ← pos] at clear
  rw [← pos] at recorded
  refine next _ ⟨⟨h.grammar, h.embedding, h.serverTag, recorded, by simp [regions], clear, h.known⟩, ?_,
    fun _ => .inl pos⟩ (Nat.le_of_eq (ended.trans pos.symm))
  intro no
  rw [quiet] at no
  cases no

theorem Keeps.holds (h : Keeps e src start x.state.pos x) : Holds e src start x := by
  refine ⟨h.grammar, h.embedding, h.serverTag, h.recorded, h.regions, h.clear, ?_⟩
  rw [h.idle]
  intro k no
  cases no

/-- Steps lead to where the scan leaves; each moves on, so the steps that are allowed for are enough. -/
theorem yields_loop (tag : e.serverTag = "<?") {fuel : Nat} (h : Holds e src start x)
    (quiet : x.suspension.interrupted = false) (enough : src.size - x.state.pos < fuel)
    {post : Unit → StyleScanner → Prop}
    (next : ∀ y, Leaves e src start y → x.state.pos ≤ y.state.pos → post () y) :
    Yields (loop fuel) x post fail := by
  induction fuel generalizing x with
  | zero => omega
  | succ fuel ih =>
    simp only [loop]
    refine yields_bind.mpr (yields_state.mpr (yields_atEnd h.recorded.sound ?_))
    have le := h.recorded.sound.le_size
    by_cases ended : x.state.pos = src.size
    · simp only [ended, decide_true, if_true]
      refine yields_bind.mpr (yields_get.mpr ?_)
      exact yields_unwind h quiet ended next
    · simp only [ended, decide_false, Bool.false_eq_true, if_false]
      refine yields_bind.mpr ((yields_step tag h quiet).mono ?_ fun _ _ failed => failed)
      intro r y advanced
      cases advanced with
      | more keeps less =>
        have holds := keeps.holds
        have le' := holds.recorded.sound.le_size
        refine ih holds (by rw [keeps.idle]) ?_ ?_
        · have : y.state.pos ≤ src.size := le'
          have : x.state.pos ≤ src.size := le
          omega
        · intro z leaves' le''
          exact next z leaves' (by omega)
      | atEnd keeps le' ended' =>
        refine yields_bind.mpr (yields_get.mpr ?_)
        refine yields_unwind keeps.holds (by rw [keeps.idle]) ended' ?_
        intro z leaves le''
        exact next z leaves (by omega)
      | left leaves le' => exact next y leaves le'

/-- A scanner that is able to scan a source. -/
structure Able (e : Embedding) (src : Source) (x : StyleScanner) : Prop where
  grammar : x.grammar = Style.grammar
  embedding : x.embedding = e
  serverTag : x.serverTag = .literal "<?"
  sane : x.state.Sane src
  regions : ∀ r ∈ x.state.regions, Opened r
  known : ∀ k, x.suspension.cut = some k → (Style.grammar.recovery.get? k).isSome

theorem grammar_named : Style.grammar.Named := by
  have base := Grammar.named_withFilters "css"
    |>.showAs .tag (some Kind.keyword) (by decide)
    |>.showAs key (some Kind.type) (by decide)
    |>.showAs selector (some Kind.variable_) (by decide)
    |>.showAs attributeSelector (some Kind.operator) (by decide)
    |>.showAs roundSelector (some Kind.operator) (by decide)
    |>.showAs singleString (some Kind.string) (by decide)
    |>.showAs doubleString (some Kind.string) (by decide)
  exact ⟨base.words, base.ruleMap⟩

instance : LawfulScanner StyleScanner := ⟨fun _ _ => rfl, fun _ _ => rfl, fun _ _ => rfl⟩

/-- A new scanner is able to scan the source that it is given. -/
theorem waits_setSource (tag : e.serverTag = "<?") (src : Source) :
    Scanner.Waits (Able e src) (Scanner.setSource ({ embedding := e } : StyleScanner) src) := by
  refine ⟨⟨rfl, rfl, ?_, (ScanState.blank_setSource rfl src).toSane, ?_, ?_⟩, rfl⟩
  · simp only [Scanner.setSource, tag]
  · intro r no
    cases no
  · intro k no
    cases no

/-- From every offset on, the scanner covers a part of the source and never fails. -/
theorem covers (tag : e.serverTag = "<?") (src : Source) :
    Scanner.Covers src (Able e src) Token.IsRaw
      (fun x stop interrupted => Stops e src (Closes e src) x.state.pos stop interrupted) fun _ _ => False := by
  refine ⟨fun able => able.sane, ?_, ?_, ?_, ?_⟩
  · intro x able
    show x.grammar.Renders (x.grammar.context x.state)
    rw [able.grammar]
    exact Grammar.renders_of_filters (grammar_named.context able.sane.defs) "css" rfl rfl
  · intro x _ t raw escaped
    rw [raw] at escaped
    cases escaped
  · intro x s able sane regions
    refine ⟨able.grammar, able.embedding, able.serverTag, sane, ?_, able.known⟩
    show ∀ r ∈ s.regions, Opened r
    rw [regions]
    exact able.regions
  · intro x able
    show Yields Style.main x _ _
    simp only [Style.main]
    refine yields_bind.mpr (yields_modify.mpr (yields_bind.mpr (yields_get.mpr ?_)))
    have begun := able.sane.recorded Token.isRaw_raw
    have holds : Holds e src ⟨x.state.pos, x.state.tokens.latest⟩
        { x with suspension := { x.suspension with interrupted := false } } :=
      ⟨able.grammar, able.embedding, able.serverTag, begun, able.regions, fun _ => .self src _ _, able.known⟩
    refine yields_loop tag holds rfl ?_ ?_
    · have size : x.state.source.size = src.size := by rw [ScanState.source, begun.sound.source]
      simp only [Flat.budget, size]
      omega
    · intro y leaves _
      obtain ⟨⟨grammar, embedding, serverTag, recorded, regions, clear, known⟩, server, ended⟩ := leaves
      exact ⟨⟨grammar, embedding, serverTag, recorded.sane, regions, known⟩, recorded, server, ended, clear⟩

end Gloss.Language.Style

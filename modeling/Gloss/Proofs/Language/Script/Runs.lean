import Gloss.Language.Script
import Gloss.Proofs.Scan.Clear

/-!
A run of the scanner for scripts. Each step takes one token: one that was cut before and is taken up again, or
the nearest match of the table, where a slash may turn out to open a regular expression. The step records the
token to its end, or to a tag in it that ends the run. What a step can do is said once, and so is what a run can
do; the properties of runs follow from that.
-/
namespace Gloss.Language.Script

open Text (Spot Source)
open Markup (Shows WellNamed escapeChars)

/-- What a match turns out to be, apart from a place to stop at. -/
inductive Settles (src : Source) : Kind → Match → Kind → Match → Prop where
  | same {kind : Kind} {m : Match} (other : kind ≠ slash) : Settles src kind m kind m
  | operator {m : Match} : Settles src slash m .operator m
  | regex {m m' : Match} {a b : Spot} {marks : Regex.Marks} (occurs : regexLiteral.Occurs src m' a b marks)
      (here : a.pos = m.start) : Settles src slash m .regex m'

/-- The token that a step from an offset takes: one that was cut, or one at the nearest match of the table. -/
inductive Takes (g : Grammar) (src : Source) (pos : Nat) : Option Kind → Kind → Match → Prop where
  | resumed {kind : Kind} {p : Pattern} {m : Match} {a b : Spot} {marks : Regex.Marks}
      (known : g.recovery.get? kind = some p) (occurs : p.Occurs src m a b marks) (here : a.pos = pos) :
      Takes g src pos (some kind) kind m
  | found {next : NextMatch} {kind : Kind} {m : Match} (nearest : g.patterns.Nearest (fun _ => true) src pos next)
      (settles : Settles src next.kind next.data kind m) (goesOn : next.kind ≠ stopServer ∧ next.kind ≠ stopScript) :
      Takes g src pos none kind m

/-- What becomes of a token: it is recorded to its end, or up to a tag in it. The server's tag counts first. -/
inductive Ends (e : Embedding) (src : Source) (kind : Kind) (m : Match) : Bool → Nat → Suspension → Prop where
  | whole (server : e.server → Text.indexOf? e.serverTag (m.text src) = none)
      (script : e.html → scriptClose.find? (m.text src) = none) : Ends e src kind m true m.stop {}
  | server {a b : List Char} (on : e.server) (text : (m.text src).toList = a ++ e.serverTag.toList ++ b)
      (least : ∀ a' b', (m.text src).toList = a' ++ e.serverTag.toList ++ b' → Text.byteSize a ≤ Text.byteSize a') :
      Ends e src kind m false (m.start + Text.byteSize a) { interrupted := true, cut := some kind }
  | script {f : Match} {a b : List Char} (server : e.server → Text.indexOf? e.serverTag (m.text src) = none)
      (on : e.html) (found : scriptClose.find? (m.text src) = some f) (text : (m.text src).toList = a ++ b)
      (start : f.start = Text.byteSize a) : Ends e src kind m false (m.start + f.start) {}

/-- What a step does from an offset, with the kind of the token that was cut there: whether the run goes on,
and where the step ends. -/
inductive Stepped (g : Grammar) (e : Embedding) (src : Source) (pos : Nat) (cut : Option Kind) :
    Bool → Nat → Suspension → Prop where
  | rest (none_ : cut = none) (absent : ∀ x ∈ g.patterns.entries, x.pattern.findFrom? src pos = none) :
      Stepped g e src pos cut false src.size {}
  | stop {next : NextMatch} (none_ : cut = none) (nearest : g.patterns.Nearest (fun _ => true) src pos next)
      (kind : next.kind = stopServer ∨ next.kind = stopScript) :
      Stepped g e src pos cut false next.data.start { interrupted := decide (next.kind = stopServer) }
  | nothing {kind : Kind} {m : Match} (takes : Takes g src pos cut kind m) (empty : m.stop = pos)
      (some_ : cut = some kind) : Stepped g e src pos cut true pos {}
  | token {kind : Kind} {m : Match} {on : Bool} {stop : Nat} {x : Suspension} (takes : Takes g src pos cut kind m)
      (any : m.start < m.stop) (ends : Ends e src kind m on stop x) : Stepped g e src pos cut on stop x

/-- What steps from an offset on lead to. -/
inductive Runs (g : Grammar) (e : Embedding) (src : Source) : Nat → Option Kind → Nat → Suspension → Prop where
  | atEnd {cut : Option Kind} : Runs g e src src.size cut src.size { cut }
  | last {pos stop : Nat} {cut : Option Kind} {x : Suspension} (before : pos < src.size)
      (step : Stepped g e src pos cut false stop x) : Runs g e src pos cut stop x
  | more {pos mid stop : Nat} {cut : Option Kind} {x y : Suspension} (before : pos < src.size)
      (step : Stepped g e src pos cut true mid x) (runs : Runs g e src mid x.cut stop y) : Runs g e src pos cut stop y

/-- What a grammar for scripts has to have: every pattern of the table reads something, a token in which the
server's tag can stand can be taken up again, and the patterns that do so match everywhere. The places to stop at
are entries of their own, the server's tag the first of all, and no other token ends inside that tag. -/
structure Suits (g : Grammar) (e : Embedding) : Prop where
  tag : e.serverTag = "<?"
  consumes : ∀ x ∈ g.patterns.entries, x.pattern.parsed.regex.consumes
  kinds : ∀ x ∈ g.patterns.entries, WellNamed x.kind
  recovers : e.server → ∀ x ∈ g.patterns.entries, x.kind ≠ stopServer →
    (x.kind ≠ slash ∧ (g.recovery.get? x.kind).isSome) ∨ x.pattern.parsed.regex.separates '<' '?'
  regex : e.server → (g.recovery.get? .regex).isSome
  server : ∀ x ∈ g.patterns.entries, x.kind = stopServer → e.server ∧ x.pattern.parsed.regex = .text ['<', '?']
  first : e.server → ∃ x, g.patterns.entries[0]? = some x ∧ x.kind = stopServer
  script : ∀ x ∈ g.patterns.entries, x.kind = stopScript → e.html ∧ x.pattern = scriptClose
  apart : e.server → ∀ x ∈ g.patterns.entries,
    x.pattern.parsed.regex.guarded ∧ x.pattern.parsed.regex.apartOrLone '<' '?'
  resumes : ∀ kind p, g.recovery.get? kind = some p →
    (∀ s : Spot, p.Starts s) ∧ WellNamed kind ∧ kind ≠ slash ∧ kind ≠ stopServer ∧ kind ≠ stopScript
  resumesApart : ∀ kind p, g.recovery.get? kind = some p →
    p.parsed.regex.guarded ∧ p.parsed.regex.apart '<' '?'
  named : g.Named
  renders : ∀ ctx, ctx.Named → g.Renders ctx

variable {g : Grammar} {e : Embedding} {src : Source} {start : Origin} {s : ScanState} {x : Suspension}

/-- A slash is settled by what was recorded before it; the cursor is then behind the token, or in front of a
place to stop at. -/
theorem yields_settle (sound : s.cursor.Sound src) {kind : Kind} {m : Match} (spans : m.Spans src)
    (here : s.pos = m.stop)
    (latest : kind = slash ∨ kind = stopServer ∨ kind = stopScript → ∃ older, s.cursor.history = ⟨m.start, m⟩ :: older)
    {post : Finding → ScanState → Prop} {fail : ScanError → ScanState → Prop}
    (token : ∀ (kind' : Kind) (m' : Match) (c : Cursor), kind ≠ stopServer ∧ kind ≠ stopScript →
      Settles src kind m kind' m' → m'.Spans src → m'.start = m.start → c.Sound src → c.pos = m'.stop →
      post (.token kind' m') { s with cursor := c })
    (stop : ∀ c : Cursor, kind = stopServer ∨ kind = stopScript → c.Sound src → c.pos = m.start →
      post (.stop (decide (kind = stopServer))) { s with cursor := c }) :
    Yields (settle kind m) s post fail := by
  simp only [settle]
  split
  · next isSlash =>
    subst isSlash
    refine yields_bind.mpr (yields_get.mpr ?_)
    split
    · exact token _ m s.cursor (by decide) .operator spans rfl sound here
    · obtain ⟨older, history⟩ := latest (.inl rfl)
      refine yields_bind.mpr (yields_unscan sound history ?_)
      intro c soundC pos
      refine yields_bind.mpr (yields_scan soundC regexLiteral ?_ ?_)
      · intro d soundD posD _
        refine yields_bind.mpr (yields_accept soundD spans ?_)
        intro c' _ sound' pos' _
        exact token _ m c' (by decide) .operator spans rfl sound' pos'
      · intro m' d a b marks soundD posD occurs start
        have at_ : a.pos = m.start := start.trans pos
        exact token _ m' d (by decide) (.regex occurs at_) occurs.spans (occurs.start.trans at_) soundD posD
  · next notSlash =>
    split
    · next isStop =>
      obtain ⟨older, history⟩ := latest (.inr (.inl isStop))
      refine yields_bind.mpr (yields_unscan sound history ?_)
      intro c soundC pos
      have eq := stop c (.inl isStop) soundC pos
      simp only [isStop, decide_true] at eq
      exact eq
    · next notServer =>
      split
      · next isStop =>
        obtain ⟨older, history⟩ := latest (.inr (.inr isStop))
        refine yields_bind.mpr (yields_unscan sound history ?_)
        intro c soundC pos
        have eq := stop c (.inr isStop) soundC pos
        simp only [notServer, decide_false] at eq
        exact eq
      · next notScript =>
        exact token kind m s.cursor ⟨notServer, notScript⟩ (.same notSlash) spans rfl sound here

/-- What has to be known of a token so that it can be recorded and cut. -/
structure Fits (g : Grammar) (e : Embedding) (src : Source) (kind : Kind) (m : Match) : Prop where
  named : WellNamed kind
  any : m.start < m.stop
  recovers : e.server → Text.indexOf? e.serverTag (m.text src) ≠ none → (g.recovery.get? kind).isSome

/-- A match that was consumed is recorded as the token it settles to, or the run stops in front of it. -/
theorem yields_treat {from_ depth : Nat} {kind : Kind} {m : Match} (h : Recorded src Token.IsRaw start m.start s)
    (spans : m.Spans src) (here : s.pos = m.stop) (behind : from_ ≤ m.start)
    (latest : kind = slash ∨ kind = stopServer ∨ kind = stopScript → ∃ older, s.cursor.history = ⟨m.start, m⟩ :: older)
    (fits : ∀ kind' m', kind ≠ stopServer ∧ kind ≠ stopScript → Settles src kind m kind' m' →
      Fits g e src kind' m')
    {post : Bool → ScanState × Suspension → Prop} {fail : ScanError → ScanState × Suspension → Prop}
    (stop : ∀ s', kind = stopServer ∨ kind = stopScript → Recorded src Token.IsRaw start s'.pos s' →
      s'.pos = m.start → s'.regions = s.regions →
      post false (s', { interrupted := decide (kind = stopServer) }))
    (token : ∀ kind' m' on s' y, kind ≠ stopServer ∧ kind ≠ stopScript → Settles src kind m kind' m' →
      m'.start < m'.stop → Ends e src kind' m' on s'.pos y → Recorded src Token.IsRaw start s'.pos s' →
      s'.regions = s.regions → post on (s', y)) :
    Yields (treat g e from_ depth kind m) (s, {}) post fail := by
  simp only [treat]
  refine yields_bind.mpr (yields_lift.mpr (yields_settle h.sound spans here latest ?_ ?_))
  · intro kind' m' c goesOn settles spans' start' sound pos
    have ok := fits kind' m' goesOn settles
    have h' := h.withCursor sound
    rw [← start'] at h'
    refine yields_bind.mpr (Suspend.yields_serverBreak h' spans' ok.named ok.recovers ?_ ?_)
    · intro noServer
      simp only [Bool.false_eq_true, if_false]
      refine yields_bind.mpr (Suspend.yields_scriptBreak h' spans' ok.named ?_ ?_)
      · intro noScript
        have any := ok.any
        have notEmpty : m'.span.isEmpty = false := by
          show (m'.stop - m'.start == 0) = false
          rw [beq_eq_false_iff_ne]
          omega
        simp only [Bool.false_eq_true, if_false, notEmpty, Bool.not_false, if_true]
        have named : ∀ k, some kind' = some k → WellNamed k := by
          intro k eq
          cases eq
          exact ok.named
        refine yields_bind.mpr (yields_lift.mpr (h'.recordMatch spans' rfl named ?_))
        intro s' recorded cursor regions
        have at_ : s'.pos = m'.stop := by
          show s'.cursor.pos = m'.stop
          rw [cursor]
          exact pos
        refine yields_bind.mpr (yields_lift.mpr (yields_ensureProgress (.inl (by omega)) ?_))
        rw [← at_] at recorded
        refine token kind' m' true s' {} goesOn settles any ?_ recorded regions
        rw [at_]
        exact .whole noServer noScript
      · intro f a b s' html found text front recorded pos' regions
        simp only [if_true]
        rw [← pos'] at recorded
        refine token kind' m' false s' {} goesOn settles ok.any ?_ recorded regions
        rw [pos']
        exact .script noServer html found text front
    · intro a b s' server text least recorded pos' regions
      simp only [if_true]
      rw [← pos'] at recorded
      refine token kind' m' false s' _ goesOn settles ok.any ?_ recorded regions
      rw [pos']
      exact .server server text least
  · intro c isStop sound pos
    have h' := h.withCursor sound
    have at_ : ({ s with cursor := c } : ScanState).pos = m.start := pos
    rw [← at_] at h'
    have result := stop _ isStop h' at_ rfl
    by_cases server : kind = stopServer
    · simp only [server, decide_true, if_true] at result ⊢
      exact result
    · simp only [server, decide_false, Bool.false_eq_true, if_false] at result ⊢
      exact result

theorem regexLiteral_consumes : regexLiteral.parsed.regex.consumes := by decide +kernel

/-- What the table finds can be recorded and cut, whatever it settles to. -/
theorem Suits.fits_found (suits : Suits g e) {pos : Nat} {next : NextMatch}
    (nearest : g.patterns.Nearest (fun _ => true) src pos next) {kind : Kind} {m : Match}
    (goesOn : next.kind ≠ stopServer ∧ next.kind ≠ stopScript) (settles : Settles src next.kind next.data kind m) :
    Fits g e src kind m := by
  obtain ⟨x, at_, kindX, _, found⟩ := nearest.entry
  have member := List.mem_of_getElem? at_
  obtain ⟨a, b, marks, occurs, _, _⟩ := Pattern.findFrom?_some found
  have any := occurs.start_lt_stop (suits.consumes x member)
  have named := suits.kinds x member
  have recovers := fun on => suits.recovers on x member (by rw [kindX]; exact goesOn.1)
  rw [kindX] at named recovers
  have whole : x.pattern.parsed.regex.separates '<' '?' → ∀ r : Prop,
      Text.indexOf? e.serverTag (next.data.text src) ≠ none → r := by
    intro separates r tagged
    rw [suits.tag] at tagged
    exact absurd (occurs.no_tag separates) tagged
  generalize next.kind = nextKind, next.data = data at *
  cases settles with
  | same other =>
    refine ⟨named, any, ?_⟩
    intro on tagged
    rcases recovers on with ⟨_, known⟩ | separates
    · exact known
    · exact whole separates _ tagged
  | operator =>
    refine ⟨by decide, any, ?_⟩
    intro on tagged
    rcases recovers on with ⟨other, _⟩ | separates
    · exact absurd rfl other
    · exact whole separates _ tagged
  | regex occurs' here => exact ⟨by decide, occurs'.start_lt_stop regexLiteral_consumes, fun on _ => suits.regex on⟩

/-- What takes up a token again can be recorded and cut, unless it is empty. -/
theorem Suits.fits_resumed (suits : Suits g e) {kind kind' : Kind} {p : Pattern} {m m' : Match}
    (known : g.recovery.get? kind = some p) (any : m.start < m.stop) (settles : Settles src kind m kind' m') :
    Fits g e src kind' m' := by
  obtain ⟨_, named, notSlash, _, _⟩ := suits.resumes kind p known
  cases settles with
  | same => exact ⟨named, any, fun _ _ => by rw [known]; rfl⟩
  | operator => exact absurd rfl notSlash
  | regex => exact absurd rfl notSlash

/-- What a step does from a place before the end. -/
theorem yields_step (suits : Suits g e) (h : Recorded src Token.IsRaw start s.pos s) {cut : Option Kind}
    (known : ∀ k, cut = some k → (g.recovery.get? k).isSome)
    {post : Bool → ScanState × Suspension → Prop} {fail : ScanError → ScanState × Suspension → Prop}
    (next : ∀ on s' y, Stepped g e src s.pos cut on s'.pos y → Recorded src Token.IsRaw start s'.pos s' →
      s'.regions = s.regions → post on (s', y)) :
    Yields (step g e) (s, { cut }) post fail := by
  simp only [step]
  refine yields_bind.mpr (yields_lift.mpr (yields_ofCursor.mpr ?_))
  refine yields_bind.mpr (yields_lift.mpr ?_)
  show Yields _ (s, { cut }) post fail
  have total : ∀ k, cut = some k → ∃ p, g.recovery.get? k = some p ∧ ∀ u : Spot, p.Starts u := by
    intro k eq
    obtain ⟨p, some_⟩ := Option.isSome_iff_exists.mp (known k eq)
    exact ⟨p, some_, (suits.resumes k p some_).1⟩
  refine yields_bind.mpr (Suspend.yields_resume h.sound total ?_ ?_)
  · intro none_
    simp only at none_
    subst none_
    refine yields_bind.mpr (yields_lift.mpr (yields_nextMatch h.sound g ?_ ?_))
    · intro c sound pos absent
      have h' := h.withCursor sound
      rw [← pos] at h'
      refine yields_bind.mpr (yields_lift.mpr (h'.recordRest (by simp) ?_))
      intro s' recorded end_ regions
      rw [← end_] at recorded
      refine next false s' {} ?_ recorded regions
      rw [end_]
      exact .rest rfl absent
    · intro found c sound pos nearest
      obtain ⟨p, at_, kindP, _, search⟩ := nearest.entry
      obtain ⟨a, b, marks, occurs, above, _⟩ := Pattern.findFrom?_some search
      have spans := occurs.spans
      have le : s.pos ≤ found.data.start := by rw [occurs.start]; exact above
      refine yields_bind.mpr (yields_lift.mpr ((h.withCursor sound).recordRange spans.start le (by simp) ?_))
      intro s' recorded cursor regions
      refine yields_bind.mpr (yields_lift.mpr (yields_accept recorded.sound spans ?_))
      intro d older soundD posD history
      refine yields_treat (recorded.withCursor soundD) spans posD le (fun _ => ⟨older, history⟩) ?_ ?_ ?_
      · intro kind' m' goesOn settles
        exact suits.fits_found nearest goesOn settles
      · intro s'' isStop recorded' pos' regions'
        refine next false s'' _ ?_ recorded' (regions'.trans regions)
        rw [pos']
        exact .stop rfl nearest isStop
      · intro kind' m' on s'' y goesOn settles any ends recorded' regions'
        exact next on s'' y (.token (.found nearest settles goesOn) any ends) recorded' (regions'.trans regions)
  · intro kind p m c a b marks isCut some_ sound pos occurs here
    simp only at isCut
    subst isCut
    have start_ : m.start = s.pos := occurs.start.trans here
    by_cases empty : m.span.isEmpty
    · simp only [empty, if_true]
      have le := occurs.spans.le
      have stop : m.stop = s.pos := by
        have : m.stop - m.start = 0 := by simpa [Span.isEmpty, Span.size, Match.start, Match.stop] using empty
        omega
      have h' := h.withCursor sound
      have at_ : ({ s with cursor := c } : ScanState).pos = s.pos := pos.trans stop
      refine next true _ {} ?_ (by rw [at_]; exact h') rfl
      rw [at_]
      exact .nothing (.resumed some_ occurs here) stop rfl
    · have any : m.start < m.stop := by
        have : ¬ m.stop - m.start = 0 := by simpa [Span.isEmpty, Span.size, Match.start, Match.stop] using empty
        omega
      obtain ⟨_, _, notSlash, notServer, notScript⟩ := suits.resumes kind p some_
      simp only [empty, Bool.false_eq_true, if_false]
      have h' := h.withCursor sound
      rw [← start_] at h'
      refine yields_treat h' occurs.spans pos (Nat.le_of_eq start_.symm) ?_ ?_ ?_ ?_
      · rintro (eq | eq | eq)
        · exact absurd eq notSlash
        · exact absurd eq notServer
        · exact absurd eq notScript
      · intro kind' m' _ settles
        exact suits.fits_resumed some_ any settles
      · rintro s' (eq | eq)
        · exact absurd eq notServer
        · exact absurd eq notScript
      · intro kind' m' on s' y _ settles any' ends recorded regions
        cases settles with
        | same => exact next on s' y (.token (.resumed some_ occurs here) any' ends) recorded regions
        | operator => exact absurd rfl notSlash
        | regex => exact absurd rfl notSlash

section Positions

variable {pos stop : Nat} {cut : Option Kind} {on : Bool} {y : Suspension} {kind : Kind} {m : Match}

theorem Settles.start_eq {kind' : Kind} {m' : Match} (h : Settles src kind m kind' m') : m'.start = m.start := by
  cases h with
  | same => rfl
  | operator => rfl
  | regex occurs here => exact occurs.start.trans here

theorem Settles.spans {kind' : Kind} {m' : Match} (h : Settles src kind m kind' m') (spans : m.Spans src) :
    m'.Spans src := by
  cases h with
  | same => exact spans
  | operator => exact spans
  | regex occurs => exact occurs.spans

theorem Takes.spans (h : Takes g src pos cut kind m) : m.Spans src ∧ pos ≤ m.start := by
  cases h with
  | resumed _ occurs here => exact ⟨occurs.spans, Nat.le_of_eq (here.symm.trans occurs.start.symm)⟩
  | found nearest settles =>
    obtain ⟨p, _, _, _, search⟩ := nearest.entry
    obtain ⟨a, b, marks, occurs, above, _⟩ := Pattern.findFrom?_some search
    refine ⟨settles.spans occurs.spans, ?_⟩
    rw [settles.start_eq, occurs.start]
    exact above

/-- A token ends within its match; if the run goes on it is recorded as a whole. -/
theorem Ends.bounds (h : Ends e src kind m on stop y) (spans : m.Spans src) :
    m.start ≤ stop ∧ stop ≤ m.stop ∧ (on = true → stop = m.stop ∧ y = {}) := by
  cases h with
  | whole => exact ⟨spans.le, Nat.le_refl _, fun _ => ⟨rfl, rfl⟩⟩
  | server _ text =>
    rw [List.append_assoc] at text
    obtain ⟨_, _, total⟩ := spans.front text
    exact ⟨by omega, by omega, fun no => by cases no⟩
  | script _ _ _ text start =>
    obtain ⟨_, _, total⟩ := spans.front text
    exact ⟨by omega, by omega, fun no => by cases no⟩

/-- If the server interrupts a token, its tag stands where the token ends. -/
theorem Ends.at_tag (h : Ends e src kind m on stop y) (spans : m.Spans src) (interrupted : y.interrupted) :
    src.At e.serverTag stop := by
  cases h with
  | whole => cases interrupted
  | server _ text => exact spans.at_ text
  | script => cases interrupted

theorem Ends.server_of_interrupted (h : Ends e src kind m on stop y) (interrupted : y.interrupted) : e.server := by
  cases h with
  | whole => cases interrupted
  | server server => exact server
  | script => cases interrupted

/-- A step does not go back, and one after which the run goes on has read something or has done with a cut
token. -/
theorem Stepped.progress (h : Stepped g e src pos cut on stop y) (le : pos ≤ src.size) :
    pos ≤ stop ∧ (on = true → y = {} ∧ (pos < stop ∨ cut.isSome)) := by
  cases h with
  | rest => exact ⟨le, fun no => by cases no⟩
  | stop _ nearest =>
    obtain ⟨p, _, _, _, search⟩ := nearest.entry
    obtain ⟨a, b, marks, occurs, above, _⟩ := Pattern.findFrom?_some search
    exact ⟨by rw [occurs.start]; exact above, fun no => by cases no⟩
  | nothing _ _ some_ => exact ⟨Nat.le_refl _, fun _ => ⟨rfl, .inr (by rw [some_]; rfl)⟩⟩
  | token takes any ends =>
    obtain ⟨spans, above⟩ := takes.spans
    obtain ⟨low, _, goesOn⟩ := ends.bounds spans
    refine ⟨by omega, ?_⟩
    intro yes
    obtain ⟨whole, same⟩ := goesOn yes
    exact ⟨same, .inl (by omega)⟩

end Positions

/-- Steps lead to what a run leads to. Each step reads something or has done with a cut token, so the steps that
are allowed for are enough. -/
theorem yields_loop (suits : Suits g e) {fuel : Nat} (h : Recorded src Token.IsRaw start s.pos s) {cut : Option Kind}
    (known : ∀ k, cut = some k → (g.recovery.get? k).isSome)
    (enough : 2 * (src.size - s.pos) + (if cut.isSome then 1 else 0) < fuel)
    {post : Unit → ScanState × Suspension → Prop} {fail : ScanError → ScanState × Suspension → Prop}
    (next : ∀ s' y, Runs g e src s.pos cut s'.pos y → Recorded src Token.IsRaw start s'.pos s' →
      s'.regions = s.regions → post () (s', y)) :
    Yields (loop g e fuel) (s, { cut }) post fail := by
  induction fuel generalizing s cut with
  | zero => omega
  | succ fuel ih =>
    simp only [loop]
    refine yields_bind.mpr (yields_lift.mpr (yields_atEnd h.sound ?_))
    have le := h.sound.le_size
    by_cases ended : s.pos = src.size
    · simp only [ended, decide_true, Bool.not_true, Bool.false_eq_true, if_false]
      refine next s _ ?_ h rfl
      rw [ended]
      exact .atEnd
    · have before : s.pos < src.size := Nat.lt_of_le_of_ne le ended
      simp only [ended, decide_false, Bool.not_false, if_true]
      refine yields_bind.mpr (yields_step suits h known ?_)
      intro on s' y stepped recorded regions
      obtain ⟨_, progress⟩ := stepped.progress le
      cases on with
      | false => exact next s' y (.last before stepped) recorded regions
      | true =>
        obtain ⟨rfl, less⟩ := progress rfl
        have le' := recorded.sound.le_size
        simp only [if_true]
        refine ih recorded (by simp) ?_ ?_
        · rcases less with less | some_
          · have : s'.pos ≤ src.size := le'
            simp only [Option.isSome_none, Bool.false_eq_true, if_false]
            omega
          · simp only [some_, if_true] at enough
            simp only [Option.isSome_none, Bool.false_eq_true, if_false]
            omega
        · intro s'' z runs recorded' regions'
          exact next s'' z (.more before stepped runs) recorded' (regions'.trans regions)

theorem yields_run (suits : Suits g e) (h : Recorded src Token.IsRaw start s.pos s)
    (known : ∀ k, x.cut = some k → (g.recovery.get? k).isSome)
    {post : Unit → ScanState × Suspension → Prop} {fail : ScanError → ScanState × Suspension → Prop}
    (next : ∀ s' y, Runs g e src s.pos x.cut s'.pos y → Recorded src Token.IsRaw start s'.pos s' →
      s'.regions = s.regions → post () (s', y)) :
    Yields (run g e) (s, x) post fail := by
  simp only [run]
  refine yields_bind.mpr ?_
  show Yields _ (s, x) _ _
  refine yields_bind.mpr ?_
  show Yields _ (s, ({ cut := x.cut } : Suspension)) _ _
  refine yields_bind.mpr (yields_get.mpr ?_)
  refine yields_loop suits h known ?_ next
  have size : s.source.size = src.size := by rw [ScanState.source, h.sound.source]
  simp only [Flat.budget, size]
  split <;> omega

/-- Where a step ends, and how it leaves. -/
structure Left (g : Grammar) (e : Embedding) (src : Source) (pos stop : Nat) (y : Suspension) : Prop where
  le : pos ≤ stop
  server : y.interrupted → e.server ∧ src.At "<?" stop
  known : ∀ k, y.cut = some k → (g.recovery.get? k).isSome
  clear : e.server → src.Clear "<?" pos stop

theorem Takes.fits (suits : Suits g e) {pos : Nat} {cut : Option Kind} {kind : Kind} {m : Match}
    (h : Takes g src pos cut kind m) (any : m.start < m.stop) : Fits g e src kind m := by
  cases h with
  | resumed known =>
    obtain ⟨_, _, notSlash, _, _⟩ := suits.resumes _ _ known
    exact suits.fits_resumed known any (.same notSlash)
  | found nearest settles goesOn => exact suits.fits_found nearest goesOn settles

theorem regexLiteral_apart : regexLiteral.parsed.regex.guarded ∧ regexLiteral.parsed.regex.apart '<' '?' := by
  decide +kernel

/-- The server's tag has the first entry, so no tag comes before what else is found, and none where that starts. -/
theorem Suits.clear_found (suits : Suits g e) (on : e.server) {pos : Nat} {next : NextMatch}
    (nearest : g.patterns.Nearest (fun _ => true) src pos next) :
    src.Clear "<?" pos next.data.start ∧ (next.kind ≠ stopServer → ¬ src.At "<?" next.data.start) := by
  obtain ⟨x, at_, isStop⟩ := suits.first on
  have member := List.mem_of_getElem? at_
  have regex := (suits.server x member isStop).2
  refine ⟨nearest.clear regex member rfl rfl, fun other => ?_⟩
  obtain ⟨y, atY, kindY, _, search⟩ := nearest.entry
  obtain ⟨a, b, marks, occurs, above, _⟩ := Pattern.findFrom?_some search
  have later : 0 < next.entry := by
    rcases Nat.eq_zero_or_pos next.entry with zero | pos
    · rw [zero, at_] at atY
      cases atY
      exact absurd (kindY.symm.trans isStop) other
    · exact pos
  exact nearest.away regex at_ rfl rfl later (by rw [occurs.start]; exact above)

/-- The token that a step takes begins behind no tag, and does not end inside one. -/
theorem Takes.clear (suits : Suits g e) (on : e.server) {pos : Nat} {cut : Option Kind} {kind : Kind} {m : Match}
    (h : Takes g src pos cut kind m) : src.Clear "<?" pos m.start ∧ ¬ src.InTag m.stop := by
  cases h with
  | resumed known occurs here =>
    obtain ⟨guarded, apart⟩ := suits.resumesApart _ _ known
    rw [occurs.start, here]
    exact ⟨.self src _ pos, occurs.not_inTag guarded apart⟩
  | @found next _ _ nearest settles goesOn =>
    obtain ⟨clear, away⟩ := suits.clear_found on nearest
    obtain ⟨x, at_, _, _, search⟩ := nearest.entry
    obtain ⟨a, b, marks, occurs, _, _⟩ := Pattern.findFrom?_some search
    obtain ⟨guarded, apart⟩ := suits.apart on x (List.mem_of_getElem? at_)
    have whole : ¬ src.InTag next.data.stop := fun inTag =>
      away goesOn.1 (occurs.at_of_inTag guarded apart inTag)
    refine ⟨by rw [settles.start_eq]; exact clear, ?_⟩
    generalize next.kind = nextKind, next.data = data at *
    cases settles with
    | same => exact whole
    | operator => exact whole
    | regex occurs' here => exact occurs'.not_inTag regexLiteral_apart.1 regexLiteral_apart.2

/-- What is recorded of a token has no tag in it. -/
theorem Ends.clear (tag : e.serverTag = "<?") (on : e.server) {kind : Kind} {m : Match} {goesOn : Bool} {stop : Nat}
    {y : Suspension} (h : Ends e src kind m goesOn stop y) (spans : m.Spans src) (apart : ¬ src.InTag m.stop) :
    src.Clear "<?" m.start stop := by
  have bounds := h.bounds spans
  cases h with
  | whole server =>
    have untagged := server on
    rw [tag] at untagged
    exact spans.clear untagged apart
  | server _ text least =>
    rw [tag] at text least
    exact spans.clear_front text least
  | script server =>
    have untagged := server on
    rw [tag] at untagged
    exact (spans.clear untagged apart).front bounds.2.1

theorem Stepped.clear (suits : Suits g e) (on : e.server) {pos stop : Nat} {cut : Option Kind} {goesOn : Bool}
    {y : Suspension} (h : Stepped g e src pos cut goesOn stop y) : src.Clear "<?" pos stop := by
  cases h with
  | rest _ absent =>
    obtain ⟨x, at_, isStop⟩ := suits.first on
    have member := List.mem_of_getElem? at_
    exact Pattern.clear_of_none (suits.server x member isStop).2 (absent x member)
  | stop _ nearest => exact (suits.clear_found on nearest).1
  | nothing => exact .self src _ pos
  | token takes _ ends =>
    obtain ⟨clear, apart⟩ := takes.clear suits on
    exact clear.append (ends.clear suits.tag on takes.spans.1 apart)

theorem Stepped.left (suits : Suits g e) {pos stop : Nat} {cut : Option Kind} {on : Bool} {y : Suspension}
    (h : Stepped g e src pos cut on stop y) (le : pos ≤ src.size) : Left g e src pos stop y := by
  refine ⟨(h.progress le).1, ?_, ?_, fun on => h.clear suits on⟩
  · intro interrupted
    cases h with
    | rest => cases interrupted
    | nothing => cases interrupted
    | stop _ nearest kind =>
      simp only [decide_eq_true_eq] at interrupted
      obtain ⟨p, at_, kindP, _, search⟩ := nearest.entry
      obtain ⟨a, b, marks, occurs, _, _⟩ := Pattern.findFrom?_some search
      obtain ⟨on, regex⟩ := suits.server p (List.mem_of_getElem? at_) (kindP.trans interrupted)
      exact ⟨on, occurs.at_start regex⟩
    | token takes any ends =>
      have tag := ends.at_tag takes.spans.1 interrupted
      rw [suits.tag] at tag
      exact ⟨ends.server_of_interrupted interrupted, tag⟩
  · intro k eq
    cases h with
    | rest => cases eq
    | nothing => cases eq
    | stop => cases eq
    | token takes any ends =>
      have fits := takes.fits suits any
      cases ends with
      | whole => cases eq
      | script => cases eq
      | server on text =>
        cases eq
        refine fits.recovers on ?_
        intro missed
        exact Text.indexOf?_none missed _ _ text

theorem Runs.left (suits : Suits g e) {pos stop : Nat} {cut : Option Kind} {y : Suspension}
    (known : ∀ k, cut = some k → (g.recovery.get? k).isSome) (h : Runs g e src pos cut stop y) :
    Left g e src pos stop y := by
  induction h with
  | atEnd => exact ⟨Nat.le_refl _, (fun no => by cases no), known, fun _ => .self src _ _⟩
  | last before step => exact step.left suits (Nat.le_of_lt before)
  | more before step runs ih =>
    have first := step.left suits (Nat.le_of_lt before)
    have second := ih first.known
    exact ⟨Nat.le_trans first.le second.le, second.server, second.known,
      fun on => (first.clear on).append (second.clear on)⟩

/-- Where the markup around a script goes on. -/
def Closes (e : Embedding) (src : Source) (pos : Nat) : Prop := e.html ∧ scriptClose.StartsAt src pos

theorem scriptClose_placeless : scriptClose.parsed.regex.placeless := by decide +kernel

/-- A step behind which the run does not go on ends at the end of the source or at the closing tag, unless the
server interrupts it. -/
theorem Stepped.ended (suits : Suits g e) {pos stop : Nat} {cut : Option Kind} {y : Suspension}
    (h : Stepped g e src pos cut false stop y) (quiet : y.interrupted = false) :
    stop = src.size ∨ Closes e src stop := by
  cases h with
  | rest => exact .inl rfl
  | stop _ nearest kind =>
    simp only [decide_eq_false_iff_not] at quiet
    obtain ⟨p, at_, kindP, _, search⟩ := nearest.entry
    obtain ⟨a, b, marks, occurs, _, _⟩ := Pattern.findFrom?_some search
    obtain ⟨on, same⟩ := suits.script p (List.mem_of_getElem? at_) (kindP.trans (kind.resolve_left quiet))
    rw [same] at occurs
    exact .inr ⟨on, a, occurs.inside, occurs.start.symm, occurs.starts⟩
  | token takes any ends =>
    cases ends with
    | server => cases quiet
    | script _ on found => exact .inr ⟨on, takes.spans.1.startsAt_of_find scriptClose_placeless found⟩

theorem Runs.ended (suits : Suits g e) {pos stop : Nat} {cut : Option Kind} {y : Suspension}
    (h : Runs g e src pos cut stop y) (quiet : y.interrupted = false) : stop = src.size ∨ Closes e src stop := by
  induction h with
  | atEnd => exact .inl rfl
  | last _ step => exact step.ended suits quiet
  | more _ _ _ ih => exact ih quiet

/-- A scanner that is able to scan a source: it has its grammar, and a token that was cut can be taken up again. -/
structure Able (g : Grammar) (e : Embedding) (src : Source) (x : ScriptScanner) : Prop where
  grammar : x.grammar = g
  embedding : x.embedding = e
  sane : x.state.Sane src
  known : ∀ k, x.suspension.cut = some k → (g.recovery.get? k).isSome

instance : LawfulScanner ScriptScanner := ⟨fun _ _ => rfl, fun _ _ => rfl, fun _ _ => rfl⟩

/-- A new scanner is able to scan the source that it is given. -/
theorem waits_setSource (g : Grammar) (e : Embedding) (src : Source) :
    Scanner.Waits (Able g e src) (Scanner.setSource ({ grammar := g, embedding := e } : ScriptScanner) src) := by
  refine ⟨⟨rfl, rfl, (ScanState.blank_setSource rfl src).toSane, ?_⟩, rfl⟩
  intro k no
  cases no

/-- From every offset on, the scanner covers what a run covers, and never fails. -/
theorem covers (suits : Suits g e) (src : Source) :
    Scanner.Covers src (Able g e src) Token.IsRaw
      (fun x stop interrupted => Stops e src (Closes e src) x.state.pos stop interrupted) fun _ _ => False := by
  refine ⟨fun able => able.sane, ?_, ?_, ?_, ?_⟩
  · rintro x ⟨rfl, _, sane, _⟩
    exact suits.renders _ (suits.named.context sane.defs)
  · intro x _ t raw escaped
    rw [raw] at escaped
    cases escaped
  · intro x s able sane _
    exact ⟨able.grammar, able.embedding, sane, able.known⟩
  · intro x able
    obtain ⟨rfl, rfl, sane, known⟩ := able
    show Yields ScriptScanner.main x _ _
    refine yields_zoom.mpr (yields_run suits (sane.recorded Token.isRaw_raw) known ?_)
    intro s' y runs recorded regions
    have left := runs.left suits known
    exact ⟨⟨rfl, rfl, recorded.sane, left.known⟩, recorded, left.server, runs.ended suits, left.clear⟩

end Gloss.Language.Script

import Gloss.Language.Html
import Gloss.Proofs.Language.Script.Table
import Gloss.Proofs.Language.Style.Runs

/-!
A run of the scanner for HTML. It stops at the end of the source or, within the pages of a server language, at the
first tag of the server. What is left in the middle there, a token or a child, is taken up again by the next run.
-/
namespace Gloss.Language.Html

open Text (Spot Source)
open Markup (Shows WellNamed escapeChars)

/-- How the scanner embeds its children. -/
def within (e : Embedding) : Embedding := { html := true, server := e.server, serverTag := e.serverTag }

section Lifts

variable {α : Type} {x : HtmlScanner} {post : α → HtmlScanner → Prop} {fail : ScanError → HtmlScanner → Prop}

/-- An operation on the state of the scan. -/
theorem yields_state {m : ScanM α} :
    Yields (liftM m : HtmlM α) x post fail ↔
      Yields m x.state (fun a s => post a { x with state := s }) (fun e s => fail e { x with state := s }) := by
  show Yields (zoom _ _ (Suspend.lift m)) x post fail ↔ _
  simp only [Yields, zoom, Suspend.lift]
  cases m x.state <;> rfl

/-- An operation that may suspend the scan. -/
theorem yields_suspended {m : SuspendM α} :
    Yields (liftM m : HtmlM α) x post fail ↔
      Yields m (x.state, x.suspension) (fun a y => post a { x with state := y.1, suspension := y.2 })
        (fun e y => fail e { x with state := y.1, suspension := y.2 }) :=
  yields_zoom

end Lifts

/-- The patterns by which tokens of HTML are taken up again. -/
def recoveries : Keyed Kind Pattern := [
  (.htmlTag, .ofText "\\S*"),
  (.value, .ofText "\\S*"),
  (.type, .ofText "\\S*"),
  (.escape, .ofText "[^;]*;?"),
  (cdata, .ofText "(?s).*?(?:\\]\\]>|\\z)"),
  (declaration, .ofText "[^>]*>?"),
  (comment, .ofText "(?s).*?(?:-->|\\z)"),
  (singleString, .ofText "[^'>]*'?"),
  (doubleString, .ofText "[^\">]*\"?")]

theorem recovery_eq (e : Embedding) : (Html.grammar e).recovery = recoveries := by
  obtain ⟨html, server, tag⟩ := e
  cases server <;> rfl

/-- Characters of a set, and the closing character behind them if it is there. -/
def upToRegex (ranges : List (Nat × Nat)) (close : Char) : Regex :=
  .seq (.times 0 none true (.set ⟨ranges⟩)) (.times 0 (some 1) true (.text [close]))

/-- What the patterns parse to by which tokens are taken up again, but for words. -/
theorem recoveries_parse :
    (Pattern.ofText "(?s).*?(?:-->|\\z)").parsed.regex =
      .seq (.times 0 none false (.set .any)) (.alt (.text ['-', '-', '>']) (.look .textEnd)) ∧
    (Pattern.ofText "[^>]*>?").parsed.regex = upToRegex [(0, 61), (63, 1114111)] '>' ∧
    (Pattern.ofText "(?s).*?(?:\\]\\]>|\\z)").parsed.regex =
      .seq (.times 0 none false (.set .any)) (.alt (.text [']', ']', '>']) (.look .textEnd)) ∧
    (Pattern.ofText "[^;]*;?").parsed.regex = upToRegex [(0, 58), (60, 1114111)] ';' ∧
    (Pattern.ofText "[^\">]*\"?").parsed.regex = upToRegex [(0, 33), (35, 61), (63, 1114111)] '"' ∧
    (Pattern.ofText "[^'>]*'?").parsed.regex = upToRegex [(0, 38), (40, 61), (63, 1114111)] '\'' := by
  decide +kernel

/-- The kind can stand in a tag, and a token of it can be taken up again. -/
def Usable (kind : Kind) : Prop := WellNamed kind ∧ (recoveries.get? kind).isSome

instance (kind : Kind) : Decidable (Usable kind) := inferInstanceAs (Decidable (_ ∧ _))

theorem usable_kinds : ∀ kind ∈ [doubleString, singleString, comment, declaration, cdata, .escape, .htmlTag, .value,
    .type], Usable kind := by decide

/-- The source is recorded up to an offset, without a server's tag in it, and both children wait. -/
structure Keeps (e : Embedding) (src : Source) (start : Origin) (upTo : Nat) (x : HtmlScanner) : Prop where
  tag : e.serverTag = "<?"
  grammar : x.grammar = Html.grammar e
  embedding : x.embedding = e
  serverTag : x.serverTag = .literal "<?"
  recorded : Recorded src (Html.grammar e).Allowed start upTo x.state
  clear : e.server → src.Clear "<?" start.pos upTo
  script : Scanner.Waits (Script.Able (Script.grammar (within e)) (within e) src) x.script.scanner
  style : Scanner.Waits (Style.Able (within e) src) x.style.scanner

/-- The scanner stands before the end of the source and not at a server's tag, at the offset up to which it has
recorded. -/
structure Stands (e : Embedding) (src : Source) (start : Origin) (pos : Nat) (x : HtmlScanner) : Prop where
  keeps : Keeps e src start pos x
  here : x.state.pos = pos
  before : pos < src.size
  away : e.server → ¬ src.At "<?" pos
  idle : x.suspension = {}

/-- A match at an offset that can be recorded as a token and cut at the server's tag. -/
structure Fits (e : Embedding) (src : Source) (pos : Nat) (kind : Option Kind) (m : Match) : Prop where
  start : m.start = pos
  any : m.start < m.stop
  spans : m.Spans src
  usable : ∀ k, kind = some k → Usable k
  untagged : kind = none → Text.indexOf? "<?" (m.text src) = none
  apart : e.server → ¬ src.InTag m.stop

/-- The next token was consumed, or it is all done. -/
inductive Took (e : Embedding) (src : Source) (start : Origin) (pos : Nat) : Finding → HtmlScanner → Prop where
  | token {kind : Option Kind} {m : Match} {x : HtmlScanner} (keeps : Keeps e src start pos x)
      (behind : x.state.pos = m.stop) (idle : x.suspension = {}) (fits : Fits e src pos kind m) :
      Took e src start pos (.token kind m) x
  | done {x : HtmlScanner} (keeps : Keeps e src start x.state.pos x) (less : pos < x.state.pos)
      (idle : x.suspension = {}) : Took e src start pos .done x

/-- The scan has left. If it was interrupted it is at the server's tag, and else at the end; a token that was cut
can be taken up again. -/
structure Leaves (e : Embedding) (src : Source) (start : Origin) (x : HtmlScanner) : Prop where
  keeps : Keeps e src start x.state.pos x
  server : x.suspension.interrupted → e.server ∧ src.At "<?" x.state.pos
  ended : x.suspension.interrupted = false → x.state.pos = src.size
  known : ∀ k, x.suspension.cut = some k → (recoveries.get? k).isSome

variable {e : Embedding} {src : Source} {start : Origin} {pos : Nat} {x : HtmlScanner}
  {fail : ScanError → HtmlScanner → Prop}

theorem Keeps.withState {upTo : Nat} (h : Keeps e src start pos x) {s : ScanState}
    (recorded : Recorded src (Html.grammar e).Allowed start upTo s) (clear : e.server → src.Clear "<?" pos upTo) :
    Keeps e src start upTo { x with state := s } :=
  ⟨h.tag, h.grammar, h.embedding, h.serverTag, recorded, fun on => (h.clear on).append (clear on), h.script, h.style⟩

theorem Keeps.sameState (h : Keeps e src start pos x) {s : ScanState}
    (recorded : Recorded src (Html.grammar e).Allowed start pos s) : Keeps e src start pos { x with state := s } :=
  h.withState recorded fun _ => .self src _ pos

/-- What is left in the middle makes no difference. -/
theorem Keeps.suspend (h : Keeps e src start pos x) (y : Suspension) : Keeps e src start pos { x with suspension := y } :=
  ⟨h.tag, h.grammar, h.embedding, h.serverTag, h.recorded, h.clear, h.script, h.style⟩

/-- The same with another cursor. -/
theorem Stands.withCursor (h : Stands e src start pos x) {c : Cursor} (sound : c.Sound src) (here : c.pos = x.state.pos) :
    Stands e src start pos { x with state := { x.state with cursor := c } } :=
  ⟨h.keeps.sameState (h.keeps.recorded.withCursor sound), here.trans h.here, h.before, h.away, h.idle⟩

theorem Stands.took (h : Stands e src start pos x) {c : Cursor} (sound : c.Sound src) {kind : Option Kind} {m : Match}
    (behind : c.pos = m.stop) (fits : Fits e src pos kind m) :
    Took e src start pos (.token kind m) { x with state := { x.state with cursor := c } } :=
  .token (h.keeps.sameState (h.keeps.recorded.withCursor sound)) behind h.idle fits

/-- Every match of the pattern reads something and does not end inside the server's tag. -/
def Fine (p : Pattern) : Prop :=
  p.parsed.regex.consumes ∧ p.parsed.regex.guarded ∧ p.parsed.regex.apart '<' '?'

instance (p : Pattern) : Decidable (Fine p) := inferInstanceAs (Decidable (_ ∧ _ ∧ _))

theorem fine_patterns : ∀ p ∈ [entity, cdataPattern, commentPattern, declarationPattern, selfClose, singleQuoted,
    doubleQuoted, name], Fine p := by decide +kernel

theorem selfClose_separates : selfClose.parsed.regex.separates '<' '?' := by decide +kernel

section Tokens

variable {s : ScanState} {fail : ScanError → ScanState → Prop}

/-- A single character. -/
theorem yields_single (sound : s.cursor.Sound src) (before : s.pos < src.size) (away : e.server → ¬ src.At "<?" s.pos)
    {post : Match → ScanState → Prop}
    (next : ∀ (m : Match) (c : Cursor), c.Sound src → c.pos = m.stop → Fits e src s.pos none m →
      post m { s with cursor := c }) :
    Yields single s post fail := by
  obtain ⟨ch, rest, eq, spans⟩ := sound.head before
  simp only [single]
  refine yields_bind.mpr (yields_ofCursor.mpr ?_)
  refine yields_bind.mpr (yields_ofCursor.mpr ?_)
  have size : (s.cursor.peek?.map Char.utf8Size).getD 1 = ch.utf8Size := by simp [Cursor.peek?, eq]
  rw [size]
  refine yields_bind.mpr (yields_accept sound spans ?_)
  intro c _ sound' behind _
  have lone := sound.lone eq spans
  refine next _ c sound' behind ⟨rfl, ?_, spans, ?_, fun _ => lone.1, fun on inTag => away on (lone.2 inTag)⟩
  · show s.cursor.pos < s.cursor.pos + ch.utf8Size
    have := Char.utf8Size_pos ch
    omega
  · intro k no
    cases no

theorem fits_occurs {p : Pattern} (fine : Fine p) {m : Match} {a b : Spot} {marks : Regex.Marks}
    (occurs : p.Occurs src m a b marks) (here : a.pos = pos) {kind : Kind} (usable : Usable kind) :
    Fits e src pos (some kind) m := by
  obtain ⟨consumes, guarded, apart⟩ := fine
  refine ⟨occurs.start.trans here, occurs.start_lt_stop consumes, occurs.spans, ?_, (fun no => by cases no),
    fun _ => occurs.not_inTag guarded apart⟩
  intro k eq
  cases eq
  exact usable

/-- A match of a pattern under a kind, or a single character. -/
theorem yields_tokenOr (sound : s.cursor.Sound src) (before : s.pos < src.size)
    (away : e.server → ¬ src.At "<?" s.pos) {kind : Kind} {p : Pattern} (usable : Usable kind) (fine : Fine p)
    {post : Finding → ScanState → Prop}
    (next : ∀ (kind : Option Kind) (m : Match) (c : Cursor), c.Sound src → c.pos = m.stop →
      Fits e src s.pos kind m → post (.token kind m) { s with cursor := c }) :
    Yields (tokenOr kind p) s post fail := by
  simp only [tokenOr]
  refine yields_bind.mpr (yields_scan sound p ?_ ?_)
  · intro c soundC posC _
    have at_ : ({ s with cursor := c } : ScanState).pos = s.pos := posC
    refine yields_bind.mpr (yields_single soundC (by rw [at_]; exact before) (by rw [at_]; exact away) ?_)
    intro m d soundD behind fits
    rw [at_] at fits
    exact next none m d soundD behind fits
  · intro m c a b marks soundC behind occurs here
    exact next (some kind) m c soundC behind (fits_occurs fine occurs here usable)

/-- A declaration of any kind. -/
theorem yields_bang (sound : s.cursor.Sound src) (before : s.pos < src.size) (away : e.server → ¬ src.At "<?" s.pos)
    {post : Finding → ScanState → Prop}
    (next : ∀ (kind : Option Kind) (m : Match) (c : Cursor), c.Sound src → c.pos = m.stop →
      Fits e src s.pos kind m → post (.token kind m) { s with cursor := c }) :
    Yields bang s post fail := by
  simp only [bang]
  refine yields_bind.mpr (yields_scan sound cdataPattern ?_ ?_)
  · intro c soundC posC _
    refine yields_bind.mpr (yields_scan soundC commentPattern ?_ ?_)
    · intro d soundD posD _
      have at_ : ({ s with cursor := d } : ScanState).pos = s.pos := posD.trans posC
      refine yields_tokenOr soundD (by rw [at_]; exact before) (by rw [at_]; exact away) (usable_kinds _ (by simp))
        (fine_patterns _ (by simp)) ?_
      intro kind m c' sound' behind fits
      rw [at_] at fits
      exact next kind m c' sound' behind fits
    · intro m d a b marks soundD behind occurs here
      exact next (some comment) m d soundD behind
        (fits_occurs (fine_patterns _ (by simp)) occurs (here.trans posC) (usable_kinds _ (by simp)))
  · intro m c a b marks soundC behind occurs here
    exact next (some cdata) m c soundC behind
      (fits_occurs (fine_patterns _ (by simp)) occurs here (usable_kinds _ (by simp)))

end Tokens

theorem Stands.before_here (h : Stands e src start pos x) :
    x.state.pos < src.size ∧ (e.server → ¬ src.At "<?" x.state.pos) := by
  rw [h.here]
  exact ⟨h.before, h.away⟩

/-- A single character is a token without a kind. -/
theorem Stands.single (h : Stands e src start pos x) :
    Yields (do return .token none (← (single : ScanM _)) : HtmlM Finding) x (Took e src start pos) fail := by
  obtain ⟨before, away⟩ := h.before_here
  refine yields_bind.mpr (yields_state.mpr (yields_single h.keeps.recorded.sound before away ?_))
  intro m c sound behind fits
  rw [h.here] at fits
  exact h.took sound behind fits

theorem Stands.tokenOr (h : Stands e src start pos x) {kind : Kind} {p : Pattern} (usable : Usable kind)
    (fine : Fine p) :
    Yields (liftM (tokenOr kind p) : HtmlM Finding) x (Took e src start pos) fail := by
  obtain ⟨before, away⟩ := h.before_here
  refine yields_state.mpr (yields_tokenOr h.keeps.recorded.sound before away usable fine ?_)
  intro kind m c sound behind fits
  rw [h.here] at fits
  exact h.took sound behind fits

theorem Stands.bang (h : Stands e src start pos x) :
    Yields (liftM bang : HtmlM Finding) x (Took e src start pos) fail := by
  obtain ⟨before, away⟩ := h.before_here
  refine yields_state.mpr (yields_bang h.keeps.recorded.sound before away ?_)
  intro kind m c sound behind fits
  rw [h.here] at fits
  exact h.took sound behind fits

theorem Keeps.withFlags (h : Keeps e src start pos x) (inTag : Bool) (expected : Expected) (tagName : String) :
    Keeps e src start pos { x with inTag, expected, tagName } :=
  ⟨h.tag, h.grammar, h.embedding, h.serverTag, h.recorded, h.clear, h.script, h.style⟩

/-- The scanner with other flags stands where it stood. -/
theorem Stands.withFlags (h : Stands e src start pos x) (inTag : Bool) (expected : Expected) (tagName : String) :
    Stands e src start pos { x with inTag, expected, tagName } :=
  ⟨h.keeps.withFlags inTag expected tagName, h.here, h.before, h.away, h.idle⟩

theorem Took.withFlags {kind : Option Kind} {m : Match} (h : Took e src start pos (.token kind m) x) (inTag : Bool)
    (expected : Expected) (tagName : String) :
    Took e src start pos (.token kind m) { x with inTag, expected, tagName } := by
  cases h with
  | token keeps behind idle fits => exact .token (keeps.withFlags inTag expected tagName) behind idle fits

/-- If a child is left to go on, it was interrupted here, at the server's tag. -/
def HaltsAt (e : Embedding) (src : Source) (pos : Nat) (resumeAt : Option Nat) : Prop :=
  ∀ at_, resumeAt = some at_ → at_ = pos ∧ e.server ∧ src.At "<?" pos

/-- A child that was handed to halts where its host now stands. -/
theorem haltsAt_of_ends {stop : Nat} {interrupted : Bool} (server : interrupted → e.server ∧ src.At "<?" stop) :
    HaltsAt e src stop (if interrupted then some stop else none) := by
  intro at_ left
  split at left
  · next stopped => exact ⟨(Option.some.inj left).symm, server stopped⟩
  · cases left

/-- Which of the children a scanner may have handed to on its way; the other one is as it was. -/
inductive Handed (e : Embedding) (src : Source) (x y : HtmlScanner) : Prop where
  | neither (script : y.script.resumeAt = x.script.resumeAt) (style : y.style.resumeAt = x.style.resumeAt)
  | script (halts : HaltsAt e src y.state.pos y.script.resumeAt) (style : y.style.resumeAt = x.style.resumeAt)
  | style (script : y.script.resumeAt = x.script.resumeAt) (halts : HaltsAt e src y.state.pos y.style.resumeAt)

/-- Handing over to the child for scripts: the scan goes on where the child stopped. -/
theorem Keeps.toScript (h : Keeps e src start x.state.pos x) {post : Unit → HtmlScanner → Prop}
    (next : ∀ y, Keeps e src start y.state.pos y → x.state.pos ≤ y.state.pos → y.suspension = x.suspension →
      y.style.resumeAt = x.style.resumeAt → HaltsAt e src y.state.pos y.script.resumeAt → post () y) :
    Yields toScript x post fail := by
  simp only [Html.toScript]
  refine yields_bind.mpr (yields_zoom.mpr ?_)
  refine yields_delegate (Script.covers (Script.suits (within e) h.tag) src) h.recorded h.script
    (fun _ _ => .inl rfl) (by simp) ?_ ?_
  · intro host z recorded le _ waits here ends
    have clear := ends.clear
    have begun : (Scanner.setPos x.script.scanner x.state.pos).state.pos = x.state.pos := here
    rw [begun] at clear
    refine next _ ⟨h.tag, h.grammar, h.embedding, h.serverTag, recorded, fun on => (h.clear on).append (clear on), waits,
      h.style⟩ le rfl rfl (haltsAt_of_ends ends.server)
  · intro e s no
    cases no

/-- Handing over to the child for styles. -/
theorem Keeps.toStyle (h : Keeps e src start x.state.pos x) {post : Unit → HtmlScanner → Prop}
    (next : ∀ y, Keeps e src start y.state.pos y → x.state.pos ≤ y.state.pos → y.suspension = x.suspension →
      y.script.resumeAt = x.script.resumeAt → HaltsAt e src y.state.pos y.style.resumeAt → post () y) :
    Yields toStyle x post fail := by
  simp only [Html.toStyle]
  refine yields_bind.mpr (yields_zoom.mpr ?_)
  refine yields_delegate (Style.covers (e := within e) h.tag src) h.recorded h.style (fun _ _ => .inl rfl)
    (by simp) ?_ ?_
  · intro host z recorded le _ waits here ends
    have clear := ends.clear
    have begun : (Scanner.setPos x.style.scanner x.state.pos).state.pos = x.state.pos := here
    rw [begun] at clear
    refine next _ ⟨h.tag, h.grammar, h.embedding, h.serverTag, recorded, fun on => (h.clear on).append (clear on),
      h.script, waits⟩ le rfl rfl (haltsAt_of_ends ends.server)
  · intro e s no
    cases no

theorem doctype_pair : doctype.parsed.regex.twoGroups?.isSome := by decide +kernel

theorem doctype_fine : Fine doctype ∧ doctype.parsed.regex.separates '<' '?' := by decide +kernel

/-- What an opening angle bracket outside of tags opens. -/
theorem Stands.opening (h : Stands e src start pos x) : Yields opening x (Took e src start pos) fail := by
  have sound := h.keeps.recorded.sound
  simp only [Html.opening]
  refine yields_bind.mpr (yields_get.mpr ?_)
  split
  · refine yields_bind.mpr (yields_state.mpr (yields_scan sound doctype ?_ ?_))
    · intro c soundC posC _
      exact (h.withCursor soundC posC).bang
    · intro m c a b marks soundC behind occurs here
      obtain ⟨mid, halves⟩ := occurs.halves doctype_pair
      have start_ : m.start = pos := (occurs.start.trans here).trans h.here
      have recorded := h.keeps.recorded.withCursor soundC
      rw [← start_] at recorded
      refine yields_bind.mpr (yields_state.mpr (yields_ofCursor.mpr ?_))
      refine yields_bind.mpr (yields_state.mpr (yields_modify.mpr ?_))
      refine yields_bind.mpr (yields_state.mpr (yields_ofCursor.mpr ?_))
      refine yields_bind.mpr (yields_state.mpr (yields_modify.mpr ?_))
      refine yields_bind.mpr (yields_modify.mpr (yields_pure.mpr ?_))
      have none_ : ∀ k : Kind, none = some k → WellNamed k := by simp
      have keyword : ∀ k, some Kind.keyword = some k → WellNamed k := by decide
      have both := recorded.pushHalves occurs.spans halves none_ keyword
      obtain ⟨⟨consumes, guarded, apart⟩, separates⟩ := doctype_fine
      have any := occurs.start_lt_stop consumes
      have clear := occurs.spans.clear (occurs.no_tag separates) (occurs.not_inTag guarded apart)
      rw [start_] at clear
      simp only [ScanState.record_cursor, soundC.source]
      refine .done ?_ ?_ h.idle
      · refine (h.withFlags true x.expected x.tagName).keeps.withState ?_ fun _ => ?_
        · simp only [ScanState.pos, ScanState.record_cursor, behind]
          exact both
        · simp only [ScanState.pos, ScanState.record_cursor, behind]
          exact clear
      · simp only [ScanState.pos, ScanState.record_cursor, behind]
        omega
  · refine yields_bind.mpr (yields_modify.mpr ?_)
    exact (h.withFlags true .tagName x.tagName).single

/-- The end of a tag; the body of a script or a style goes to its child. -/
theorem Stands.closing (h : Stands e src start pos x) {post : Unit → HtmlScanner → Prop}
    (next : ∀ y, Took e src start pos .done y → Handed e src x y → post () y) : Yields closing x post fail := by
  have here := h.here
  obtain ⟨before, away⟩ := h.before_here
  simp only [Html.closing]
  refine yields_bind.mpr (yields_get.mpr ?_)
  refine yields_bind.mpr (yields_modify.mpr ?_)
  refine yields_bind.mpr (yields_state.mpr (yields_single h.keeps.recorded.sound before away ?_))
  intro m c sound behind fits
  have stands := h.withFlags false x.expected ""
  have recorded := stands.keeps.recorded.withCursor sound
  have start_ := fits.start
  have any := fits.any
  rw [← here, ← start_] at recorded
  refine yields_bind.mpr (yields_state.mpr (recorded.recordMatch fits.spans rfl (by simp) ?_))
  intro s recorded' cursor _
  have at_ : s.pos = m.stop := by
    show s.cursor.pos = m.stop
    rw [cursor]
    exact behind
  have clear : e.server → src.Clear "<?" pos s.pos := by
    intro on
    have clear := fits.spans.clear (fits.untagged rfl) (fits.apart on)
    rwa [start_, here, ← at_] at clear
  rw [← at_] at recorded'
  have keeps := stands.keeps.withState recorded' clear
  split
  · refine keeps.toScript ?_
    intro y keepsY le idle others halts
    refine next y (.done keepsY ?_ (idle.trans h.idle)) (.script halts others)
    have : s.pos ≤ y.state.pos := le
    omega
  · split
    · refine keeps.toStyle ?_
      intro y keepsY le idle others halts
      refine next y (.done keepsY ?_ (idle.trans h.idle)) (.style others halts)
      have : s.pos ≤ y.state.pos := le
      omega
    · refine next _ (.done keeps ?_ h.idle) (.neither rfl rfl)
      show pos < s.pos
      omega

/-- A name in a tag, or a single character. -/
theorem Stands.nameToken (h : Stands e src start pos x) : Yields nameToken x (Took e src start pos) fail := by
  simp only [Html.nameToken]
  refine yields_bind.mpr (yields_state.mpr (yields_scan h.keeps.recorded.sound name ?_ ?_))
  · intro c sound posC _
    exact (h.withCursor sound posC).single
  · intro m c a b marks sound behind occurs at_
    have took : ∀ kind, Usable kind →
        Took e src start pos (.token (some kind) m) { x with state := { x.state with cursor := c } } := fun kind usable =>
      h.took sound behind (fits_occurs (fine_patterns _ (by simp)) occurs (at_.trans h.here) usable)
    refine yields_bind.mpr (yields_get.mpr ?_)
    split
    · refine yields_bind.mpr (yields_state.mpr (yields_ofCursor.mpr ?_))
      refine yields_bind.mpr (yields_modify.mpr (yields_pure.mpr ?_))
      exact (took _ (usable_kinds _ (by simp))).withFlags _ _ _
    · refine yields_bind.mpr (yields_modify.mpr (yields_pure.mpr ?_))
      exact (took _ (usable_kinds _ (by simp))).withFlags _ _ _
    · exact took _ (usable_kinds _ (by simp))

/-- What stands in a tag. -/
theorem Stands.inside (h : Stands e src start pos x) (c : Char) :
    Yields (inside c) x (Took e src start pos) fail := by
  simp only [Html.inside]
  split
  · refine yields_bind.mpr (h.closing ?_)
    exact fun y took _ => took
  · refine yields_bind.mpr (yields_state.mpr (yields_scan h.keeps.recorded.sound selfClose ?_ ?_))
    · intro d sound posD _
      have stands := h.withCursor sound posD
      simp only
      split
      · refine yields_bind.mpr (yields_modify.mpr ?_)
        exact (stands.withFlags _ .attribute _).tokenOr (usable_kinds _ (by simp)) (fine_patterns _ (by simp))
      · refine yields_bind.mpr (yields_modify.mpr ?_)
        exact (stands.withFlags _ .attribute _).tokenOr (usable_kinds _ (by simp)) (fine_patterns _ (by simp))
      · refine yields_bind.mpr (yields_modify.mpr ?_)
        exact (stands.withFlags _ .value _).single
      · split
        · exact stands.nameToken
        · refine yields_bind.mpr (yields_state.mpr (yields_ofCursor.mpr ?_))
          split
          · exact stands.nameToken
          · exact stands.single
    · intro m d a b marks sound behind occurs at_
      obtain ⟨consumes, guarded, apart⟩ := fine_patterns selfClose (by simp)
      refine yields_bind.mpr (yields_modify.mpr (yields_pure.mpr ?_))
      refine (h.took sound behind ⟨(occurs.start.trans at_).trans h.here, occurs.start_lt_stop consumes, occurs.spans,
        ?_, fun _ => occurs.no_tag selfClose_separates, fun _ => occurs.not_inTag guarded apart⟩).withFlags _ _ _
      intro k no
      cases no

/-- The token at the cursor. -/
theorem Stands.next (h : Stands e src start pos x) : Yields next x (Took e src start pos) fail := by
  simp only [Html.next]
  refine yields_bind.mpr (yields_state.mpr (yields_ofCursor.mpr ?_))
  refine yields_bind.mpr (yields_get.mpr ?_)
  split
  · exact h.inside _
  · split
    · exact h.tokenOr (usable_kinds _ (by simp)) (fine_patterns _ (by simp))
    · split
      · exact h.opening
      · exact h.inside _

/-- Whether the server's tag stands at the cursor. -/
theorem Keeps.atServer (h : Keeps e src start pos x) {post : Bool → HtmlScanner → Prop}
    (yes : ∀ c : Cursor, c.Sound src → c.pos = x.state.pos → e.server → src.At "<?" x.state.pos →
      post true { x with state := { x.state with cursor := c } })
    (no : ∀ c : Cursor, c.Sound src → c.pos = x.state.pos → (e.server → ¬ src.At "<?" x.state.pos) →
      post false { x with state := { x.state with cursor := c } }) :
    Yields atServer x post fail := by
  simp only [Html.atServer]
  refine yields_bind.mpr (yields_get.mpr ?_)
  rw [h.embedding]
  split
  · next on =>
    rw [h.serverTag]
    refine yields_bind.mpr (yields_state.mpr (yields_check h.recorded.sound _ ?_ ?_))
    · intro c sound posC absent
      refine no c sound posC fun _ at_ => ?_
      obtain ⟨u, inside, here, starts⟩ := (Pattern.startsAt_tag Pattern.tag_regex).mpr at_
      exact absent u inside here starts
    · intro m c a b marks sound posC occurs here
      have tag := occurs.at_start Pattern.tag_regex
      rw [occurs.start, here] at tag
      exact yes c sound posC on tag
  · next off => exact no x.state.cursor h.recorded.sound rfl fun on => absurd on off

/-- What the table of HTML finds: characters that open something, and the server's tag before the bracket. -/
theorem entries_eq (e : Embedding) : (Html.grammar e).patterns.entries =
    ⟨ampersand, .ofText "&", none⟩ :: (if e.server then [⟨term, .literal e.serverTag, none⟩] else []) ++
      [⟨lessThan, .ofText "<", none⟩] := by
  obtain ⟨html, server, tag⟩ := e
  cases server <;> rfl

theorem openers_regex : (Pattern.ofText "&").parsed.regex = .text ['&'] ∧
    (Pattern.ofText "<").parsed.regex = .text ['<'] := by decide +kernel

/-- What is found next reads something. No tag comes before it, and if it is no tag, none where it starts. -/
theorem Keeps.found (h : Keeps e src start pos x) {at_ : Nat} {next : NextMatch}
    (nearest : (Html.grammar e).patterns.Nearest (fun _ => true) src at_ next) :
    at_ ≤ next.data.start ∧ next.data.Spans src ∧ next.data.start < src.size ∧
      (e.server → src.Clear "<?" at_ next.data.start) ∧
      (next.kind = term → e.server ∧ src.At "<?" next.data.start) ∧
      (next.kind ≠ term → e.server → ¬ src.At "<?" next.data.start) := by
  obtain ⟨entry, found, kind, _, search⟩ := nearest.entry
  obtain ⟨a, b, marks, occurs, above, _⟩ := Pattern.findFrom?_some search
  have spans := occurs.spans
  have le : at_ ≤ next.data.start := by
    rw [occurs.start]
    exact above
  have differ : ampersand ≠ term ∧ lessThan ≠ term := by decide
  have bound := Source.isBoundary_le spans.stop
  have entries := entries_eq e
  rw [h.tag] at entries
  have member := List.mem_of_getElem? found
  by_cases on : e.server
  · rw [if_pos on] at entries
    have tagEntry : (Html.grammar e).patterns.entries[1]? = some ⟨term, .literal "<?", none⟩ := by
      rw [entries]
      rfl
    have clear := nearest.clear Pattern.tag_regex (List.mem_of_getElem? tagEntry) rfl rfl
    rw [entries] at member found
    simp only [List.cons_append, List.nil_append, List.mem_cons, List.not_mem_nil, or_false] at member
    rcases member with rfl | rfl | rfl
    · have any := occurs.start_lt_stop (by rw [openers_regex.1]; rfl)
      refine ⟨le, spans, by omega, fun _ => clear, fun no => absurd (kind.trans no) differ.1, fun _ _ tag => ?_⟩
      -- Another character stands there.
      obtain ⟨u, inside, here, back, rest⟩ := tag
      obtain rfl := inside.eq_of_pos occurs.inside (here.trans occurs.start)
      have covers := occurs.covers
      rw [Pattern.Covers, openers_regex.1] at covers
      have other := covers.1.rest
      rw [rest] at other
      cases other
    · have any := occurs.start_lt_stop (by rw [Pattern.tag_regex]; rfl)
      exact ⟨le, spans, by omega, fun _ => clear, fun _ => ⟨on, occurs.at_start Pattern.tag_regex⟩,
        fun no => absurd kind.symm no⟩
    · have any := occurs.start_lt_stop (by rw [openers_regex.2]; rfl)
      refine ⟨le, spans, by omega, fun _ => clear, fun no => absurd (kind.trans no) differ.2, fun _ _ => ?_⟩
      refine nearest.away Pattern.tag_regex tagEntry rfl rfl ?_ le
      generalize next.entry = i at found
      rcases i with _ | _ | i
      · exact absurd (congrArg (·.kind) (Option.some.inj found)) (by decide)
      · exact absurd (congrArg (·.kind) (Option.some.inj found)) (by decide)
      · omega
  · rw [if_neg on] at entries
    rw [entries] at member
    simp only [List.cons_append, List.nil_append, List.mem_cons, List.not_mem_nil, or_false] at member
    rcases member with rfl | rfl
    · have any := occurs.start_lt_stop (by rw [openers_regex.1]; rfl)
      exact ⟨le, spans, by omega, fun server => absurd server on, fun no => absurd (kind.trans no) differ.1,
        fun _ server => absurd server on⟩
    · have any := occurs.start_lt_stop (by rw [openers_regex.2]; rfl)
      exact ⟨le, spans, by omega, fun server => absurd server on, fun no => absurd (kind.trans no) differ.2,
        fun _ server => absurd server on⟩

/-- If nothing is found, there is no tag up to the end. -/
theorem Keeps.found_none (h : Keeps e src start pos x) {at_ : Nat}
    (none_ : ∀ entry ∈ (Html.grammar e).patterns.entries, entry.pattern.findFrom? src at_ = none) (on : e.server) :
    src.Clear "<?" at_ src.size := by
  refine Pattern.clear_of_none Pattern.tag_regex (none_ ⟨term, .literal "<?", none⟩ ?_)
  rw [entries_eq, h.tag, if_pos on]
  simp

theorem Leaves.of_interrupted (keeps : Keeps e src start x.state.pos x) (on : e.server)
    (at_ : src.At "<?" x.state.pos) {y : Suspension} (known : ∀ k, y.cut = some k → (recoveries.get? k).isSome) :
    Leaves e src start { x with suspension := { y with interrupted := true } } :=
  ⟨keeps.suspend _, fun _ => ⟨on, at_⟩, (fun no => by cases no), known⟩

theorem Leaves.of_ended (keeps : Keeps e src start x.state.pos x) (ended : x.state.pos = src.size)
    (quiet : x.suspension.interrupted = false)
    (known : ∀ k, x.suspension.cut = some k → (recoveries.get? k).isSome) : Leaves e src start x := by
  refine ⟨keeps, ?_, fun _ => ended, known⟩
  intro no
  rw [quiet] at no
  cases no

/-- Going to the next token: the scanner stands there, or has left. -/
theorem yields_approach (keeps : Keeps e src start x.state.pos x) (idle : x.suspension = {})
    {post : Bool → HtmlScanner → Prop}
    (there : ∀ y, Stands e src start y.state.pos y → x.state.pos ≤ y.state.pos → post true y)
    (left : ∀ y, Leaves e src start y → x.state.pos ≤ y.state.pos →
      (y.suspension.interrupted = false → y.suspension.cut = none) → post false y) :
    Yields approach x post fail := by
  have uncut : ∀ k, x.suspension.cut = some k → (recoveries.get? k).isSome := by
    intro k no
    rw [idle] at no
    cases no
  have quiet : x.suspension.interrupted = false := by rw [idle]
  have whole : x.suspension.interrupted = false → x.suspension.cut = none := fun _ => by rw [idle]
  simp only [approach]
  refine yields_bind.mpr (yields_get.mpr ?_)
  split
  · refine yields_bind.mpr (yields_state.mpr (keeps.recorded.skipBlank ?_))
    intro s recorded le _ blank
    have keepsS : Keeps e src start s.pos { x with state := s } := keeps.withState recorded fun _ =>
      Source.clear_of_avoids keeps.recorded.last recorded.last fun member => absurd (blank _ member) (by decide)
    refine yields_bind.mpr (yields_state.mpr (yields_atEnd recorded.sound ?_))
    by_cases ended : s.pos = src.size
    · simp only [ended, decide_true, if_true]
      exact left _ (.of_ended keepsS ended quiet uncut) le whole
    · simp only [ended, decide_false, Bool.false_eq_true, if_false]
      have moved : ∀ c : Cursor, c.Sound src → c.pos = s.pos →
          Keeps e src start ({ s with cursor := c } : ScanState).pos { x with state := { s with cursor := c } } := by
        intro c sound posC
        have here : ({ s with cursor := c } : ScanState).pos = s.pos := posC
        rw [here]
        exact keepsS.sameState (recorded.withCursor sound)
      refine yields_bind.mpr (keepsS.atServer ?_ ?_)
      · intro c sound posC on at_
        have here : ({ s with cursor := c } : ScanState).pos = s.pos := posC
        refine yields_bind.mpr (yields_modify.mpr (yields_pure.mpr ?_))
        refine left _ (.of_interrupted (moved c sound posC) on ?_ uncut) (by rw [here]; exact le) fun no => by cases no
        rw [here]
        exact at_
      · intro c sound posC away
        have here : ({ s with cursor := c } : ScanState).pos = s.pos := posC
        refine there _ ⟨moved c sound posC, rfl, ?_, by rw [here]; exact away, idle⟩ (by rw [here]; exact le)
        rw [here]
        exact Nat.lt_of_le_of_ne recorded.sound.le_size ended
  · refine yields_bind.mpr (yields_state.mpr (yields_ofCursor.mpr ?_))
    refine yields_bind.mpr (yields_get.mpr ?_)
    refine yields_bind.mpr (yields_state.mpr (yields_nextMatch keeps.recorded.sound _ ?_ ?_))
    · intro c sound posC absent
      have here : ({ x.state with cursor := c } : ScanState).pos = x.state.pos := posC
      have moved := keeps.recorded.withCursor sound
      rw [← here] at moved
      rw [keeps.grammar] at absent
      refine yields_bind.mpr (yields_state.mpr (moved.recordRest (by simp) ?_))
      intro s recorded ended _
      have clear := keeps.found_none absent
      rw [← ended] at recorded clear
      refine left _ (.of_ended (keeps.withState recorded clear) ended quiet uncut) ?_ whole
      show x.state.pos ≤ s.pos
      rw [ended]
      exact keeps.recorded.sound.le_size
    · intro found c sound posC nearest
      rw [keeps.grammar] at nearest
      obtain ⟨le, spans, before, clear, atTag, away⟩ := keeps.found nearest
      refine yields_bind.mpr (yields_state.mpr ?_)
      refine (keeps.recorded.withCursor sound).recordRange spans.start le (by simp) ?_
      intro s recorded _ _
      refine yields_bind.mpr (yields_state.mpr (yields_setPos recorded.sound spans.start ?_))
      intro d soundD posD
      have here : ({ s with cursor := d } : ScanState).pos = found.data.start := posD
      have moved := recorded.withCursor soundD
      rw [← here] at moved clear atTag away before
      have keepsD : Keeps e src start ({ s with cursor := d } : ScanState).pos
          { x with state := { s with cursor := d } } := keeps.withState moved clear
      split
      · next server =>
        obtain ⟨on, at_⟩ := atTag server
        refine yields_bind.mpr (yields_modify.mpr (yields_pure.mpr ?_))
        exact left _ (.of_interrupted keepsD on at_ uncut) (by rw [here]; exact le) (fun no => by cases no)
      · next other => exact there _ ⟨keepsD, rfl, before, away other, idle⟩ (by rw [here]; exact le)

/-- What is still to be done: the source that is not read, a token that was cut and children that were
interrupted. -/
def unread (src : Source) (x : HtmlScanner) : Nat :=
  4 * (src.size - x.state.pos) + x.suspension.cut.isSome.toNat + x.script.resumeAt.isSome.toNat +
    x.style.resumeAt.isSome.toNat

theorem unread_lt {y : HtmlScanner} (less : x.state.pos < y.state.pos) (le : y.state.pos ≤ src.size)
    (idle : y.suspension = {}) : unread src y < unread src x := by
  have script := Bool.toNat_le y.script.resumeAt.isSome
  have style := Bool.toNat_le y.style.resumeAt.isSome
  simp only [unread, idle, Option.isSome_none, Bool.toNat_false]
  omega

/-- How a step ends: the scan goes on and has less to do, or it has left; a token is cut only if it was interrupted. -/
inductive Advanced (e : Embedding) (src : Source) (start : Origin) (x : HtmlScanner) : Bool → HtmlScanner → Prop where
  | more {y : HtmlScanner} (keeps : Keeps e src start y.state.pos y) (idle : y.suspension = {})
      (le : x.state.pos ≤ y.state.pos) (less : unread src y < unread src x) : Advanced e src start x true y
  | left {y : HtmlScanner} (leaves : Leaves e src start y) (le : x.state.pos ≤ y.state.pos)
      (whole : y.suspension.interrupted = false → y.suspension.cut = none) : Advanced e src start x false y

/-- A token that is cut is recorded up to the tag, and left to be taken up again. -/
theorem Keeps.cut {m : Match} {s : ScanState} {kind : Kind} (h : Keeps e src start m.start x) (on : e.server)
    (spans : m.Spans src) {a b : List Char} (text : (m.text src).toList = a ++ e.serverTag.toList ++ b)
    (least : ∀ a' b', (m.text src).toList = a' ++ e.serverTag.toList ++ b' → Text.byteSize a ≤ Text.byteSize a')
    (recorded : Recorded src (Html.grammar e).Allowed start (m.start + Text.byteSize a) s)
    (here : s.pos = m.start + Text.byteSize a) (usable : Usable kind) :
    Leaves e src start { x with state := s, suspension := { interrupted := true, cut := some kind } } := by
  rw [h.tag] at text least
  have tagAt := spans.at_ text
  have clear := spans.clear_front text least
  rw [← here] at recorded tagAt clear
  refine ⟨(h.withState recorded fun _ => clear).suspend _, fun _ => ⟨on, tagAt⟩, (fun no => by cases no), ?_⟩
  intro k eq
  cases eq
  exact usable.2

theorem Usable.recovers {kind : Kind} (h : Usable kind) (e : Embedding) :
    ((Html.grammar e).recovery.get? kind).isSome := by
  rw [recovery_eq]
  exact h.2

/-- A match that was consumed is recorded, up to the server's tag if that is in it. -/
theorem yields_treat {kind : Option Kind} {m : Match} {from_ depth : Nat} {language : String}
    {x₀ : HtmlScanner} (keeps : Keeps e src start m.start x) (behind : x.state.pos = m.stop) (idle : x.suspension = {})
    (fits : Fits e src m.start kind m) (low : from_ ≤ m.start) (above : x₀.state.pos ≤ m.start) :
    Yields (do
      if let some kind := kind then
        if ← Suspend.serverBreak x.grammar x.embedding kind m then return false
      Scan.recordMatch kind m
      Scan.ensureProgress language from_ depth
      return true : HtmlM Bool) x (Advanced e src start x₀) fail := by
  have any := fits.any
  have named : ∀ k, kind = some k → WellNamed k := fun k eq => (fits.usable k eq).1
  have record : (e.server → Text.indexOf? "<?" (m.text src) = none) → Yields (do
      Scan.recordMatch kind m
      Scan.ensureProgress language from_ depth
      return true : HtmlM Bool) x (Advanced e src start x₀) fail := by
    intro untagged
    refine yields_bind.mpr (yields_state.mpr (keeps.recorded.recordMatch fits.spans rfl named ?_))
    intro s recorded cursor _
    have here : s.pos = m.stop := by
      show s.cursor.pos = m.stop
      rw [cursor]
      exact behind
    refine yields_bind.mpr (yields_state.mpr (yields_ensureProgress (.inl ?_) ?_))
    · show from_ < s.pos
      omega
    have clear : e.server → src.Clear "<?" m.start m.stop := fun on => fits.spans.clear (untagged on) (fits.apart on)
    rw [← here] at recorded clear
    have further : x₀.state.pos < s.pos := by omega
    exact .more (keeps.withState recorded clear) idle (Nat.le_of_lt further)
      (unread_lt further recorded.sound.le_size idle)
  cases kind with
  | none => exact record fun _ => fits.untagged rfl
  | some kind =>
    simp only
    refine yields_bind.mpr (yields_suspended.mpr (Suspend.yields_serverBreak keeps.recorded fits.spans
      (named kind rfl) ?_ ?_ ?_))
    · intro _ _
      rw [keeps.grammar]
      exact (fits.usable kind rfl).recovers e
    · intro untagged
      refine record fun on => ?_
      rw [← keeps.tag, ← keeps.embedding]
      exact untagged (by rw [keeps.embedding]; exact on)
    · intro a b s on text least recorded pos' _
      rw [keeps.embedding] at on text least
      simp only [if_true]
      refine .left (keeps.cut on fits.spans text least recorded pos' (fits.usable kind rfl)) ?_ (fun no => by cases no)
      show x₀.state.pos ≤ s.pos
      omega

theorem yields_stepToken (keeps : Keeps e src start x.state.pos x) (idle : x.suspension = {}) :
    Yields stepToken x (Advanced e src start x) fail := by
  simp only [stepToken]
  refine yields_bind.mpr (yields_approach keeps idle ?_ ?_)
  · intro y stands le
    simp only [Bool.not_true, Bool.false_eq_true, if_false]
    refine yields_bind.mpr (yields_state.mpr (yields_ofCursor.mpr ?_))
    refine yields_bind.mpr (yields_state.mpr (yields_bind.mpr (yields_get.mpr (yields_pure.mpr ?_))))
    refine yields_bind.mpr (stands.next.mono ?_ fun _ _ failed => failed)
    intro f z took
    cases took with
    | done keepsZ less idleZ =>
      exact .more keepsZ idleZ (by omega) (unread_lt (by omega) keepsZ.recorded.sound.le_size idleZ)
    | token keepsZ behind idleZ fits =>
      refine yields_bind.mpr (yields_get.mpr ?_)
      have start_ := fits.start
      rw [← start_] at keepsZ fits
      refine yields_treat keepsZ behind idleZ fits (Nat.le_of_eq ?_) ?_
      · exact start_.symm
      · omega
  · intro y leaves le whole
    simp only [Bool.not_false, if_true]
    exact .left leaves le whole

/-- Every token that was cut can be taken up, wherever the scan goes on. -/
theorem recoveries_start : ∀ x ∈ recoveries, ∀ s : Spot, x.2.Starts s := by
  have skip : ∀ {p : Pattern}, p.parsed.regex.skippable → ∀ s : Spot, p.Starts s := by
    intro p skippable s
    obtain ⟨marks, matched⟩ := Regex.matches_of_skippable skippable s []
    exact ⟨s, marks, matched⟩
  have through : ∀ {p : Pattern} (close : List Char), p.parsed.regex =
      .seq (.times 0 none false (.set .any)) (.alt (.text close) (.look .textEnd)) → ∀ s : Spot, p.Starts s := by
    intro p close regex s
    simp only [Pattern.Starts, Pattern.Covers, regex]
    exact Regex.anythingUntil_starts (by decide)
  have word : (Pattern.ofText "\\S*").parsed.regex.skippable := by decide +kernel
  have upTo : ∀ {p : Pattern} {ranges : List (Nat × Nat)} {close : Char}, p.parsed.regex = upToRegex ranges close →
      ∀ s : Spot, p.Starts s := by
    intro p ranges close regex
    refine skip ?_
    rw [regex]
    rfl
  intro x member
  obtain ⟨comment_, declaration_, cdata_, entity_, double, single⟩ := recoveries_parse
  simp only [recoveries, List.mem_cons, List.not_mem_nil, or_false] at member
  rcases member with rfl | rfl | rfl | rfl | rfl | rfl | rfl | rfl | rfl
  · exact skip word
  · exact skip word
  · exact skip word
  · exact upTo entity_
  · exact through [']', ']', '>'] cdata_
  · exact upTo declaration_
  · exact through ['-', '-', '>'] comment_
  · exact upTo single
  · exact upTo double

/-- What the patterns that take a token up again are checked for. -/
theorem recoveries_fine : ∀ x ∈ recoveries, WellNamed x.1 ∧ x.2.parsed.regex.guarded ∧
    x.2.parsed.regex.apart '<' '?' := by decide +kernel

/-- A token that was cut is taken up: it is recorded, up to the server's tag if that is in it. -/
theorem yields_takeUp {kind : Kind} {p : Pattern} {m : Match} {c : Cursor} {a b : Spot} {marks : Regex.Marks}
    (keeps : Keeps e src start x.state.pos x) (cut : x.suspension.cut = some kind)
    (known : recoveries.get? kind = some p) (sound : c.Sound src) (behind : c.pos = m.stop)
    (occurs : p.Occurs src m a b marks) (here : a.pos = x.state.pos) :
    Yields (do
      if ← Suspend.serverBreak x.grammar x.embedding kind m then return false
      if !m.span.isEmpty then Scan.recordMatch (some kind) m
      return true : HtmlM Bool) { x with state := { x.state with cursor := c }, suspension := {} }
      (Advanced e src start x) fail := by
  obtain ⟨named, guarded, apart⟩ := recoveries_fine _ (Keyed.mem_of_get? known)
  have usable : Usable kind := ⟨named, by rw [known]; rfl⟩
  have spans := occurs.spans
  have start_ : m.start = x.state.pos := occurs.start.trans here
  have le := spans.le
  have recorded := keeps.recorded.withCursor sound
  have keeps' : Keeps e src start m.start { x with state := { x.state with cursor := c }, suspension := {} } := by
    rw [start_]
    exact (keeps.sameState recorded).suspend _
  rw [← start_] at recorded
  -- One thing less is left in the middle, also if nothing is read.
  have fewer : ∀ s : ScanState, s.pos = m.stop →
      unread src { x with state := s, suspension := {} } < unread src x := by
    intro s at_
    simp only [unread, cut, Option.isSome_none, Option.isSome_some, Bool.toNat_false, Bool.toNat_true]
    omega
  refine yields_bind.mpr (yields_suspended.mpr (Suspend.yields_serverBreak recorded spans usable.1 ?_ ?_ ?_))
  · intro _ _
    rw [keeps.grammar]
    exact usable.recovers e
  · intro untagged
    simp only [Bool.false_eq_true, if_false]
    by_cases empty : m.span.isEmpty
    · simp only [empty, Bool.not_true, Bool.false_eq_true, if_false]
      have stop : m.stop = m.start := by
        have : m.stop - m.start = 0 := by simpa [Span.isEmpty, Span.size, Match.start, Match.stop] using empty
        omega
      have at_ : ({ x.state with cursor := c } : ScanState).pos = m.stop := behind
      rw [← stop, ← at_] at keeps'
      refine .more keeps' rfl ?_ (fewer _ at_)
      show x.state.pos ≤ ({ x.state with cursor := c } : ScanState).pos
      omega
    · simp only [empty, Bool.not_false, if_true]
      have named : ∀ k, some kind = some k → WellNamed k := by
        intro k eq
        cases eq
        exact usable.1
      refine yields_bind.mpr (yields_state.mpr (recorded.recordMatch spans rfl named ?_))
      intro s recorded' cursor _
      have at_ : s.pos = m.stop := by
        show s.cursor.pos = m.stop
        rw [cursor]
        exact behind
      have clear : e.server → src.Clear "<?" m.start m.stop := by
        intro on
        refine spans.clear ?_ (occurs.not_inTag guarded apart)
        rw [← keeps.tag, ← keeps.embedding]
        exact untagged (by rw [keeps.embedding]; exact on)
      rw [← at_] at recorded' clear
      refine .more (keeps'.withState recorded' clear) rfl ?_ (fewer s at_)
      show x.state.pos ≤ s.pos
      omega
  · intro a b s on text least recorded' pos' _
    rw [keeps.embedding] at on text least
    simp only [if_true]
    refine .left (keeps'.cut on spans text least recorded' pos' usable) ?_ (fun no => by cases no)
    show x.state.pos ≤ s.pos
    omega

/-- A child that is due has been interrupted before; away from the server's tag it is done when it stays there. -/
theorem waits_of_due {σ : Type} {child child' : Child σ} {pos : Nat} (due : child.isDue pos)
    (away : e.server → ¬ src.At "<?" pos) (halts : HaltsAt e src pos child'.resumeAt) :
    child.resumeAt.isSome = true ∧ child'.resumeAt.isSome = false := by
  constructor
  · simp only [Child.isDue, Option.any_eq_true] at due
    obtain ⟨n, eq, _⟩ := due
    rw [eq]
    rfl
  · cases eq : child'.resumeAt with
    | some at_ =>
      obtain ⟨_, on, tag⟩ := halts at_ eq
      exact absurd tag (away on)
    | none => rfl

/-- A child that is due reads on, or there is one child less that waits. -/
theorem unread_of_script {y : HtmlScanner} (due : x.script.isDue x.state.pos)
    (away : e.server → ¬ src.At "<?" x.state.pos) (idle : y.suspension = {}) (le : x.state.pos ≤ y.state.pos)
    (top : y.state.pos ≤ src.size) (others : y.style.resumeAt = x.style.resumeAt)
    (halts : HaltsAt e src y.state.pos y.script.resumeAt) : unread src y < unread src x := by
  by_cases less : x.state.pos < y.state.pos
  · exact unread_lt less top idle
  · have same : y.state.pos = x.state.pos := by omega
    rw [same] at halts
    obtain ⟨pending, done⟩ := waits_of_due due away halts
    simp only [unread, same, idle, others, done, pending, Option.isSome_none, Bool.toNat_false, Bool.toNat_true]
    omega

theorem unread_of_style {y : HtmlScanner} (due : x.style.isDue x.state.pos)
    (away : e.server → ¬ src.At "<?" x.state.pos) (idle : y.suspension = {}) (le : x.state.pos ≤ y.state.pos)
    (top : y.state.pos ≤ src.size) (others : y.script.resumeAt = x.script.resumeAt)
    (halts : HaltsAt e src y.state.pos y.style.resumeAt) : unread src y < unread src x := by
  by_cases less : x.state.pos < y.state.pos
  · exact unread_lt less top idle
  · have same : y.state.pos = x.state.pos := by omega
    rw [same] at halts
    obtain ⟨pending, done⟩ := waits_of_due due away halts
    simp only [unread, same, idle, others, done, pending, Option.isSome_none, Bool.toNat_false, Bool.toNat_true]
    omega

theorem Advanced.of_cursor {c : Cursor} {r : Bool} {y : HtmlScanner} (pos : c.pos = x.state.pos)
    (h : Advanced e src start { x with state := { x.state with cursor := c } } r y) : Advanced e src start x r y := by
  have here : ({ x.state with cursor := c } : ScanState).pos = x.state.pos := pos
  cases h with
  | more keeps idle le less =>
    refine .more keeps idle ?_ ?_
    · rw [← here]
      exact le
    · simp only [unread, here] at less ⊢
      exact less
  | left leaves le whole =>
    refine .left leaves ?_ whole
    rw [← here]
    exact le

/-- A token that was cut can be taken up wherever the scan goes on. -/
theorem Keeps.resumable (h : Keeps e src start pos x)
    (known : ∀ k, x.suspension.cut = some k → (recoveries.get? k).isSome) (kind : Kind)
    (cut : x.suspension.cut = some kind) : ∃ p, x.grammar.recovery.get? kind = some p ∧ ∀ u : Spot, p.Starts u := by
  obtain ⟨p, found⟩ := Option.isSome_iff_exists.mp (known kind cut)
  rw [h.grammar, recovery_eq]
  exact ⟨p, found, recoveries_start _ (Keyed.mem_of_get? found)⟩

/-- One step; what was left in the middle comes first. -/
theorem yields_step (keeps : Keeps e src start x.state.pos x) (quiet : x.suspension.interrupted = false)
    (known : ∀ k, x.suspension.cut = some k → (recoveries.get? k).isSome) :
    Yields step x (Advanced e src start x) fail := by
  have moved : ∀ c : Cursor, c.Sound src → c.pos = x.state.pos →
      Keeps e src start ({ x.state with cursor := c } : ScanState).pos
        { x with state := { x.state with cursor := c } } := by
    intro c sound pos
    have here : ({ x.state with cursor := c } : ScanState).pos = x.state.pos := pos
    rw [here]
    exact keeps.sameState (keeps.recorded.withCursor sound)
  simp only [step]
  refine yields_bind.mpr (keeps.atServer ?_ ?_)
  · intro c sound pos on at_
    have here : ({ x.state with cursor := c } : ScanState).pos = x.state.pos := pos
    refine yields_bind.mpr (yields_modify.mpr (yields_pure.mpr ?_))
    refine .left (.of_interrupted (moved c sound pos) on ?_ known) (Nat.le_of_eq here.symm) (fun no => by cases no)
    rw [here]
    exact at_
  · intro c sound pos away
    have here : ({ x.state with cursor := c } : ScanState).pos = x.state.pos := pos
    have keepsC := moved c sound pos
    rw [← here] at away
    simp only [Bool.false_eq_true, if_false]
    refine yields_bind.mpr (yields_get.mpr ?_)
    refine (Yields.mono ?_ (fun r y => Advanced.of_cursor pos) fun _ _ failed => failed)
    refine yields_bind.mpr (yields_suspended.mpr (Suspend.yields_resume sound (keeps.resumable known) ?_ ?_))
    · intro none_
      have idle : x.suspension = {} := by
        cases eq : x.suspension with
        | mk interrupted cut =>
          rw [eq] at quiet none_
          simp only at quiet none_
          rw [quiet, none_]
      refine yields_bind.mpr (yields_state.mpr (yields_ofCursor.mpr ?_))
      split
      · next due =>
        refine yields_bind.mpr (keepsC.toScript ?_)
        intro y keepsY le idleY others halts
        have idle' := idleY.trans idle
        exact .more keepsY idle' le
          (unread_of_script due away idle' le keepsY.recorded.sound.le_size others halts)
      · split
        · next due =>
          refine yields_bind.mpr (keepsC.toStyle ?_)
          intro y keepsY le idleY others halts
          have idle' := idleY.trans idle
          exact .more keepsY idle' le
            (unread_of_style due away idle' le keepsY.recorded.sound.le_size others halts)
        · exact yields_stepToken keepsC idle
    · intro kind p m d a b marks isCut some_ soundD behind occurs at_
      rw [keeps.grammar, recovery_eq] at some_
      exact yields_takeUp keepsC isCut some_ soundD behind occurs at_

/-- Every step of a run leaves what the run keeps. -/
def StepsKeep (e : Embedding) (src : Source) (start : Origin) (Kept : HtmlScanner → Prop) : Prop :=
  ∀ x, Keeps e src start x.state.pos x → x.suspension.interrupted = false →
    (∀ k, x.suspension.cut = some k → (recoveries.get? k).isSome) → x.state.pos < src.size → Kept x →
    Yields step x (fun _ y => Kept y) fun _ _ => True

/-- Steps lead to where the scan leaves; each has less to do than the one before. -/
theorem yields_loop {fuel : Nat} (keeps : Keeps e src start x.state.pos x) (quiet : x.suspension.interrupted = false)
    (known : ∀ k, x.suspension.cut = some k → (recoveries.get? k).isSome)
    (enough : unread src x < fuel) {Kept : HtmlScanner → Prop} (steps : StepsKeep e src start Kept) (kept : Kept x)
    {post : Unit → HtmlScanner → Prop}
    (next : ∀ y, Leaves e src start y → x.state.pos ≤ y.state.pos → Kept y → post () y) :
    Yields (loop fuel) x post fail := by
  induction fuel generalizing x with
  | zero => omega
  | succ fuel ih =>
    simp only [loop]
    refine yields_bind.mpr (yields_state.mpr (yields_atEnd keeps.recorded.sound ?_))
    by_cases ended : x.state.pos = src.size
    · simp only [ended, decide_true, Bool.not_true, Bool.false_eq_true, if_false]
      exact next x (.of_ended keeps ended quiet known) (Nat.le_refl _) kept
    · simp only [ended, decide_false, Bool.not_false, if_true]
      have before : x.state.pos < src.size := Nat.lt_of_le_of_ne keeps.recorded.sound.le_size ended
      have stepped := steps x keeps quiet known before kept
      refine yields_bind.mpr (((yields_step keeps quiet known).and stepped).mono ?_ fun _ _ failed => failed)
      rintro r y ⟨advanced, keptY⟩
      cases advanced with
      | left leaves le _ => exact next y leaves le keptY
      | more keepsY idle le less =>
        simp only [if_true]
        refine ih keepsY (by rw [idle]) ?_ (by omega) keptY ?_
        · intro k no
          rw [idle] at no
          cases no
        · intro z leaves le' keptZ
          exact next z leaves (by omega) keptZ

/-- A scanner that is able to scan a source. -/
structure Able (e : Embedding) (src : Source) (x : HtmlScanner) : Prop where
  tag : e.serverTag = "<?"
  grammar : x.grammar = Html.grammar e
  embedding : x.embedding = e
  serverTag : x.serverTag = .literal "<?"
  sane : x.state.Sane src
  script : Scanner.Waits (Script.Able (Script.grammar (within e)) (within e) src) x.script.scanner
  style : Scanner.Waits (Style.Able (within e) src) x.style.scanner
  known : ∀ k, x.suspension.cut = some k → (recoveries.get? k).isSome

theorem grammar_named (e : Embedding) : (Html.grammar e).Named := by
  have base := Grammar.named_withFilters "html"
    |>.showAs doubleString (some Kind.string) (by decide)
    |>.showAs singleString (some Kind.string) (by decide)
    |>.showAs comment (some Kind.comment) (by decide)
    |>.showAs declaration (some Kind.comment) (by decide)
    |>.showAs cdata (some Kind.comment) (by decide)
  obtain ⟨html, server, tag⟩ := e
  cases server <;> exact ⟨base.words, base.ruleMap⟩

theorem filters_eq (e : Embedding) : (Html.grammar e).streamFilters = (Grammar.withFilters "html").streamFilters ∧
    (Html.grammar e).filters = (Grammar.withFilters "html").filters := by
  obtain ⟨html, server, tag⟩ := e
  cases server <;> exact ⟨rfl, rfl⟩

instance : LawfulScanner HtmlScanner := ⟨fun _ _ => rfl, fun _ _ => rfl, fun _ _ => rfl⟩

/-- A new scanner is able to scan the source that it is given, and so are its children. -/
theorem waits_setSource (tag : e.serverTag = "<?") (src : Source) :
    Scanner.Waits (Able e src) (Scanner.setSource (HtmlScanner.ofEmbedding e) src) := by
  refine ⟨⟨tag, rfl, rfl, ?_, (ScanState.blank_setSource rfl src).toSane,
    Script.waits_setSource _ _ src, Style.waits_setSource (e := within e) tag src, ?_⟩, rfl⟩
  · simp only [Scanner.setSource, HtmlScanner.setSource, HtmlScanner.ofEmbedding, tag]
  · intro k no
    cases no

/-- Nothing is recorded yet when a run begins. -/
theorem Able.begins (able : Able e src x) : Keeps e src ⟨x.state.pos, x.state.tokens.latest⟩ x.state.pos
    { x with suspension := { x.suspension with interrupted := false } } :=
  ⟨able.tag, able.grammar, able.embedding, able.serverTag, able.sane.recorded fun _ _ escaped => (by cases escaped),
    fun _ => .self src _ _, able.script, able.style⟩

/-- A run from any offset on leaves, and keeps what its steps keep. -/
theorem yields_main (able : Able e src x) {Kept : HtmlScanner → Prop}
    (steps : StepsKeep e src ⟨x.state.pos, x.state.tokens.latest⟩ Kept)
    (kept : Kept { x with suspension := { x.suspension with interrupted := false } }) :
    Yields main x (fun _ y => Leaves e src ⟨x.state.pos, x.state.tokens.latest⟩ y ∧ Kept y) fail := by
  simp only [Html.main]
  refine yields_bind.mpr (yields_modify.mpr (yields_bind.mpr (yields_get.mpr ?_)))
  have quiet : ({ x with suspension := { x.suspension with interrupted := false } } :
      HtmlScanner).suspension.interrupted = false := rfl
  refine yields_loop able.begins quiet able.known ?_ steps kept ?_
  · have size : x.state.source.size = src.size := by rw [ScanState.source, able.sane.sound.source]
    have cut := Bool.toNat_le x.suspension.cut.isSome
    have script := Bool.toNat_le x.script.resumeAt.isSome
    have style := Bool.toNat_le x.style.resumeAt.isSome
    simp only [unread, Flat.budget, size]
    omega
  · intro y leaves _ keptY
    exact ⟨leaves, keptY⟩

theorem Leaves.able (h : Leaves e src start x) : Able e src x :=
  ⟨h.keeps.tag, h.keeps.grammar, h.keeps.embedding, h.keeps.serverTag, h.keeps.recorded.sane, h.keeps.script,
    h.keeps.style, h.known⟩

/-- From every offset on, the scanner covers the source up to its end, or up to the first tag of the server, which
interrupts it; and it never fails. -/
theorem covers (e : Embedding) (src : Source) :
    Scanner.Covers src (Able e src) (Html.grammar e).Allowed
      (fun x stop interrupted => Stops e src (fun _ => False) x.state.pos stop interrupted) fun _ _ => False := by
  refine ⟨fun able => able.sane, ?_, ?_, ?_, ?_⟩
  · intro x able
    show x.grammar.Renders (x.grammar.context x.state)
    rw [able.grammar]
    exact Grammar.renders_of_filters ((grammar_named e).context able.sane.defs) "html" (filters_eq e).1 (filters_eq e).2
  · intro x able t allowed
    show x.grammar.Allowed t
    rw [able.grammar]
    exact allowed
  · intro x s able sane _
    exact ⟨able.tag, able.grammar, able.embedding, able.serverTag, sane, able.script, able.style, able.known⟩
  · intro x able
    have steps : StepsKeep e src ⟨x.state.pos, x.state.tokens.latest⟩ fun _ => True := by
      intro y keeps quiet known _ _
      have stepped : Yields step y _ fun _ _ => True := yields_step keeps quiet known
      exact stepped.mono (fun _ _ _ => trivial) fun _ _ failed => failed
    refine (yields_main able steps trivial).mono ?_ fun _ _ failed => failed
    rintro _ y ⟨leaves, -⟩
    exact ⟨leaves.able, leaves.keeps.recorded, leaves.server, fun quiet => .inl (leaves.ended quiet),
      leaves.keeps.clear⟩

end Gloss.Language.Html

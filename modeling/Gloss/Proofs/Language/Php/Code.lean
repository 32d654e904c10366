import Gloss.Language.Php
import Gloss.Proofs.Regex.Quoted
import Gloss.Proofs.Scan.Suspended

/-!
A run of the scanner for PHP code. It stops in front of a closing mark or at the end. It fails at one place only:
the name of a text of several lines becomes a pattern, and a pattern for a name that is too long is refused.
-/
namespace Gloss.Language.Php

open Text (Spot Source)
open Markup (Shows WellNamed OneLine escapeChars)

section Filters

variable {t : Token} {x : List Char} {ctx : FilterContext}

/-- What variables in braces begin with. -/
def openers : List (List Char) := [['$', '\x7b'], ['\x7b', '$']]

/-- The text of a variable: one in braces, or one that begins with a dollar sign and holds neither an angle bracket
nor a line end. -/
inductive Variable : List Char → Prop where
  | braced {opener inner : List Char} (opens : opener ∈ openers) (open_ : '\x7d' ∉ inner) :
      Variable (opener ++ inner ++ ['\x7d'])
  | bare {c : Char} {rest : List Char} (tagless : '<' ∉ c :: rest) (line : OneLine (c :: rest)) :
      Variable ('$' :: c :: rest)

/-- Variables begin with a character that stands in no tag, and with one more that opens none. -/
theorem Variable.head {v : List Char} (h : Variable v) :
    ∃ c d rest, v = c :: d :: rest ∧ c ∈ ['$', '\x7b'] ∧ d ≠ '<' := by
  cases h with
  | @braced opener inner opens =>
    simp only [openers, List.mem_cons, List.not_mem_nil, or_false] at opens
    rcases opens with rfl | rfl
    · exact ⟨'$', '\x7b', inner ++ ['\x7d'], rfl, by decide, by decide⟩
    · exact ⟨'\x7b', '$', inner ++ ['\x7d'], rfl, by decide, by decide⟩
  | @bare c rest tagless => exact ⟨'$', c, rest, rfl, by decide, fun opens => tagless (opens ▸ List.mem_cons_self)⟩

/-- Does the expression stand for variables? -/
def isVariable : Regex → Bool
  | .alt (.seq (.alt (.text ['$', '\x7b']) (.text ['\x7b', '$'])) (.seq inner (.text ['\x7d']))) (.seq (.text ['$']) bare) =>
    inner.avoids '\x7d' && (bare.avoids '<' && bare.avoids '\n' && bare.consumes)
  | _ => false

theorem isVariable_parts {r : Regex} (variable_ : isVariable r) : ∃ inner bare, r =
    .alt (.seq (.alt (.text ['$', '\x7b']) (.text ['\x7b', '$'])) (.seq inner (.text ['\x7d'])))
      (.seq (.text ['$']) bare) ∧ inner.avoids '\x7d' ∧ bare.avoids '<' ∧ bare.avoids '\n' ∧ bare.consumes := by
  unfold isVariable at variable_
  split at variable_
  · next inner bare =>
    simp only [Bool.and_eq_true] at variable_
    exact ⟨inner, bare, rfl, variable_.1, variable_.2.1.1, variable_.2.1.2, variable_.2.2⟩
  · cases variable_

theorem variable_of_covers {p : Pattern} (variable_ : isVariable p.parsed.regex) {o t : Spot} {v : List Char}
    {marks : Regex.Marks} (covers : p.Covers o t marks) (reads : Spot.Reads o v t) : Variable v := by
  obtain ⟨inner, bare, regex, closes, tagless, line, consumes⟩ := isVariable_parts variable_
  rw [Pattern.Covers, regex] at covers
  rcases covers with ⟨u, _, opens, a, _, body, last, _⟩ | ⟨u, _, ⟨first, _⟩, behind⟩
  · obtain ⟨w, readsW, absent⟩ := body.avoids closes
    rcases opens with ⟨first, _⟩ | ⟨first, _⟩
    · rw [reads.word_eq (first.trans (readsW.trans last)), ← List.append_assoc]
      exact .braced (by decide) absent
    · rw [reads.word_eq (first.trans (readsW.trans last)), ← List.append_assoc]
      exact .braced (by decide) absent
  · obtain ⟨w, readsW, absent⟩ := behind.avoids tagless
    obtain ⟨w', readsW', oneLine⟩ := behind.avoids line
    obtain rfl := readsW.word_eq readsW'
    have some_ := behind.consumes consumes
    rw [reads.word_eq (first.trans readsW)]
    cases w with
    | nil =>
      have here := readsW.pos
      simp only [Text.byteSize_nil] at here
      omega
    | cons c w => exact .bare absent oneLine

/-- Variables begin with a character that stands in no tag; those in braces end with one, and in the others no
tag can open. -/
theorem clean_of_isVariable {p : Pattern} (variable_ : isVariable p.parsed.regex) : p.Clean := by
  constructor
  · intro o t v marks covers reads
    obtain ⟨c, d, rest, rfl, symbol, _⟩ := (variable_of_covers variable_ covers reads).head
    have outside : ['$', '\x7b'].all Markup.isOutside := by decide
    exact ⟨c, d :: rest, rfl, List.all_eq_true.mp outside c symbol⟩
  · intro o t v marks covers reads
    cases variable_of_covers variable_ covers reads with
    | @braced opener inner => exact .inr ⟨opener ++ inner, '\x7d', rfl, by decide⟩
    | bare tagless => exact .inl (by simpa using tagless)

theorem isVariable_interpolated : isVariable interpolated.parsed.regex := by decide +kernel

theorem interpolated_clean : interpolated.Clean := clean_of_isVariable isVariable_interpolated

theorem interpolate_shown (h : t.Shown x) : (interpolate t).Shown x := by
  simp only [interpolate]
  split
  · exact Filter.shown_tagMatches h (by decide) (interpolated_clean.cuts _)
  · exact h

theorem interpolate_kind : (interpolate t).kind = t.kind := by
  simp only [interpolate]
  split <;> simp

theorem grammar_filters : Php.grammar.filters = (Grammar.withFilters "php").filters ++ [
    ⟨some "interpolation", .string, fun _ => interpolate⟩,
    ⟨some "heredoc-interpolation", .heredoc, fun _ => interpolate⟩,
    ⟨some "nowdoc", nowdoc, fun _ t => { t with kind := some .heredoc }⟩] := rfl

/-- The filters of PHP show the same as the usual ones. -/
theorem grammar_renders (named : ctx.Named) : Php.grammar.Renders ctx := by
  have usual := Grammar.renders_of_filters named "php" rfl rfl
  refine ⟨usual.stream, ?_⟩
  rw [grammar_filters]
  refine usual.tokens.append ?_
  intro f member t x shown wellNamed
  have marked : (interpolate t).Shown x ∧ (interpolate t).Named := by
    refine ⟨interpolate_shown shown, ?_⟩
    intro kind eq
    exact wellNamed kind (interpolate_kind ▸ eq)
  simp only [List.mem_cons, List.not_mem_nil, or_false] at member
  rcases member with rfl | rfl | rfl
  · exact marked
  · exact marked
  · refine ⟨shown.of_eq rfl rfl, ?_⟩
    intro kind eq
    cases eq
    decide

theorem grammar_named : Php.grammar.Named := by
  have base := (Grammar.named_withFilters "php")
  have folded : ((Grammar.withFilters "php").setCaseSensitive false).Named := ⟨by decide, base.ruleMap⟩
  have full := (folded.wordsOf .function functions (by decide)).wordsOf .keyword keywords (by decide)
  exact ⟨full.words, full.ruleMap⟩

end Filters

/-- Names of texts of several lines up to this size can be searched for. -/
def nameLimit : Nat := 327669

/-- The failure at a name that cannot be searched for. -/
def tooLong (name : List Char) : ScanError := .invalidPattern ⟨heredocEnd (String.ofList name), .tooLarge⟩

theorem heredocHead_pair : heredocHead.parsed.regex.twoGroups?.any fun pair => pair.2.isLiteral := by decide +kernel

/-- The name of a text of several lines has no characters with a meaning of their own in patterns. -/
theorem heredocHead_groups {src : Source} {m : Match} {a b : Spot} {marks : Regex.Marks}
    (occurs : heredocHead.Occurs src m a b marks) :
    ∃ mid name, m.Halves src mid ∧ m.groupText src 2 = String.ofList name ∧ Regex.Literal name := by
  obtain ⟨⟨first, second⟩, pair, literal⟩ := (Option.any_eq_true ..).mp heredocHead_pair
  obtain ⟨mid, halves⟩ := occurs.halves (by rw [pair]; rfl)
  obtain ⟨u, v, w, _, readsW, _, groupW, _, mu, matched⟩ := occurs.groups pair
  exact ⟨mid, w, halves, groupW, matched.literal literal readsW⟩

variable {src : Source} {Allowed : Token → Prop} {start : Origin} {s : ScanState}
  {fail : ScanError → ScanState → Prop}

/-- A state from which the source is recorded up to the cursor. -/
abbrev Keeps (src : Source) (start : Origin) (s : ScanState) : Prop :=
  Recorded src Token.IsRaw start s.pos s

theorem definedName_pair : definedName.parsed.regex.twoGroups?.isSome := by decide +kernel

theorem yields_definition (h : Keeps src start s) {kind : Kind} (named : WellNamed kind)
    {post : Unit → ScanState → Prop} (next : ∀ s', Keeps src start s' → s.pos ≤ s'.pos → post () s') :
    Yields (definition kind) s post fail := by
  simp only [definition]
  refine yields_bind.mpr (yields_scan h.sound definedName ?_ ?_)
  · intro c sound posC _
    have here : ({ s with cursor := c } : ScanState).pos = s.pos := posC
    have moved := h.withCursor sound
    rw [← here] at moved
    exact next _ moved (Nat.le_of_eq here.symm)
  · intro m c a b marks sound behind occurs here
    obtain ⟨mid, halves⟩ := occurs.halves definedName_pair
    have start_ : m.start = s.pos := occurs.start.trans here
    have recorded : Recorded src Token.IsRaw start m.start s := by
      rw [start_]
      exact h
    refine yields_bind.mpr (yields_ofCursor.mpr (yields_bind.mpr (yields_ofCursor.mpr ?_)))
    refine yields_bind.mpr (yields_modify.mpr (yields_bind.mpr (yields_modify.mpr (yields_modify.mpr ?_))))
    generalize pushed : (({ s with cursor := c } : ScanState).record (.raw none (m.groupText c.source 1))).record
      (.raw (some .userFunction) (m.groupText c.source 2)) = s'
    have none_ : ∀ k : Kind, none = some k → WellNamed k := by simp
    have userFunction : ∀ k, some Kind.userFunction = some k → WellNamed k := by decide
    obtain ⟨both, at_, _⟩ :=
      recorded.pushHalves_behind sound behind occurs.spans halves none_ userFunction pushed.symm
    have le := occurs.spans.le
    refine next _ ⟨both.sound, both.flat, both.first, both.last, both.le, both.spells, ?_, both.raw⟩ ?_
    · intro name kind' found
      rcases Keyed.get?_put found with rfl | found
      · exact named
      · exact both.defs name kind' found
    · show s.pos ≤ s'.pos
      omega

theorem yields_closeQuote (h : Keeps src start s) (quote : String) {post : Unit → ScanState → Prop}
    (next : ∀ s', Keeps src start s' → s.pos ≤ s'.pos → post () s') :
    Yields (closeQuote quote) s post fail := by
  simp only [closeQuote]
  refine yields_bind.mpr (yields_ofCursor.mpr ?_)
  split
  · refine yields_bind.mpr (yields_take h.sound 1 ?_)
    intro text c sound le between _
    have pushed := (h.withCursor sound).pushText sound.here le between (by simp : ∀ k, none = some k → WellNamed k)
    refine next _ ?_ ?_
    · simp only [Keeps, ScanState.pos, ScanState.record_cursor]
      exact pushed
    · simp only [ScanState.pos, ScanState.record_cursor]
      exact le
  · exact next s h (Nat.le_refl _)

/-- The pattern for the end of a text of several lines; there is none for a name that is too long. -/
theorem yields_compileEnd {name : List Char} (literal : Regex.Literal name) (some_ : name ≠ [])
    {post : Pattern → ScanState → Prop} (ok : ∀ p, Text.byteSize name ≤ nameLimit → post p s)
    (failed : nameLimit < Text.byteSize name → fail (tooLong name) s) :
    Yields (Scan.compile (heredocEnd (String.ofList name))) s post fail := by
  have limit : 344 + 32 * Text.byteSize name ≤ Regex.Extent.limit ↔ Text.byteSize name ≤ nameLimit := by
    simp only [nameLimit, Regex.Extent.limit]
    omega
  refine yields_compile_sized (Regex.parse_lineWordOrEnd literal some_) ?_ ?_
  · exact fun p fits => ok p (limit.mp fits)
  · exact fun large => failed (Nat.lt_of_not_le (mt limit.mpr large))

/-- The body of a text of several lines; a name that is too long makes the scan fail. -/
theorem yields_heredocBody (h : Keeps src start s) (quote : String) {name : List Char} (literal : Regex.Literal name)
    {post : Unit → ScanState → Prop}
    (next : ∀ s', Keeps src start s' → s.pos ≤ s'.pos → (name ≠ [] → Text.byteSize name ≤ nameLimit) → post () s')
    (failed : ∀ s', name ≠ [] → nameLimit < Text.byteSize name → fail (tooLong name) s') :
    Yields (heredocBody quote (String.ofList name)) s post fail := by
  have kinds : ∀ k, some (if quote = "'" then nowdoc else Kind.heredoc) = some k → WellNamed k := by
    intro k eq
    cases eq
    split <;> decide
  simp only [heredocBody]
  by_cases empty : name = []
  · have blank : (String.ofList name).isEmpty = true := by rw [empty]; rfl
    simp only [blank, Bool.not_true, Bool.false_eq_true, if_false]
    exact next s h (Nat.le_refl _) fun some_ => absurd empty some_
  · have some_ : (String.ofList name).isEmpty = false := by
      simpa [String.isEmpty_iff] using empty
    simp only [some_, Bool.not_false, if_true]
    refine yields_bind.mpr (yields_compileEnd literal empty ?_ (failed s empty))
    intro p short
    refine yields_bind.mpr (yields_scanUntil h.sound p ?_ ?_)
    · intro c sound posC _
      have here : ({ s with cursor := c } : ScanState).pos = s.pos := posC
      have moved := h.withCursor sound
      rw [← here] at moved
      exact next _ moved (Nat.le_of_eq here.symm) fun _ => short
    · intro m c sound _ behind spans
      refine yields_bind.mpr ((h.withCursor sound).recordMatch spans rfl kinds ?_)
      intro s' recorded cursor _
      have at_ : s'.pos = m.start := by
        show s'.cursor.pos = m.start
        rw [cursor]
        exact behind
      have low : s.pos ≤ m.start := spans.le
      have recorded' : Keeps src start s' := by
        rw [Keeps, at_]
        exact recorded
      refine recorded'.scanAndRecord word (by decide) ?_
      intro s'' recorded'' le _
      exact next s'' recorded'' (by omega) fun _ => short

/-- The name of a text of several lines that is announced at an offset. -/
def NamedAt (src : Source) (pos : Nat) (name : List Char) : Prop :=
  ∃ head : Match, heredocHead.findFrom? src pos = some head ∧ head.start = pos ∧
    head.groupText src 2 = String.ofList name ∧ name ≠ []

/-- A name that is announced stands in the source. -/
theorem NamedAt.size_le {pos : Nat} {name : List Char} (h : NamedAt src pos name) : Text.byteSize name ≤ src.size := by
  obtain ⟨head, found, _, text, _⟩ := h
  obtain ⟨a, b, marks, occurs, _⟩ := Pattern.findFrom?_some found
  obtain ⟨pair, some_, _⟩ := (Option.any_eq_true ..).mp heredocHead_pair
  obtain ⟨u, v, w, readsV, readsW, _, groupW, _⟩ := occurs.groups some_
  rw [text] at groupW
  obtain rfl := String.ofList_injective groupW
  have inside := (occurs.inside.reads readsV).reads readsW
  have le := Source.isBoundary_le (Source.isBoundary_of_in inside)
  have pos := readsW.pos
  omega

/-- A text of several lines; it fails just if its name is too long. -/
theorem yields_heredoc (h : Keeps src start s) {post : Unit → ScanState → Prop}
    (next : ∀ s', Keeps src start s' → s.pos ≤ s'.pos →
      (∀ name, NamedAt src s.pos name → Text.byteSize name ≤ nameLimit) → post () s')
    (failed : ∀ name s', NamedAt src s.pos name → nameLimit < Text.byteSize name → fail (tooLong name) s') :
    Yields heredoc s post fail := by
  simp only [heredoc]
  refine yields_bind.mpr (yields_scanFirst h.sound heredocHead ?_ ?_)
  · intro c sound posC absent
    have here : ({ s with cursor := c } : ScanState).pos = s.pos := posC
    have moved := h.withCursor sound
    rw [← here] at moved
    refine next _ moved (Nat.le_of_eq here.symm) ?_
    intro name named
    obtain ⟨head, found, start_, _⟩ := named
    obtain ⟨a, b, marks, occurs, _⟩ := Pattern.findFrom?_some found
    exact absurd occurs.starts (absent a occurs.inside (occurs.start.symm.trans start_))
  · intro m c a b marks sound behind occurs here found
    obtain ⟨mid, name, halves, text, literal⟩ := heredocHead_groups occurs
    have start_ : m.start = s.pos := occurs.start.trans here
    have recorded : Recorded src Token.IsRaw start m.start s := by
      rw [start_]
      exact h
    refine yields_bind.mpr (yields_ofCursor.mpr (yields_bind.mpr (yields_ofCursor.mpr ?_)))
    refine yields_bind.mpr (yields_modify.mpr (yields_bind.mpr (yields_modify.mpr ?_)))
    simp only
    generalize pushed : (({ s with cursor := c } : ScanState).record (.raw none (m.groupText c.source 1))).record
      (.raw (some .keyword) (m.groupText c.source 2)) = s'
    have none_ : ∀ k : Kind, none = some k → WellNamed k := by simp
    have keyword : ∀ k, some Kind.keyword = some k → WellNamed k := by decide
    obtain ⟨both, at_, _⟩ :=
      recorded.pushHalves_behind sound behind occurs.spans halves none_ keyword pushed.symm
    have low := occurs.spans.le
    refine yields_bind.mpr (yields_closeQuote both _ ?_)
    intro t keepsT leT
    refine yields_bind.mpr (keepsT.scanAndRecord lineRest (by simp) ?_)
    intro u keepsU leU _
    have text' : m.groupText c.source 2 = String.ofList name := by
      rw [sound.source]
      exact text
    rw [text']
    have unique : ∀ name', NamedAt src s.pos name' → name' = name := by
      intro name' named
      obtain ⟨head, found', _, text', _⟩ := named
      rw [found] at found'
      obtain rfl := Option.some.inj found'
      rw [text] at text'
      exact (String.ofList_injective text').symm
    refine yields_heredocBody keepsU _ literal ?_ ?_
    · intro v keepsV leV short
      refine next v keepsV (by omega) ?_
      intro name' named
      have same := unique name' named
      obtain ⟨_, _, _, _, some_⟩ := named
      rw [same] at some_ ⊢
      exact short some_
    · intro v some_ long
      exact failed name v ⟨m, found, start_, text, some_⟩ long

theorem definedBy?_named {word : String} {kind : Kind} (found : definedBy? word = some kind) : WellNamed kind := by
  unfold definedBy? at found
  split at found <;> cases found <;> decide

theorem yields_identifier {m : Match} (h : Recorded src Token.IsRaw start m.start s) (spans : m.Spans src)
    (behind : s.pos = m.stop) {post : Unit → ScanState → Prop}
    (next : ∀ s', Keeps src start s' → m.stop ≤ s'.pos → post () s') :
    Yields (identifier m) s post fail := by
  simp only [identifier]
  refine yields_bind.mpr (yields_ofCursor.mpr ?_)
  have ident : ∀ k, some Kind.ident = some k → WellNamed k := by decide
  have recorded := h.pushMatch spans ident
  have at_ : (s.record (.raw (some .ident) (m.text s.cursor.source))).pos = m.stop := by
    rw [ScanState.pos, ScanState.record_cursor]
    exact behind
  rw [← at_] at recorded
  refine yields_bind.mpr (yields_modify.mpr ?_)
  split
  · next kind found =>
    refine yields_definition recorded (definedBy?_named found) ?_
    intro s' keeps le
    exact next s' keeps (by omega)
  · exact next _ recorded (by omega)

/-- A match that was consumed is recorded; the scan fails just at a name that is too long. -/
theorem yields_takeToken {kind : Kind} {m : Match} (h : Recorded src Token.IsRaw start m.start s)
    (spans : m.Spans src) (behind : s.pos = m.stop) (any : m.start < m.stop) (named : WellNamed kind)
    (head : kind = .comment → (m.text src).toList.head? ≠ some '?') {post : Unit → ScanState → Prop}
    (next : ∀ s', Keeps src start s' → m.start < s'.pos →
      (kind = .operator → Text.occursIn "<<<" (m.text src) → ∀ name, NamedAt src m.stop name →
        Text.byteSize name ≤ nameLimit) → post () s')
    (failed : ∀ name s', kind = .operator → Text.occursIn "<<<" (m.text src) → NamedAt src m.stop name →
      nameLimit < Text.byteSize name → fail (tooLong name) s') :
    Yields (takeToken kind m) s post fail := by
  have names : ∀ k, some kind = some k → WellNamed k := by
    intro k eq
    cases eq
    exact named
  have plain : kind ≠ .operator ∨ ¬ Text.occursIn "<<<" (m.text src) → ∀ s', Keeps src start s' →
      s'.pos = m.stop → post () s' := by
    intro other s' keeps at_
    refine next s' keeps (by omega) ?_
    intro isOperator opens
    rcases other with other | other
    · exact absurd isOperator other
    · exact absurd opens other
  simp only [takeToken]
  refine yields_bind.mpr (yields_ofCursor.mpr ?_)
  rw [h.sound.source]
  split
  · next isIdent =>
    refine yields_identifier h spans behind ?_
    intro s' keeps le
    refine next s' keeps (by omega) ?_
    intro isOperator
    rw [isIdent] at isOperator
    exact absurd isOperator (by decide)
  · split
    · next opens =>
      simp only [Bool.and_eq_true, decide_eq_true_eq] at opens
      obtain ⟨isOperator, opens⟩ := opens
      refine yields_bind.mpr (h.recordBehind spans behind (by decide) ?_)
      intro s' keeps at_ _
      refine yields_heredoc keeps ?_ ?_
      · intro s'' keeps' le short
        refine next s'' keeps' (by omega) ?_
        intro _ _
        rw [← at_]
        exact short
      · intro name s'' namedAt long
        rw [at_] at namedAt
        exact failed name s'' isOperator opens namedAt long
    · next closed =>
      have other : kind ≠ .operator ∨ ¬ Text.occursIn "<<<" (m.text src) := by
        simp only [Bool.and_eq_true, decide_eq_true_eq, not_and] at closed
        by_cases isOperator : kind = .operator
        · exact .inr (closed isOperator)
        · exact .inl isOperator
      split
      · next cut isComment found =>
        simp only [beq_iff_eq] at isComment
        have marks : Text.indexOf? "?>" (m.text src) = some cut := by
          unfold commentCut? at found
          split at found
          · cases found
          · exact found
        obtain ⟨a, b, text, rfl, _⟩ := Text.indexOf?_some marks
        rw [List.append_assoc] at text
        obtain ⟨boundary, between, _⟩ := spans.front text
        -- A comment does not begin with the closing mark.
        have some_ : 0 < Text.byteSize a := by
          cases a with
          | nil => exact absurd (by rw [text]; rfl) (head isComment)
          | cons c a =>
            have := Char.utf8Size_pos c
            rw [Text.byteSize_cons]
            omega
        refine yields_bind.mpr (h.recordRange boundary (Nat.le_add_right _ _) (by decide) ?_)
        intro s' recorded _ _
        refine yields_setPos recorded.sound boundary ?_
        intro c sound posC
        have here : ({ s' with cursor := c } : ScanState).pos = m.start + Text.byteSize a := posC
        have moved := recorded.withCursor sound
        rw [← here] at moved
        refine next _ moved (by omega) ?_
        intro isOperator
        rw [isComment] at isOperator
        exact absurd isOperator (by decide)
      · exact h.recordBehind spans behind names fun s' keeps at_ _ => plain other s' keeps at_

/-- The nearest token at an offset is an operator behind which a text of several lines is announced. -/
def Announces (src : Source) (pos : Nat) (name : List Char) : Prop :=
  ∃ next : NextMatch, Php.grammar.patterns.Nearest (fun _ => true) src pos next ∧ next.kind = .operator ∧
    Text.occursIn "<<<" (next.data.text src) ∧ NamedAt src next.data.stop name

/-- What the entries of the table are checked for. -/
theorem entries_fine : ∀ p ∈ Php.grammar.patterns.entries, p.pattern.parsed.regex.consumes ∧ WellNamed p.kind ∧
    (p.kind = .comment → p.pattern.parsed.regex.headAvoids '?') ∧
    (p.kind = term → p.pattern.parsed.regex = .text ['?', '>']) := by decide +kernel

/-- A step takes the nearest token. It stops in front of a closing mark or at the end, and fails just at a name
that is too long. -/
theorem yields_codeStep (h : Keeps src start s) {post : Bool → ScanState → Prop}
    (more : ∀ s', Keeps src start s' → s.pos < s'.pos →
      (∀ name, Announces src s.pos name → Text.byteSize name ≤ nameLimit) → post true s')
    (stop : ∀ s', Keeps src start s' → s.pos ≤ s'.pos → s'.pos = src.size ∨ src.At "?>" s'.pos →
      (∀ name, ¬ Announces src s.pos name) → post false s')
    (failed : ∀ name s', Announces src s.pos name → nameLimit < Text.byteSize name → fail (tooLong name) s') :
    Yields (codeStep Php.grammar) s post fail := by
  simp only [codeStep]
  refine yields_bind.mpr (yields_ofCursor.mpr ?_)
  refine yields_bind.mpr (yields_bind.mpr (yields_get.mpr (yields_pure.mpr ?_)))
  refine yields_bind.mpr (yields_nextMatch h.sound _ ?_ ?_)
  · intro c sound posC absent
    have here : ({ s with cursor := c } : ScanState).pos = s.pos := posC
    have moved := h.withCursor sound
    rw [← here] at moved
    refine yields_bind.mpr (moved.recordRest (by simp) ?_)
    intro s' recorded ended _
    rw [← ended] at recorded
    refine stop s' recorded ?_ (.inl ended) ?_
    · rw [ended]
      exact h.sound.le_size
    · intro name announces
      obtain ⟨next, nearest, _⟩ := announces
      obtain ⟨p, at_, _, _, found⟩ := nearest.entry
      rw [absent p (List.mem_of_getElem? at_)] at found
      cases found
  · intro next c sound posC nearest
    obtain ⟨p, at_, kindP, _, search⟩ := nearest.entry
    obtain ⟨consumes, named, head, isTerm⟩ := entries_fine p (List.mem_of_getElem? at_)
    rw [kindP] at named head isTerm
    obtain ⟨a, b, marks, occurs, above, _⟩ := Pattern.findFrom?_some search
    have spans := occurs.spans
    have any := occurs.start_lt_stop consumes
    have start_ := occurs.start
    have le : s.pos ≤ next.data.start := by
      rw [start_]
      exact above
    -- Whatever is announced at the offset is announced behind this match.
    have here : ∀ name, Announces src s.pos name → next.kind = .operator ∧
        Text.occursIn "<<<" (next.data.text src) ∧ NamedAt src next.data.stop name := by
      intro name announces
      obtain ⟨next', nearest', rest⟩ := announces
      obtain rfl := nearest.unique nearest'
      exact rest
    refine yields_bind.mpr ((h.withCursor sound).recordRange spans.start le (by simp) ?_)
    intro s' recorded _ _
    refine yields_bind.mpr (yields_accept recorded.sound spans ?_)
    intro d older soundD behind history
    split
    · next closing =>
      refine yields_bind.mpr (yields_unscan soundD history ?_)
      intro f soundF posF
      have moved := (recorded.withCursor soundD).withCursor soundF
      have atStart : ({ s' with cursor := f } : ScanState).pos = next.data.start := posF
      rw [← atStart] at moved
      refine stop _ moved (Nat.le_trans le (Nat.le_of_eq atStart.symm)) (.inr ?_) ?_
      · have covers := occurs.covers
        rw [Pattern.Covers, isTerm closing] at covers
        exact ⟨a, occurs.inside, start_.symm.trans posF.symm, b.rest, covers.1.rest⟩
      · intro name announces
        obtain ⟨isOperator, _⟩ := here name announces
        rw [closing] at isOperator
        exact absurd isOperator (by decide)
    · have headText : next.kind = .comment → (next.data.text src).toList.head? ≠ some '?' := by
        intro isComment
        obtain ⟨w, reads, other⟩ := Regex.Matches.headAvoids (head isComment) occurs.covers
        rw [occurs.text_eq reads, String.toList_ofList]
        exact other
      refine yields_bind.mpr (yields_takeToken (recorded.withCursor soundD) spans behind any named headText ?_ ?_)
      · intro t keeps less short
        refine yields_bind.mpr (yields_ensureProgress (.inl (Nat.lt_of_le_of_lt le less)) ?_)
        refine more t keeps (Nat.lt_of_le_of_lt le less) ?_
        intro name announces
        obtain ⟨isOperator, opens, namedAt⟩ := here name announces
        exact short isOperator opens name namedAt
      · intro name t isOperator opens namedAt long
        exact failed name t ⟨next, nearest, isOperator, opens, namedAt⟩ long

/-- From a state on, the scan comes to a text of several lines with this name. -/
inductive Meets (src : Source) : ScanState → List Char → Prop where
  | here {s : ScanState} {name : List Char} (before : s.pos < src.size) (announces : Announces src s.pos name) :
      Meets src s name
  | later {s s' : ScanState} {name : List Char} (before : s.pos < src.size)
      (step : codeStep Php.grammar s = .ok true s') (more : Meets src s' name) : Meets src s name

theorem Meets.size_le {name : List Char} (h : Meets src s name) : Text.byteSize name ≤ src.size := by
  induction h with
  | here _ announces =>
    obtain ⟨_, _, _, _, named⟩ := announces
    exact named.size_le
  | later _ _ _ ih => exact ih

/-- Steps lead to a closing mark or to the end, unless they come to a name that is too long. -/
theorem yields_codeLoop {fuel : Nat} (h : Keeps src start s) (enough : src.size - s.pos < fuel)
    {post : Unit → ScanState → Prop}
    (next : ∀ s', Keeps src start s' → s.pos ≤ s'.pos → s'.pos = src.size ∨ src.At "?>" s'.pos →
      (∀ name, Meets src s name → Text.byteSize name ≤ nameLimit) → post () s')
    (failed : ∀ name s', Meets src s name → nameLimit < Text.byteSize name → fail (tooLong name) s') :
    Yields (codeLoop Php.grammar fuel) s post fail := by
  induction fuel generalizing s with
  | zero => omega
  | succ fuel ih =>
    simp only [codeLoop]
    refine yields_bind.mpr (yields_atEnd h.sound ?_)
    have le := h.sound.le_size
    by_cases ended : s.pos = src.size
    · simp only [ended, decide_true, Bool.not_true, Bool.false_eq_true, if_false]
      refine next s h (Nat.le_refl _) (.inl ended) ?_
      intro name meets
      cases meets with
      | here before => omega
      | later before => omega
    · have before : s.pos < src.size := Nat.lt_of_le_of_ne le ended
      simp only [ended, decide_false, Bool.not_false, if_true]
      refine yields_bind.mpr (Yields.ran ?_)
      refine yields_codeStep h ?_ ?_ ?_
      · intro s' keeps less short ran
        simp only [if_true]
        have le' := keeps.sound.le_size
        refine ih keeps ?_ ?_ ?_
        · have : s'.pos ≤ src.size := le'
          omega
        · intro s'' keeps' le'' ends short'
          refine next s'' keeps' (by omega) ends ?_
          intro name meets
          cases meets with
          | here _ announces => exact short name announces
          | later _ step more =>
            rw [ran] at step
            cases step
            exact short' name more
        · intro name s'' meets long
          exact failed name s'' (.later before ran meets) long
      · intro s' keeps le'' ends silent ran
        simp only [Bool.false_eq_true, if_false]
        refine next s' keeps le'' ends ?_
        intro name meets
        cases meets with
        | here _ announces => exact absurd announces (silent name)
        | later _ step =>
          rw [ran] at step
          cases step
      · intro name s' announces long _
        exact failed name s' (.here before announces) long

/-- A scanner for code that is able to scan a source. -/
structure CodeAble (src : Source) (x : PhpCodeScanner) : Prop where
  grammar : x.grammar = Php.grammar
  sane : x.state.Sane src

instance : LawfulScanner PhpCodeScanner := ⟨fun _ _ => rfl, fun _ _ => rfl, fun _ _ => rfl⟩

/-- From every offset on, the scanner covers code up to a closing mark or to the end. It fails just if it comes to
a name that is too long. -/
theorem code_covers (src : Source) :
    Scanner.Covers src (CodeAble src) Token.IsRaw
      (fun x stop _ => (stop = src.size ∨ src.At "?>" stop) ∧
        ∀ name, Meets src x.state name → Text.byteSize name ≤ nameLimit)
      (fun x e => ∃ name, Meets src x.state name ∧ nameLimit < Text.byteSize name ∧ e = tooLong name) := by
  refine ⟨fun able => able.sane, ?_, ?_, fun able sane _ => ⟨able.grammar, sane⟩, ?_⟩
  · rintro ⟨grammar, state⟩ ⟨rfl, sane⟩
    exact grammar_renders (grammar_named.context sane.defs)
  · rintro ⟨grammar, state⟩ ⟨rfl, sane⟩ t raw marked
    rw [show t.escaped = false from raw] at marked
    cases marked
  · rintro ⟨grammar, state⟩ ⟨rfl, sane⟩
    have begun : Keeps src ⟨state.pos, state.tokens.latest⟩ state :=
      sane.recorded Token.isRaw_raw
    show Yields (zoom PhpCodeScanner.state (fun x s => { x with state := s }) (codeRun Php.grammar))
      ⟨Php.grammar, state⟩ _ _
    refine yields_zoom.mpr ?_
    simp only [codeRun]
    refine yields_bind.mpr (yields_get.mpr ?_)
    have size : state.source.size = src.size := by rw [ScanState.source, begun.sound.source]
    refine yields_codeLoop begun ?_ ?_ ?_
    · simp only [Flat.budget, size]
      omega
    · intro s keeps _ ends short
      exact ⟨⟨rfl, keeps.sane⟩, keeps, ends, short⟩
    · intro name s meets long
      exact ⟨name, meets, long, rfl⟩

end Gloss.Language.Php

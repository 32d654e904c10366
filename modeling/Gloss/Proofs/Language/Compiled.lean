import Gloss.Language.C
import Gloss.Language.Haskell
import Gloss.Proofs.Scan.Handled

/-!
C and Haskell. Their handlers take over the cursor where a directive, a run of dashes or a comment that nests begins,
and record what they pass over. The parts of a directive are marked on each line by themselves. So any text can be
read back from its markup, and each line of it is nested on its own.
-/
namespace Gloss.Language

open Text (Spot Source)
open Markup (WellNamed Nests OneLine escapeChars)

namespace C

section Handlers

/-- What the patterns parse to for directives that switch a part off, and for those that open one. A directive of any
kind is something. -/
theorem directives_parse :
    ifZero.parsed.regex =
      .seq (.look .lineStart) (.seq (.times 0 none true (.set ⟨[(9, 9), (32, 32)]⟩)) (.seq (.text ['#'])
        (.seq (.times 0 none true (.set ⟨[(9, 9), (32, 32)]⟩)) (.seq (.text ['i', 'f'])
          (.seq (.times 1 none true (.set ⟨[(9, 9), (32, 32)]⟩))
            (.seq (.text ['0']) (.look .wordBoundary))))))) ∧
    ifOpen.parsed.regex =
      .seq (.look .lineStart) (.seq (.times 0 none true (.set ⟨[(9, 9), (32, 32)]⟩)) (.seq (.text ['#'])
        (.seq (.times 0 none true (.set ⟨[(9, 9), (32, 32)]⟩)) (.seq (.text ['i', 'f'])
          (.seq (.times 0 (some 1) true
              (.seq (.times 0 (some 1) true (.text ['n'])) (.text ['d', 'e', 'f'])))
            (.look .wordBoundary)))))) ∧
    directive.parsed.regex.consumes := by
  decide +kernel

/-- A directive that switches a part off opens a conditional part. -/
theorem ifOpen_starts {u : Spot} (h : ifZero.Starts u) : ifOpen.Starts u := by
  obtain ⟨_, _, covers⟩ := h
  rw [Pattern.Covers, directives_parse.1] at covers
  obtain ⟨_, _, start, _, _, indent, _, _, hash, _, _, gap, a, _, ⟨word, rfl⟩, _, _, blanks, _⟩ := covers
  obtain ⟨rfl, w, readsBlanks, some_, _, mem⟩ := Regex.matches_times_set.mp blanks
  -- A blank behind the word ends it.
  have boundary : Regex.Assertion.wordBoundary.holds a := by
    have before : a.before = some 'f' := word.before
    cases w with
    | nil => simp at some_
    | cons c w =>
      have next : a.rest.head? = some c := by rw [readsBlanks.rest]; rfl
      have blank : Unicode.isWord c = false := by
        have members : (⟨[(9, 9), (32, 32)]⟩ : Regex.CharSet).mem c := mem c List.mem_cons_self
        have other := Filter.holds_of_mem (P := fun c => !Unicode.isWord c) _ (by decide) members
        simpa using other
      have letter : Unicode.isWord 'f' = true := by decide
      simp [Regex.Assertion.holds, Regex.Assertion.isWord?, before, next, blank, letter]
  simp only [Pattern.Starts, Pattern.Covers, directives_parse.2.1]
  exact ⟨a, _, _, _, start, _, _, indent, _, _, hash, _, _, gap, a, _, ⟨word, rfl⟩, a, _,
    Regex.matches_optional.mpr (.inl ⟨rfl, rfl⟩), boundary, rfl, rfl⟩

theorem ifOpen_consumes : ifOpen.parsed.regex.consumes := by
  rw [directives_parse.2.1]
  rfl

/-- Directives are recorded, and so are parts that are switched off. -/
theorem preprocessor_covers {p : Pattern} (consumes : p.parsed.regex.consumes) :
    preprocessor.Covers p Token.IsRaw := by
  intro start src s m a b marks occurs here h
  have any := occurs.start_lt_stop consumes
  have within := Source.isBoundary_le occurs.spans.stop
  have named : ∀ k, some Kind.preprocessor = some k → WellNamed k := by decide
  simp only [preprocessor]
  refine yields_bind.mpr (yields_check h.sound ifZero ?_ ?_)
  · intro c sound posC _
    have at_ : ({ s with cursor := c } : ScanState).pos = s.pos := posC
    have moved := h.withCursor sound
    rw [← at_] at moved
    simp only [Option.isSome_none, Bool.false_eq_true, if_false]
    refine yields_bind.mpr (moved.skipBlank ?_)
    intro t recorded le regions _
    refine yields_bind.mpr (yields_scan recorded.sound directive ?_ ?_)
    · intro d sound' posD _
      have at' : ({ t with cursor := d } : ScanState).pos = t.pos := posD
      have moved' := recorded.withCursor sound'
      rw [← at'] at moved'
      refine moved'.recordTaken (by decide) named ?_
      intro s' recorded' le' further regions'
      refine ⟨recorded', ?_, regions'.trans regions⟩
      -- The white space was something, or the cursor is still at the match.
      by_cases moved : s.pos < t.pos
      · omega
      · have := further (by omega)
        omega
    · intro n d a' b' marks' sound' behind occurs' here'
      have start_ : n.start = t.pos := occurs'.start.trans here'
      have more := occurs'.start_lt_stop directives_parse.2.2
      have moved' := recorded.withCursor sound'
      rw [← start_] at moved'
      refine moved'.recordBehind occurs'.spans behind named ?_
      intro s' recorded' at' regions'
      exact ⟨recorded', by omega, regions'.trans regions⟩
  · intro n c a' b' marks' sound posC occurs' here'
    have at_ : ({ s with cursor := c } : ScanState).pos = s.pos := posC
    have moved := h.withCursor sound
    rw [← at_] at moved
    simp only [Option.isSome_some, if_true]
    refine moved.nestable ifOpen_consumes (by decide) ?_ ?_
    · exact ⟨a', occurs'.inside, here'.trans at_.symm, ifOpen_starts occurs'.starts⟩
    · intro s' recorded further regions
      exact ⟨recorded, by omega, regions⟩

end Handlers

section Filters

/-- Does the expression stand for a text between two others, which is its only group, or for texts without groups? -/
def holdsBetween (opener closer : List Char) : Regex → Bool
  | .alt a (.alt (.seq (.text o) (.seq (.group 1 body) (.text c))) b) =>
    o == opener && c == closer && a.groupless && body.groupless && b.groupless
  | _ => false

/-- The group of a match is what stands between the two texts. -/
theorem group_of_holdsBetween {p : Pattern} {opener closer : List Char}
    (shape : holdsBetween opener closer p.parsed.regex) {src : Source} {o t : Spot} {v : List Char} {marks : Regex.Marks}
    (inside : o.In src.chars) (covers : p.Covers o t marks) (reads : Spot.Reads o v t)
    (some_ : ((p.toMatch ⟨o.pos, t, marks⟩).group? 1).isSome) :
    ∃ w, v = opener ++ w ++ closer ∧ (p.toMatch ⟨o.pos, t, marks⟩).groupText src 1 = String.ofList w := by
  have none_ : marks = [] → False := by
    rintro rfl
    have absent (i : Nat) : Regex.Found.group? ⟨o.pos, t, []⟩ i = none := by simp [Regex.Found.group?]
    simp only [Match.group?, Pattern.toMatch, List.getElem?_map, absent, Option.map_none] at some_
    cases index : (List.range p.groupCount)[0]? <;> simp only [index, Option.map_none, Option.map_some] at some_ <;>
      cases some_
  rw [Pattern.Covers] at covers
  generalize eq : p.parsed.regex = r at shape covers
  unfold holdsBetween at shape
  split at shape
  · simp only [Bool.and_eq_true, beq_iff_eq] at shape
    obtain ⟨⟨⟨⟨rfl, rfl⟩, plainA⟩, plainBody⟩, plainB⟩ := shape
    rcases covers with first | ⟨u, _, ⟨opens, rfl⟩, x, _, ⟨mx, body, rfl⟩, closes, rfl⟩ | last
    · exact (none_ (first.marks_eq plainA)).elim
    · obtain rfl := body.marks_eq plainBody
      obtain ⟨w, readsW⟩ := body.reads
      have count : 0 < p.groupCount := by
        simp only [Pattern.groupCount, eq, Regex.lastGroup]
        omega
      refine ⟨w, ?_, Pattern.groupText_toMatch count rfl rfl (inside.reads opens) readsW⟩
      rw [reads.word_eq ((opens.trans readsW).trans closes)]
    · exact (none_ (last.marks_eq plainB)).elim
  · cases shape

theorem directivePart_holds : holdsBetween "&lt;".toList "&gt;".toList directivePart.parsed.regex := by decide +kernel

/-- The parts of a directive are marked line by line. -/
theorem markDirective_marked {t : Token} (raw : t.escaped = false) :
    (markDirective t).Marked OneLine (escapeChars t.text.toList) := by
  have tagless := Filter.tagless_of_raw raw
  refine Token.marked_markup (Token.escapeToken_escaped t) ?_
  refine Pattern.replaceWith_keeps (R := Nests OneLine) (S := Nests OneLine) .append id
    (Pattern.cuts_of_plain tagless) ?_ (Token.marked_of_raw raw)
  intro o u v y marks inside covers reads nests
  have plain : '<' ∉ v := fun member => tagless (Filter.mem_of_reads inside reads member)
  obtain ⟨_, rfl, _, ended⟩ := Nests.cut_plain (b := []) (by simpa using nests) plain
  cases ended
  rw [List.append_nil] at nests ⊢
  have whole : (directivePart.toMatch ⟨o.pos, u, marks⟩).text (Source.ofString (Markup.escapeToken t).text) =
      String.ofList v := Pattern.text_toMatch inside reads
  have block : ∀ kind : Kind, WellNamed kind → Nests OneLine (Markup.tagBlock kind (String.ofList v) true).toList v :=
    fun kind named => Nests.tagBlock (by rwa [String.toList_ofList]) named
  simp only [whole]
  split
  · exact block .string (by decide)
  · split
    · next angled =>
      simp only [Bool.and_eq_true] at angled
      have insideSource : o.In (Source.ofString (Markup.escapeToken t).text).chars := inside
      obtain ⟨w, rfl, group⟩ := group_of_holdsBetween directivePart_holds insideSource covers reads angled.2
      rw [group]
      simp only [List.append_assoc] at nests plain ⊢
      obtain ⟨_, eq, opens, rest⟩ := nests.cut_plain (by decide)
      obtain rfl := List.append_cancel_left eq
      have inner : '<' ∉ w := fun member => plain (List.mem_append_right _ (List.mem_append_left _ member))
      obtain ⟨_, eq, between, closes⟩ := rest.cut_plain inner
      obtain rfl := List.append_cancel_left eq
      have tagged : Nests OneLine (Markup.tagBlock .string (String.ofList w) true).toList w :=
        Nests.tagBlock (by rwa [String.toList_ofList]) (by decide)
      simpa only [String.toList_append, List.append_assoc] using opens.append (tagged.append closes)
    · exact block .comment (by decide)

theorem markDirective_kind (t : Token) : (markDirective t).kind = t.kind := Token.escapeToken_kind t

end Filters

/-- What the entries of the table are checked for. -/
theorem entries_fine : ∀ e ∈ C.grammar.patterns.entries, e.pattern.parsed.regex.consumes ∧ WellNamed e.kind := by
  decide +kernel

theorem grammar_handlers : C.grammar.handlers = [(.preprocessor, preprocessor)] := rfl

theorem grammar_covers : C.grammar.Covers Token.IsRaw := by
  refine ⟨fun e member => (entries_fine e member).1, ?_, fun e member _ => (entries_fine e member).2⟩
  intro e member handler handled
  have listed := Keyed.mem_of_get? handled
  rw [grammar_handlers, List.mem_singleton] at listed
  obtain ⟨_, rfl⟩ := Prod.mk.inj listed
  exact preprocessor_covers (entries_fine e member).1

theorem grammar_named : C.grammar.Named := by
  have words := ((Grammar.named_withFilters "c").wordsOf .function functions (by decide)).wordsOf .keyword keywords
    (by decide)
  have full := words.wordsOf .type types (by decide)
  exact ⟨full.words, full.ruleMap⟩

theorem filters_lines (ctx : FilterContext) (named : ctx.Named) : Filter.Lines ctx C.grammar.filters := by
  refine Filter.Lines.withFilters_concat named "c" (f := ⟨some "preprocessor", .preprocessor, fun _ => markDirective⟩)
    (by decide) fun t raw wellNamed => ⟨markDirective_marked raw, ?_⟩
  intro kind eq
  exact wellNamed kind ((markDirective_kind t).symm.trans eq)

end C

namespace Haskell

section Handlers

/-- A run of dashes is recorded with the characters that go with it. -/
theorem dashes_covers {p : Pattern} (leads : p.parsed.regex.lead.head? = some '-') :
    dashes.Covers p Token.IsRaw := by
  intro start src s m a b marks occurs here h
  obtain ⟨u, inside, posU, rest⟩ := h.sound.spot
  obtain ⟨w, reads⟩ := Regex.Matches.lead occurs.covers
  have posA : u.pos = a.pos := by
    rw [posU, ← occurs.start, here]
    rfl
  obtain rfl := inside.eq_of_pos occurs.inside posA
  obtain ⟨more, dash⟩ : ∃ more, s.cursor.restChars = '-' :: more := by
    rw [rest, reads.rest]
    cases lead : p.parsed.regex.lead with
    | nil => simp [lead] at leads
    | cons c front =>
      obtain rfl : c = '-' := by simpa [lead] using leads
      exact ⟨_, rfl⟩
  simp only [dashes]
  refine yields_bind.mpr (yields_ofCursor.mpr (yields_bind.mpr (yields_ofCursor.mpr (yields_bind.mpr
    (yields_ofCursor.mpr ?_)))))
  have front : ∀ (fits : Char → Bool) (kind : Kind), fits '-' = true → WellNamed kind →
      Yields (do
        Scan.setPos (s.cursor.pos + Text.byteSize (s.cursor.restChars.takeWhile fits))
        Scan.recordRange s.cursor.pos (s.cursor.pos + Text.byteSize (s.cursor.restChars.takeWhile fits)) (some kind)) s
        (fun _ s' => Recorded src Token.IsRaw start s'.pos s' ∧ s.pos < s'.pos ∧ s'.regions = s.regions)
        fun _ _ => False := by
    intro fits kind fit named
    have some_ : 0 < Text.byteSize (s.cursor.restChars.takeWhile fits) := by
      have size : 0 < '-'.utf8Size := by decide
      rw [dash, List.takeWhile_cons_of_pos fit, Text.byteSize_cons]
      omega
    refine h.recordFront List.takeWhile_append_dropWhile.symm (by rintro _ ⟨⟩; exact named) ?_
    intro s' recorded at_ regions
    exact ⟨recorded, by omega, regions⟩
  split
  · exact front (· != '\n') .comment (by decide) (by decide)
  · exact front isOperatorChar .operator (by decide) (by decide)

theorem comment_regex : commentOpen.parsed.regex = .text ['\x7b', '-'] := by decide +kernel

theorem comment_covers {p : Pattern} (same : p.parsed.regex = .text ['\x7b', '-']) :
    Handler.Covers (fun _ => Scan.nestable .comment commentOpen commentClose) p Token.IsRaw := by
  intro start src s m a b marks occurs here h
  have opens : commentOpen.parsed.regex.consumes := by
    rw [comment_regex]
    decide
  refine h.nestable opens (by decide) ⟨a, occurs.inside, occurs.start.symm.trans here, b, marks, ?_⟩ ?_
  · rw [Pattern.Covers, comment_regex, ← same]
    exact occurs.covers
  · exact fun s' recorded further regions => ⟨recorded, further, regions⟩

end Handlers

/-- What the entries of the table are checked for. -/
theorem entries_fine : ∀ e ∈ Haskell.grammar.patterns.entries, e.pattern.parsed.regex.consumes ∧ WellNamed e.kind ∧
    (e.kind = dashesKind → e.pattern.parsed.regex.lead.head? = some '-') ∧
    (e.kind = nestedComment → e.pattern.parsed.regex = .text ['\x7b', '-']) := by decide +kernel

theorem grammar_handlers : Haskell.grammar.handlers =
    [(nestedComment, fun _ => Scan.nestable .comment commentOpen commentClose), (dashesKind, dashes)] := rfl

theorem grammar_covers : Haskell.grammar.Covers Token.IsRaw := by
  refine ⟨fun e member => (entries_fine e member).1, ?_, fun e member _ => (entries_fine e member).2.1⟩
  intro e member handler handled
  obtain ⟨_, _, isDashes, isComment⟩ := entries_fine e member
  have listed := Keyed.mem_of_get? handled
  rw [grammar_handlers] at listed
  simp only [List.mem_cons, Prod.mk.injEq, List.not_mem_nil, or_false] at listed
  rcases listed with ⟨kind, rfl⟩ | ⟨kind, rfl⟩
  · exact comment_covers (isComment kind)
  · exact dashes_covers (isDashes kind)

theorem grammar_named : Haskell.grammar.Named := by
  have words := ((Grammar.named_withFilters "haskell").wordsOf .keyword keywords (by decide)).wordsOf .type types
    (by decide)
  have full := (words.wordsOf .function functions (by decide)).wordsOf .value values (by decide)
  exact ⟨full.words, full.ruleMap⟩

/-- Words that are known may change their kind only. -/
theorem mapType_marked {ctx : FilterContext} (named : ctx.Named) {t : Token} (raw : t.escaped = false)
    (wellNamed : t.Named) : (mapType ctx t).Marked OneLine (escapeChars t.text.toList) ∧ (mapType ctx t).Named := by
  simp only [mapType]
  split
  · next kind found =>
    refine ⟨(Token.marked_of_raw raw).of_eq rfl rfl, ?_⟩
    rintro _ ⟨⟩
    have word := named.words t.text
    rwa [WordMap.classify, found] at word
  · exact ⟨Token.marked_of_raw raw, wellNamed⟩

theorem filters_lines (ctx : FilterContext) (named : ctx.Named) : Filter.Lines ctx Haskell.grammar.filters :=
  Filter.Lines.withFilters_concat named "haskell" (f := ⟨some "map-type", .type, mapType⟩) (by decide)
    fun _ raw wellNamed => mapType_marked named raw wellNamed

end Haskell

/-- Any text can be highlighted as C and as Haskell, whatever the scanner did before. It can be read back from its
markup, each line of which is nested on its own. -/
theorem compiled_lines (s : ScanState) (text : String) :
    (∃ (out : String) (y : FlatScanner),
      Scanner.highlight text ({ grammar := C.grammar, state := { s with outline := none } } : FlatScanner) = .ok out y ∧
        Markup.strip out = text ∧ ∀ line ∈ Text.splitLines out.toList, Markup.Nested line) ∧
    ∃ (out : String) (y : FlatScanner),
      Scanner.highlight text ({ grammar := Haskell.grammar, state := { s with outline := none } } : FlatScanner) =
          .ok out y ∧
        Markup.strip out = text ∧ ∀ line ∈ Text.splitLines out.toList, Markup.Nested line :=
  ⟨FlatScanner.highlight_covered C.grammar_covers C.grammar_named rfl C.filters_lines s text,
    FlatScanner.highlight_covered Haskell.grammar_covers Haskell.grammar_named rfl Haskell.filters_lines s text⟩

end Gloss.Language

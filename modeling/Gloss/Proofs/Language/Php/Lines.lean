import Gloss.Proofs.Filter.Lines
import Gloss.Proofs.Language.Php.Code
import Gloss.Proofs.Markup.Telling
import Gloss.Proofs.Scan.Hosted

/-!
The lines of highlighted code. In a string, escapes are put into tags first and variables then, so that the element of
a variable may hold those of escapes. The tag of the string is broken at line ends, but that of a variable is not, and
an escape may end with the brace that a variable ends with. Where no variable in braces goes over a line end or ends in
an escape, each line of the markup is nested on its own.
-/
namespace Gloss.Language.Php

open Text (Spot Source splitLines)
open Markup (Nests OneLine escapeChars unescapeChars)

/-- Each variable in braces stands on one line, and no backslash stands before the brace at its end. -/
def Steady (text : List Char) : Prop :=
  ∀ opener ∈ openers, ∀ front inner behind, text = front ++ opener ++ inner ++ '\x7d' :: behind → '\x7d' ∉ inner →
    OneLine inner ∧ inner.getLast? ≠ some '\\'

theorem Steady.part {a b c : List Char} (h : Steady (a ++ b ++ c)) : Steady b := by
  rintro opener opens front inner behind rfl open_
  exact h opener opens (a ++ front) inner (behind ++ c) (by simp) open_

/-- Where no brace is closed, there are no variables in braces. -/
theorem steady_of_not_mem {text : List Char} (absent : '\x7d' ∉ text) : Steady text := by
  rintro opener opens front inner behind rfl
  simp at absent

/-- Escaping the characters that markup uses changes nothing about variables. -/
theorem Steady.escaped {text : List Char} (h : Steady text) : Steady (escapeChars text) := by
  intro opener opens front inner behind eq open_
  have whole : text = unescapeChars front ++ opener ++ unescapeChars inner ++ '\x7d' :: unescapeChars behind := by
    have shown := congrArg unescapeChars eq
    rw [Markup.unescapeChars_escapeChars] at shown
    rw [shown]
    simp only [openers, List.mem_cons, List.not_mem_nil, or_false] at opens
    rcases opens with rfl | rfl
    all_goals
      simp only [List.append_assoc, List.cons_append, List.nil_append]
      rw [Markup.unescapeChars_append_char (by decide), Markup.unescapeChars_cons (by decide),
        Markup.unescapeChars_append_char (by decide)]
  have absent : ∀ c, Markup.isEntityChar c = false → (c ∉ unescapeChars inner ↔ c ∉ inner) := by
    intro c other
    rw [← List.count_eq_zero, ← List.count_eq_zero, Markup.count_unescapeChars other]
  obtain ⟨line, last⟩ := h opener opens _ _ _ whole ((absent _ (by decide)).mpr open_)
  refine ⟨(absent _ (by decide)).mp line, fun backslash => last ?_⟩
  obtain ⟨more, rfl⟩ := List.getLast?_eq_some_iff.mp backslash
  rw [Markup.unescapeChars_append_char (by decide)]
  exact List.getLast?_concat

/-- The markup of an escape. The characters that variables begin and end with are escaped alone. -/
structure Escaped (inner : List Char) : Prop where
  text : Filter.EscapeText inner
  lone : ∀ c ∈ ['$', '\x7b', '\x7d'], c ∈ inner → inner = ['\\', c]

theorem Escaped.oneLine {inner : List Char} (h : Escaped inner) : OneLine inner := h.text.line

theorem Escaped.split {c : Char} {left right : List Char} (h : Escaped (left ++ c :: right))
    (symbol : c ∈ ['$', '\x7b', '\x7d']) : left = ['\\'] ∧ right = [] := by
  have whole := h.lone c symbol (by simp)
  cases left with
  | nil =>
    obtain ⟨rfl, _⟩ := List.cons.inj whole
    exact absurd symbol (by decide)
  | cons d left =>
    obtain ⟨rfl, rest⟩ := List.cons.inj whole
    cases left with
    | nil => exact ⟨rfl, (List.cons.inj rest).2⟩
    | cons e left => simp at rest

/-- Does the expression stand for a backslash and a text that holds the characters of variables alone? -/
def escapes : Regex → Bool
  | .seq (.text ['\\']) r => ['$', '\x7b', '\x7d'].all (Regex.lone · r)
  | _ => false

theorem escaped_of_covers {p : Pattern} (line : p.parsed.regex.avoids '\n') (leads : p.parsed.regex.lead = ['\\'])
    (shape : escapes p.parsed.regex) {o t : Spot} {v : List Char} {marks : Regex.Marks} (covers : p.Covers o t marks)
    (reads : Spot.Reads o v t) (tagless : '<' ∉ v) : Escaped v := by
  refine ⟨Filter.escapeText_of_covers line leads covers reads tagless, ?_⟩
  intro c symbol member
  rw [Pattern.Covers] at covers
  unfold escapes at shape
  split at shape
  · next r eq =>
    rw [eq] at covers
    obtain ⟨u, _, ⟨first, _⟩, behind⟩ := covers
    obtain ⟨w, readsW⟩ := Regex.Matches.reads behind
    obtain rfl := reads.word_eq (first.trans readsW)
    have alone := List.all_eq_true.mp shape c symbol
    have other : '\\' ∉ ['$', '\x7b', '\x7d'] := by decide
    rcases List.mem_append.mp member with here | later
    · rw [List.mem_singleton.mp here] at symbol
      exact absurd symbol other
    · rw [Regex.eq_of_lone alone behind readsW later]
      rfl
  · cases shape

theorem stringEscapes_escaped {t : Token} (raw : t.escaped = false) :
    (Filter.stringEscapes t).Marked Escaped (escapeChars t.text.toList) := by
  have shape : escapes Filter.escapePattern.parsed.regex := by decide +kernel
  simp only [Filter.stringEscapes]
  split
  · exact Filter.marked_tagMatches (Token.marked_of_raw raw) (Filter.tagless_of_raw raw) (by decide)
      (escaped_of_covers Filter.escape_shape.1 Filter.escape_shape.2 shape)
  · exact Token.marked_of_raw raw

section Cuts

variable {a b v shown : List Char}

/-- Markup can be cut in front of a variable. -/
theorem Variable.cut (h : Variable v) (nests : Nests Escaped (a ++ (v ++ b)) shown) :
    ∃ x y, shown = x ++ y ∧ Nests Escaped a x ∧ Nests Escaped (v ++ b) y := by
  obtain ⟨c, d, rest, rfl, symbol, plain⟩ := h.head
  have outside : Markup.isOutside c ∧ c ≠ '<' ∧ c ≠ '>' := by
    simp only [List.mem_cons, List.not_mem_nil, or_false] at symbol
    rcases symbol with rfl | rfl <;> decide
  rcases nests.place outside.1 with ⟨x, y, rfl, before, behind⟩ | within
  · exact ⟨x, c :: y, rfl, before, .char outside.2 behind⟩
  · -- The first character would be escaped, and a tag would follow.
    have symbols : c ∈ ['$', '\x7b', '\x7d'] := List.mem_append_left ['\x7d'] symbol
    generalize onward : (d :: rest).append b = tail at within
    cases within with
    | mk before named inside fit behind =>
      obtain ⟨_, rfl⟩ := fit.split symbols
      exact absurd (List.cons.inj onward).1 plain

/-- Markup can be cut behind a variable that is steady, and it stands on one line. -/
theorem Variable.fit (h : Variable v) (nests : Nests Escaped (v ++ b) shown) (steady : Steady shown) :
    OneLine v ∧ ∃ x y, shown = x ++ y ∧ Nests Escaped v x ∧ Nests Escaped b y := by
  cases h with
  | @bare c rest tagless line =>
    have absent : '<' ∉ '$' :: c :: rest := by simpa using tagless
    obtain ⟨y, rfl, matched, behind⟩ := nests.cut_plain absent
    exact ⟨by simpa [OneLine] using line, _, y, rfl, matched, behind⟩
  | @braced opener inner opens open_ =>
    have plain : ∀ opener ∈ openers, '<' ∉ opener ∧ OneLine opener := by decide
    obtain ⟨tagless, single⟩ := plain opener opens
    rw [List.append_assoc, List.singleton_append] at nests
    rcases nests.place (by decide) with ⟨x, y, rfl, before, behind⟩ | within
    · have matched : Nests Escaped (opener ++ inner ++ ['\x7d']) (x ++ ['\x7d']) :=
        before.append (.char (by decide) .nil)
      obtain ⟨shownInner, rfl, _, insideInner⟩ := before.cut_plain tagless
      obtain ⟨line, _⟩ := steady opener opens [] shownInner y (by simp)
        fun member => open_ (insideInner.shows.mem member)
      refine ⟨?_, _, y, by simp, matched, behind⟩
      have lineInner : OneLine inner := fun member => line (insideInner.mem_shown (by decide) member)
      simp only [OneLine, List.mem_append, not_or] at single lineInner ⊢
      exact ⟨⟨single, lineInner⟩, by decide⟩
    · generalize whole : opener ++ inner = front at within
      cases within with
      | @mk front name left right markup x y z before named inside fit behind =>
        -- The brace would be escaped, and so a backslash would stand before it.
        obtain ⟨rfl, rfl⟩ := fit.split (by decide)
        have begins : front ++ '<' :: (name ++ ['>', '\\']) = opener ++ inner := by
          rw [whole]
          simp [Markup.opening]
        obtain ⟨more, rfl, rfl⟩ := Markup.past_word tagless begins
        obtain ⟨shownMore, rfl, _, insideMore⟩ := before.cut_plain tagless
        obtain ⟨nothing, rfl, _, ended⟩ := inside.cut_plain (a := ['\\', '\x7d']) (b := []) (by decide)
        cases ended
        have open' : '\x7d' ∉ shownMore ++ ['\\'] := by
          have absent : '\x7d' ∉ shownMore := fun member =>
            open_ (List.mem_append_left _ (insideMore.shows.mem member))
          simpa using absent
        obtain ⟨_, last⟩ := steady opener opens [] (shownMore ++ ['\\']) z (by simp) open'
        exact absurd List.getLast?_concat last

/-- Nested markup of escapes that shows a steady text. -/
def Escapes (markup shown : List Char) : Prop := Nests Escaped markup shown ∧ Steady shown

variable {p : Pattern} (isVar : isVariable p.parsed.regex)

include isVar

theorem cuts_of_isVariable (text : List Char) : p.Cuts Escapes text := by
  rintro s o t w v shown marks _ reads covers readsMatch ⟨nests, steady⟩
  have variable_ := variable_of_covers isVar covers readsMatch
  rw [reads.rest, readsMatch.rest] at nests
  obtain ⟨x, onward, rfl, before, nests⟩ := variable_.cut nests
  have steadyOnward : Steady onward := Steady.part (c := []) (by simpa using steady)
  obtain ⟨_, y, z, rfl, matched, behind⟩ := variable_.fit nests steadyOnward
  refine ⟨x, y, z, by simp, ⟨before, ?_⟩, ⟨matched, ?_⟩, ⟨behind, ?_⟩⟩
  · exact Steady.part (a := []) (by simpa using steady)
  · exact Steady.part (by simpa using steady)
  · exact Steady.part (a := x ++ y) (c := []) (by simpa using steady)

theorem oneLine_of_isVariable {o t : Spot} {marks : Regex.Marks} (covers : p.Covers o t marks)
    (reads : Spot.Reads o v t) (h : Escapes v shown) : OneLine v := by
  obtain ⟨nests, steady⟩ := h
  exact ((variable_of_covers isVar covers reads).fit (b := []) (by simpa using nests) steady).1

end Cuts

section Tokens

variable {ctx : FilterContext} {t u : Token} {x : List Char}

theorem interpolate_marked (h : t.Marked Escaped x) (steady : Steady x) : (interpolate t).Marked OneLine x := by
  simp only [interpolate]
  split
  · refine Token.marked_markup (Token.escapeToken_escaped t) ?_
    refine Markup.tagMatches_nests (R := Escapes) (by decide) (fun both => both.1.mono fun _ => Escaped.oneLine)
      (cuts_of_isVariable isVariable_interpolated _) ?_ ⟨h, steady⟩
    intro o t v y marks _
    exact oneLine_of_isVariable isVariable_interpolated
  · exact h.mono fun _ => Escaped.oneLine

/-- A token of steady text is rendered with each of its elements on one line. -/
theorem filterToken_nests (named : ctx.Named) (raw : t.escaped = false) (wellNamed : t.Named)
    (steady : Steady t.text.toList) (recast : t.Recast u) :
    Nests OneLine (Markup.renderToken (Php.grammar.filterToken ctx u)).toList (escapeChars t.text.toList) := by
  have rawU : u.escaped = false := recast.escaped.trans raw
  have namedU := recast.named wellNamed
  rw [← recast.text] at steady ⊢
  have sameKind : ∀ u' : Token, u'.kind = u.kind → u'.Named := by
    intro u' same k eq
    exact namedU k (same ▸ eq)
  simp only [Grammar.filterToken]
  cases eq : u.kind with
  | none => exact (Token.marked_of_raw rawU).render namedU
  | some kind =>
    by_cases string : kind = .string
    · subst string
      show Nests OneLine (Markup.renderToken (interpolate (Filter.stringEscapes u))).toList _
      refine (interpolate_marked (stringEscapes_escaped rawU) steady.escaped).render (sameKind _ ?_)
      rw [interpolate_kind, Filter.stringEscapes_kind]
    by_cases heredoc : kind = .heredoc
    · subst heredoc
      show Nests OneLine (Markup.renderToken (interpolate u)).toList _
      exact (interpolate_marked (Token.marked_of_raw rawU) steady.escaped).render (sameKind _ interpolate_kind)
    by_cases isNowdoc : kind = nowdoc
    · subst isNowdoc
      show Nests OneLine (Markup.renderToken { u with kind := some .heredoc }).toList _
      refine Token.Marked.render (t := { u with kind := some .heredoc }) (Token.marked_of_raw rawU) ?_
      rintro k ⟨⟩
      decide
    · have usual : Php.grammar.filtersFor kind = (Grammar.withFilters "php").filters.filter (·.kind == kind) := by
        rw [Grammar.filtersFor, grammar_filters, List.filter_append]
        simp [@eq_comm _ _ kind, string, heredoc, isNowdoc]
      obtain ⟨marked, still⟩ := Filter.withFilters_marked named "php" eq rawU namedU
      simp only [usual]
      exact marked.render still

end Tokens

/-- Code that is recorded from the start of a steady text is rendered with each of its elements on one line. -/
theorem tagged_nests {text : String} {stop : Nat} {s : ScanState} (steady : Steady text.toList)
    (recorded : Recorded (.ofString text) Token.IsRaw ⟨0, []⟩ stop s) :
    Nests OneLine (Php.grammar.tagged s).1.toList (escapeChars ((Source.ofString text).between 0 stop)) := by
  have whole : (Source.ofString text).between 0 stop ++ (Source.ofString text).between stop (Source.ofString text).size =
      text.toList := by
    rw [Source.between_append recorded.first recorded.last (Source.ofString text).isBoundary_size recorded.le
      (Source.isBoundary_le recorded.last), Source.between_whole, Source.chars_ofString]
  have named := grammar_named.context recorded.defs
  refine Grammar.tagged_nests recorded (grammar_renders named) fun t u a c part raw wellNamed recast => ?_
  rw [← whole, part, List.append_assoc] at steady
  exact filterToken_nests named raw wellNamed steady.part recast

/-- Each line of highlighted code is nested on its own if no variable in braces goes over a line end or ends with an
escaped brace. -/
theorem highlight_lines {text out : String} {y : PhpCodeScanner} (steady : Steady text.toList)
    (ran : Scanner.highlight text ({} : PhpCodeScanner) = .ok out y) :
    ∀ line ∈ splitLines out.toList, Markup.Nested line := by
  have run : Yields (Scanner.highlight text : EStateM ScanError PhpCodeScanner String) {}
      (fun out _ => ∀ line ∈ splitLines out.toList, Markup.Nested line) fun _ _ => True := by
    simp only [Scanner.highlight]
    refine yields_bind.mpr (yields_modify.mpr (yields_bind.mpr ?_))
    have begun : CodeAble (.ofString text) (Scanner.setSource ({} : PhpCodeScanner) (.ofString text)) :=
      ⟨rfl, (ScanState.blank_setSource rfl _).toSane⟩
    refine ((code_covers (.ofString text)).main begun).mono ?_ fun _ _ _ => trivial
    rintro _ z ⟨able, recorded, _⟩
    refine yields_modifyGet.mpr ?_
    have same : (Scanner.tagged z : String × PhpCodeScanner).1 = (Php.grammar.tagged z.state).1 := by
      rw [← able.grammar]
      rfl
    rw [same]
    obtain ⟨first, lines, eq, nested⟩ := Nests.lines (tagged_nests (s := z.state) steady recorded)
    rw [eq]
    exact nested
  simp only [Yields, ran] at run
  exact run

example {out : String} {y : PhpCodeScanner}
    (ran : Scanner.highlight "echo \"$a\n\\n$b\";" ({} : PhpCodeScanner) = .ok out y) :
    ∀ line ∈ splitLines out.toList, Markup.Nested line :=
  highlight_lines (steady_of_not_mem (by decide)) ran

end Gloss.Language.Php

import Gloss.Filter.Defaults
import Gloss.Proofs.Markup.Replaces
import Gloss.Proofs.Regex.Words

/-!
Filters change how a token is marked up, not the text that it shows, and each line of the markup stays nested. A
token that is no markup yet shows its text with the characters escaped that markup uses. Marking matches in it is
safe for any pattern, since there is no tag to cut into; in markup that has tags already it is safe for a pattern
whose matches neither start nor end inside of an element. What earlier filters put into elements is known: notes are
names with a colon, and escapes start with a backslash.
-/
namespace Gloss

open Text (Spot Source)
open Markup (Shows WellNamed)

namespace Token

/-- The token, as markup, shows these characters. -/
def Shown (t : Token) (x : List Char) : Prop := Shows (Markup.escapeToken t).text.toList x

/-- The token, as nested markup, shows these characters. -/
def Marked (Fit : List Char → Prop) (t : Token) (x : List Char) : Prop :=
  Markup.Nests Fit (Markup.escapeToken t).text.toList x

/-- Every kind of the token can stand in a tag. -/
def Named (t : Token) : Prop := ∀ kind, t.kind = some kind → WellNamed kind

theorem escapeToken_raw {t : Token} (raw : t.escaped = false) :
    (Markup.escapeToken t).text.toList = Markup.escapeChars t.text.toList := by
  simp [Markup.escapeToken, raw, Markup.escape]

theorem marked_of_raw {Fit : List Char → Prop} {t : Token} (raw : t.escaped = false) :
    t.Marked Fit (Markup.escapeChars t.text.toList) := by
  rw [Marked, escapeToken_raw raw]
  exact .escapeChars _

theorem shown_of_raw {t : Token} (raw : t.escaped = false) : t.Shown (Markup.escapeChars t.text.toList) := by
  rw [Shown, escapeToken_raw raw]
  exact Markup.shows_escapeChars _

theorem Marked.shown {Fit : List Char → Prop} {t : Token} {x : List Char} (h : t.Marked Fit x) : t.Shown x := h.shows

/-- A token of raw text shows nothing but its text. -/
theorem Shown.eq_of_raw {t : Token} {x : List Char} (h : t.Shown x) (raw : t.escaped = false) :
    x = Markup.escapeChars t.text.toList := by
  rw [Shown, escapeToken_raw raw] at h
  obtain ⟨y, rfl, rest⟩ := Shows.cut_plain (b := []) (by simpa using h) (Markup.not_mem_escapeChars (.inl rfl) _)
  cases rest
  simp

theorem escapeToken_escaped (t : Token) : (Markup.escapeToken t).escaped = true := by
  simp only [Markup.escapeToken]
  split
  · assumption
  · rfl

@[simp] theorem escapeToken_kind (t : Token) : (Markup.escapeToken t).kind = t.kind := by
  simp only [Markup.escapeToken]
  split <;> rfl

@[simp] theorem escapeToken_escapeToken (t : Token) :
    Markup.escapeToken (Markup.escapeToken t) = Markup.escapeToken t := by
  have escaped := escapeToken_escaped t
  generalize Markup.escapeToken t = u at escaped
  simp [Markup.escapeToken, escaped]

theorem escapeToken_text_congr {t u : Token} (text : u.text = t.text) (escaped : u.escaped = t.escaped) :
    (Markup.escapeToken u).text = (Markup.escapeToken t).text := by
  simp only [Markup.escapeToken, escaped, text]
  split <;> simp_all

/-- A change of the kind alone shows the same. -/
theorem Shown.of_eq {t u : Token} {x : List Char} (h : t.Shown x) (text : u.text = t.text)
    (escaped : u.escaped = t.escaped) : u.Shown x := by
  rw [Shown, escapeToken_text_congr text escaped]
  exact h

theorem Marked.of_eq {Fit : List Char → Prop} {t u : Token} {x : List Char} (h : t.Marked Fit x)
    (text : u.text = t.text) (escaped : u.escaped = t.escaped) : u.Marked Fit x := by
  rw [Marked, escapeToken_text_congr text escaped]
  exact h

theorem Marked.mono {Fit Fit' : List Char → Prop} {t : Token} {x : List Char} (h : t.Marked Fit x)
    (weaken : ∀ inner, Fit inner → Fit' inner) : t.Marked Fit' x := Markup.Nests.mono h weaken

/-- A token of new markup shows what the markup does. -/
theorem shown_markup {t : Token} {x : List Char} (escaped : t.escaped = true) (h : Shows t.text.toList x) :
    t.Shown x := by
  simpa [Shown, Markup.escapeToken, escaped] using h

theorem marked_markup {Fit : List Char → Prop} {t : Token} {x : List Char} (escaped : t.escaped = true)
    (h : Markup.Nests Fit t.text.toList x) : t.Marked Fit x := by
  simpa [Marked, Markup.escapeToken, escaped] using h

/-- A token in its tag shows the same. -/
theorem Shown.render {t : Token} {x : List Char} (h : t.Shown x) (named : t.Named) :
    Shows (Markup.renderToken t).toList x := by
  simp only [Markup.renderToken]
  cases eq : t.kind with
  | none => exact h
  | some kind => exact Shows.tagBlock h (named kind eq) true

/-- Elements that stay on their lines do so in the tag of the token. -/
theorem Marked.render {t : Token} {x : List Char} (h : t.Marked Markup.OneLine x) (named : t.Named) :
    Markup.Nests Markup.OneLine (Markup.renderToken t).toList x := by
  simp only [Markup.renderToken]
  cases eq : t.kind with
  | none => exact h
  | some kind => exact Markup.Nests.tagBlock h (named kind eq)

end Token

namespace Filter

open Regex

variable {t : Token} {x : List Char}

/-- Marking matches in a token shows the same. -/
theorem shown_tagMatches {p : Pattern} {kind : Kind} (h : t.Shown x) (named : WellNamed kind)
    (cuts : p.Cuts Shows (Markup.escapeToken t).text.toList) :
    Token.Shown
      { Markup.escapeToken t with text := Markup.tagMatches p (Markup.escapeToken t).text kind } x :=
  Token.shown_markup (Token.escapeToken_escaped t) (Markup.tagMatches_shows named cuts h)

theorem mem_of_reads {text v : List Char} {o u : Spot} {c : Char} (inside : o.In text) (reads : Spot.Reads o v u)
    (member : c ∈ v) : c ∈ text := by
  obtain ⟨w, whole⟩ := inside
  have eq : text = w ++ o.rest := whole.rest
  rw [eq, reads.rest]
  exact List.mem_append_right _ (List.mem_append_left _ member)

/-- Marking matches in a token without tags leaves nothing but the matches in elements. -/
theorem marked_tagMatches {p : Pattern} {kind : Kind} {Fit : List Char → Prop} (h : t.Marked Fit x)
    (tagless : '<' ∉ (Markup.escapeToken t).text.toList) (named : WellNamed kind)
    (fit : ∀ {o u : Spot} {v : List Char} {marks : Marks}, p.Covers o u marks → Spot.Reads o v u → '<' ∉ v → Fit v) :
    Token.Marked Fit
      { Markup.escapeToken t with text := Markup.tagMatches p (Markup.escapeToken t).text kind } x := by
  refine Token.marked_markup (Token.escapeToken_escaped t)
    (Markup.tagMatches_nests named id (Pattern.cuts_of_plain tagless) ?_ h)
  intro o u v y marks inside covers reads _
  exact fit covers reads fun member => tagless (mem_of_reads inside reads member)

theorem tagless_of_raw (raw : t.escaped = false) : '<' ∉ (Markup.escapeToken t).text.toList := by
  rw [Token.escapeToken_raw raw]
  exact Markup.not_mem_escapeChars (.inl rfl) _

/-- The text of a note: names and colons. -/
def NoteText (inner : List Char) : Prop := inner.all fun c => Markup.isNameChar c || c == ':'

theorem note_regex : notePattern.parsed.regex =
    .seq (.look .wordBoundary)
      (.seq (.alt (.text ['N', 'O', 'T', 'E']) (.alt (.text ['X', 'X', 'X']) (.alt (.text ['F', 'I', 'X', 'M', 'E'])
          (.alt (.text ['T', 'O', 'D', 'O']) (.alt (.text ['H', 'A', 'C', 'K']) (.text ['B', 'U', 'G']))))))
        (.times 0 (some 1) true (.text [':']))) := by
  decide +kernel

theorem noteText_of_covers {o u : Spot} {v : List Char} {marks : Marks} (covers : notePattern.Covers o u marks)
    (reads : Spot.Reads o v u) : NoteText v := by
  simp only [Pattern.Covers, note_regex] at covers
  obtain ⟨b, _, ⟨_, here, _⟩, a, _, word, colon⟩ := covers
  have first : ∃ w, Spot.Reads o w a ∧ NoteText w := by
    rw [← here]
    rcases word with word | word | word | word | word | word <;> exact ⟨_, word.1, rfl⟩
  obtain ⟨w, readsW, named⟩ := first
  rcases matches_optional.mp colon with ⟨rfl, _⟩ | ⟨readsColon, _⟩
  · rwa [reads.word_eq readsW]
  · rw [reads.word_eq (readsW.trans readsColon), NoteText, List.all_append, Bool.and_eq_true]
    exact ⟨named, rfl⟩

theorem commentNote_marked (h : t.Marked NoteText x) (tagless : '<' ∉ (Markup.escapeToken t).text.toList) :
    (commentNote t).Marked NoteText x := by
  simp only [commentNote]
  split
  · exact marked_tagMatches h tagless (by decide) fun covers reads _ => noteText_of_covers covers reads
  · exact h

/-- The markup of an escape: a backslash and more on its line, with no tag in it. -/
structure EscapeText (inner : List Char) : Prop where
  line : Markup.OneLine inner
  tagless : '<' ∉ inner
  backslash : ∃ rest, inner = '\\' :: rest

theorem escape_shape : escapePattern.parsed.regex.avoids '\n' ∧ escapePattern.parsed.regex.lead = ['\\'] := by
  decide +kernel

/-- A pattern that starts with a backslash and stays on one line matches escapes. -/
theorem escapeText_of_covers {p : Pattern} (line : p.parsed.regex.avoids '\n') (leads : p.parsed.regex.lead = ['\\'])
    {o u : Spot} {v : List Char} {marks : Marks} (covers : p.Covers o u marks) (reads : Spot.Reads o v u)
    (tagless : '<' ∉ v) : EscapeText v := by
  obtain ⟨w, readsW, absent⟩ := Regex.Matches.avoids line covers
  obtain ⟨rest, readsRest⟩ := Regex.Matches.lead covers
  rw [leads] at readsRest
  obtain rfl := reads.word_eq readsW
  exact ⟨absent, tagless, rest, reads.word_eq readsRest⟩

theorem stringEscapes_marked (h : t.Marked EscapeText x) (tagless : '<' ∉ (Markup.escapeToken t).text.toList) :
    (stringEscapes t).Marked EscapeText x := by
  simp only [stringEscapes]
  split
  · exact marked_tagMatches h tagless (by decide) (escapeText_of_covers escape_shape.1 escape_shape.2)
  · exact h

@[simp] theorem commentNote_kind (t : Token) : (commentNote t).kind = t.kind := by
  simp only [commentNote]
  split <;> simp

@[simp] theorem stringEscapes_kind (t : Token) : (stringEscapes t).kind = t.kind := by
  simp only [stringEscapes]
  split <;> simp

section DocComment

theorem docLine_regex : docLinePattern.parsed.regex =
    .seq (.look .lineStart)
      (.seq (.group 1 (.times 0 none true
          (.set (CharSet.blank.union ⟨[(33, 33), (35, 35), (42, 42), (47, 47)]⟩))))
        (.seq (.group 2 (.set ⟨[(64, 64), (92, 92)]⟩))
          (.seq (.group 3 (.times 0 none true (.set CharSet.blank.negate)))
            (.seq (.times 0 (some 1) true (.group 4 (.seq (.set ⟨[(9, 9), (32, 32)]⟩)
                (.times 0 none true (.set .notNewline)))))
              (.look .lineEnd))))) := by
  decide +kernel

/-- The parts of a line with a tag: what leads up to it, its mark, its name and the rest of the line. -/
structure DocLine (src : Source) (m : Match) (v lead : List Char) (mark : Char) (tag line : List Char) :
    Prop where
  whole : v = lead ++ mark :: (tag ++ line)
  plain : '<' ∉ lead
  name : Markup.OneLine (mark :: tag)
  single : Markup.OneLine line
  blank : line = [] ∨ ∃ c rest, line = c :: rest ∧ Unicode.isBlank c
  leadText : m.groupText src 1 = String.ofList lead
  markText : m.groupText src 2 = String.ofList [mark]
  tagText : m.groupText src 3 = String.ofList tag
  lineText : m.groupText src 4 = String.ofList line

/-- What holds of all characters in the ranges of a set holds of its members. -/
theorem holds_of_mem {P : Char → Bool} (members : CharSet) (all : members.ranges.all fun (lo, hi) =>
      (List.range' lo (hi + 1 - lo)).all fun n => P (Char.ofNat n)) {c : Char} (mem : members.mem c) : P c := by
  simp only [CharSet.mem] at mem
  generalize members.ranges = ranges at all mem
  induction ranges with
  | nil => cases mem
  | cons range ranges ih =>
    obtain ⟨lo, hi⟩ := range
    simp only [List.all_cons, Bool.and_eq_true, List.all_eq_true, List.mem_range'_1] at all
    simp only [Unicode.RangeTable.holds] at mem
    split at mem
    · cases mem
    · split at mem
      · have here := all.1 c.toNat (by omega)
        rwa [Char.ofNat_toNat] at here
      · exact ih (by simpa only [List.all_eq_true, List.mem_range'_1] using all.2) mem

theorem docLine_parts (src : Source) {o t : Spot} {v : List Char} {marks : Regex.Marks}
    (covers : docLinePattern.Covers o t marks) (reads : Spot.Reads o v t) (inside : o.In src.chars) :
    ∃ lead mark tag line,
      DocLine src (docLinePattern.toMatch ⟨o.pos, t, marks⟩) v lead mark tag line := by
  have count : docLinePattern.groupCount = 4 := by decide +kernel
  simp only [Pattern.Covers, docLine_regex] at covers
  obtain ⟨_, _, ⟨_, rfl, rfl⟩, a, _, ⟨_, first, rfl⟩, b, _, ⟨_, ⟨mark, markMem, second, rfl⟩, rfl⟩, c, _,
    ⟨_, third, rfl⟩, _, _, fourth, _, rfl, rfl⟩ := covers
  obtain ⟨rfl, lead, readsLead, _, _, leadMem⟩ := matches_times_set.mp first
  obtain ⟨rfl, tag, readsTag, _, _, tagMem⟩ := matches_times_set.mp third
  have insideA := inside.reads readsLead
  have insideB := insideA.reads second
  have insideC := insideB.reads readsTag
  have plain : '<' ∉ lead := by
    intro member
    have := leadMem _ member
    revert this
    decide +kernel
  have name : Markup.OneLine (mark :: tag) := by
    intro member
    rcases List.mem_cons.mp member with rfl | member
    · revert markMem
      decide
    · have := tagMem _ member
      revert this
      decide +kernel
  rcases matches_optional.mp fourth with ⟨rfl, rfl⟩ | ⟨_, ⟨d, _, ⟨e, blankMem, firstLine, rfl⟩, more⟩, rfl⟩
  · refine ⟨lead, mark, tag, [], ?_, plain, name, by simp [Markup.OneLine], .inl rfl, ?_, ?_, ?_, ?_⟩
    · have parts := (readsLead.trans second).trans readsTag
      simpa using reads.word_eq parts
    · exact Pattern.groupText_toMatch (by omega) rfl rfl inside readsLead
    · exact Pattern.groupText_toMatch (by omega) rfl rfl insideA second
    · exact Pattern.groupText_toMatch (by omega) rfl rfl insideB readsTag
    · exact Pattern.groupText_toMatch_none (by omega) rfl
  · obtain ⟨rfl, rest, readsRest, _, _, restMem⟩ := matches_times_set.mp more
    have readsLine := firstLine.trans readsRest
    have single : Markup.OneLine (e :: rest) := by
      intro member
      rcases List.mem_cons.mp member with rfl | member
      · revert blankMem
        decide
      · have := restMem _ member
        revert this
        decide
    refine ⟨lead, mark, tag, e :: rest, ?_, plain, name, single, .inr ⟨e, rest, rfl, ?_⟩, ?_, ?_, ?_, ?_⟩
    · have parts := ((readsLead.trans second).trans readsTag).trans readsLine
      simpa using reads.word_eq parts
    · exact holds_of_mem ⟨[(9, 9), (32, 32)]⟩ (by decide) blankMem
    · exact Pattern.groupText_toMatch (by omega) rfl rfl inside readsLead
    · exact Pattern.groupText_toMatch (by omega) rfl rfl insideA second
    · exact Pattern.groupText_toMatch (by omega) rfl rfl insideB readsTag
    · exact Pattern.groupText_toMatch (by omega) rfl rfl insideC readsLine

/-- White space, line ends and braces stand in no note. -/
theorem apart_of_isOutside {c : Char} (outside : Markup.isOutside c) (other : c ≠ ':') : Markup.Apart NoteText c := by
  refine ⟨outside, ?_⟩
  intro inner note member
  have := List.all_eq_true.mp note c member
  simp only [Bool.or_eq_true, beq_iff_eq, other, or_false] at this
  simp [Markup.isOutside, Markup.isTagChar, this] at outside

theorem apart_of_isBlank {c : Char} (blank : Unicode.isBlank c) : Markup.Apart NoteText c := by
  refine apart_of_isOutside (holds_of_mem CharSet.blank (by decide +kernel) blank) ?_
  rintro rfl
  revert blank
  decide

theorem oneLine_of_noteText {inner : List Char} (note : NoteText inner) : Markup.OneLine inner :=
  (apart_of_isBlank (by decide)).absent inner note

theorem docBrace_regex : docBracePattern.parsed.regex =
    .seq (.text ['\x7b']) (.seq (.times 0 none true (.set (CharSet.single '\x7d').negate)) (.text ['\x7d'])) := by
  decide +kernel

/-- Text in braces starts and ends outside of notes. -/
theorem docBrace_cuts (text : List Char) : docBracePattern.Cuts (Markup.Nests NoteText) text := by
  intro s o t w v shown marks inside reads covers readsMatch nests
  have parts : ∃ inner, v = '\x7b' :: (inner ++ ['\x7d']) := by
    simp only [Pattern.Covers, docBrace_regex] at covers
    obtain ⟨a, _, ⟨first, rfl⟩, b, _, middle, last, rfl⟩ := covers
    obtain ⟨inner, readsInner⟩ := middle.reads
    exact ⟨inner, by simpa using readsMatch.word_eq ((first.trans readsInner).trans last)⟩
  obtain ⟨inner, rfl⟩ := parts
  rw [reads.rest, readsMatch.rest, List.cons_append, List.append_assoc inner, List.singleton_append] at nests
  obtain ⟨x, y, rfl, before, onward⟩ := nests.cut_before (apart_of_isOutside (by decide) (by decide))
  rw [← List.cons_append] at onward
  obtain ⟨y, z, rfl, matched, after⟩ := onward.cut_after (apart_of_isOutside (by decide) (by decide))
  exact ⟨x, y, z, by simp, before, by simpa using matched, after⟩

private theorem drop_length_takeWhile (p : Char → Bool) (s : List Char) :
    s.drop (s.takeWhile p).length = s.dropWhile p := by
  have whole := List.takeWhile_append_dropWhile (p := p) (l := s)
  have dropped : (s.takeWhile p ++ s.dropWhile p).drop (s.takeWhile p).length = s.dropWhile p :=
    List.drop_left
  rwa [whole] at dropped

private theorem dropWhile_head {p : Char → Bool} {s rest : List Char} {c : Char}
    (eq : s.dropWhile p = c :: rest) : p c = false := by
  induction s with
  | nil => cases eq
  | cons d s ih =>
    simp only [List.dropWhile_cons] at eq
    split at eq
    · exact ih eq
    · cases eq
      simp_all

/-- Blanks at the front of markup and the word behind them can be cut off. -/
theorem cut_first_word {line shown : List Char} (h : Markup.Nests NoteText line shown) :
    let blank := line.takeWhile Unicode.isBlank
    let name := (line.drop blank.length).takeWhile (!Unicode.isBlank ·)
    blank ++ name <+: line ∧ ∃ x y, shown = x ++ y ∧ Markup.Nests NoteText (blank ++ name) x ∧
      Markup.Nests NoteText (line.drop (blank.length + name.length)) y := by
  intro blank name
  have word : line.drop blank.length = line.dropWhile Unicode.isBlank := drop_length_takeWhile _ _
  have behind : line.drop (blank.length + name.length) =
      (line.dropWhile Unicode.isBlank).dropWhile (!Unicode.isBlank ·) := by
    rw [← List.drop_drop]
    simp only [name]
    rw [word, drop_length_takeWhile]
  have whole : line = (blank ++ name) ++ line.drop (blank.length + name.length) := by
    rw [behind, List.append_assoc]
    simp only [name, word, List.takeWhile_append_dropWhile]
    exact List.takeWhile_append_dropWhile.symm
  refine ⟨⟨_, whole.symm⟩, ?_⟩
  rw [whole] at h
  cases rest : line.drop (blank.length + name.length) with
  | nil =>
    rw [rest, List.append_nil] at h
    exact ⟨shown, [], by simp, h, .nil⟩
  | cons c rest' =>
    rw [rest] at h
    refine h.cut_before (apart_of_isBlank ?_)
    rw [behind] at rest
    simpa using dropWhile_head rest

/-- The line of a tag can be marked up without a change of what it shows. -/
theorem docTagLine_nests {lead tag line y : List Char} {mark : Char}
    (h : Markup.Nests NoteText (lead ++ mark :: (tag ++ line)) y) (plain : '<' ∉ lead)
    (name : Markup.OneLine (mark :: tag)) (single : Markup.OneLine line)
    (blank : line = [] ∨ ∃ c rest, line = c :: rest ∧ Unicode.isBlank c) :
    Markup.Nests Markup.OneLine (docTagLine (String.ofList lead) (String.ofList [mark]) (String.ofList tag)
      (String.ofList line)).toList y := by
  have weaken : ∀ inner, NoteText inner → Markup.OneLine inner := fun _ => oneLine_of_noteText
  obtain ⟨afterLead, rfl, showsLead, onward⟩ := h.cut_plain plain
  -- The mark and the name of the tag are cut off where the line goes on with a blank, or ends.
  have cut : ∃ a b, afterLead = a ++ b ∧ Markup.Nests NoteText (mark :: tag) a ∧ Markup.Nests NoteText line b := by
    rcases blank with rfl | ⟨c, rest, rfl, blank⟩
    · exact ⟨afterLead, [], by simp, by simpa using onward, .nil⟩
    · rw [← List.cons_append] at onward
      exact onward.cut_before (apart_of_isBlank blank)
  obtain ⟨a, b, rfl, showsTag, showsLine⟩ := cut
  have head : Markup.Nests Markup.OneLine
      (lead ++ (Markup.tagBlock .docTag (String.ofList [mark] ++ String.ofList tag) false).toList) (lead ++ a) := by
    refine (showsLead.mono weaken).append ?_
    rw [Markup.toList_block]
    have named : WellNamed .docTag := by decide
    simpa using (showsTag.mono weaken).wrap named name
  rw [← List.append_assoc]
  simp only [docTagLine]
  split
  · simp only [String.toList_append, String.toList_ofList] at head ⊢
    refine head.append (Markup.tagMatches_nests (by decide) (·.mono weaken) (docBrace_cuts _) ?_ (by simpa using showsLine))
    intro o t v y marks inside _ reads _ member
    exact single (by simpa using mem_of_reads inside reads member)
  · split
    · obtain ⟨front, c, d, rfl, showsName, showsRest⟩ := cut_first_word showsLine
      simp only [String.toList_append, String.toList_ofList] at head ⊢
      rw [← List.append_assoc (lead ++ a)]
      refine (head.append ?_).append (showsRest.mono weaken)
      have named : WellNamed .docProperty := by decide
      rw [Markup.toList_block, String.toList_ofList]
      exact (showsName.mono weaken).wrap named fun member => single (front.subset member)
    · simp only [String.toList_append, String.toList_ofList] at head ⊢
      exact head.append (showsLine.mono weaken)

/-- A line starts and ends outside of notes, which hold no line ends. -/
theorem docLine_cuts (text : List Char) : docLinePattern.Cuts (Markup.Nests NoteText) text := by
  intro s o t w v shown marks inside reads covers readsMatch nests
  have apart : Markup.Apart NoteText '\n' := apart_of_isBlank (by decide)
  have looks : Assertion.holds .lineStart o ∧ Assertion.holds .lineEnd t := by
    simp only [Pattern.Covers, docLine_regex] at covers
    obtain ⟨_, _, ⟨start, rfl, rfl⟩, _, _, _, _, _, _, _, _, _, _, _, _, stop, rfl, rfl⟩ := covers
    exact ⟨start, stop⟩
  have atStart : ∃ x y, shown = x ++ y ∧ Markup.Nests NoteText w x ∧ Markup.Nests NoteText o.rest y := by
    rw [reads.rest] at nests
    cases last : w.getLast? with
    | none =>
      obtain rfl := List.getLast?_eq_none_iff.mp last
      exact ⟨[], shown, rfl, .nil, nests⟩
    | some c =>
      obtain ⟨front, rfl⟩ := List.getLast?_eq_some_iff.mp last
      have newline : c = '\n' := by
        have := looks.1
        simpa [Assertion.holds, reads.before] using this
      subst newline
      rw [List.append_assoc, List.singleton_append] at nests
      exact nests.cut_after apart
  obtain ⟨x, y, rfl, before, onward⟩ := atStart
  rw [readsMatch.rest] at onward
  have atEnd : ∃ a b, y = a ++ b ∧ Markup.Nests NoteText v a ∧ Markup.Nests NoteText t.rest b := by
    cases rest : t.rest with
    | nil =>
      rw [rest, List.append_nil] at onward
      exact ⟨y, [], by simp, onward, .nil⟩
    | cons c rest' =>
      have newline : c = '\n' := by
        have := looks.2
        simpa [Assertion.holds, rest] using this
      subst newline
      rw [rest] at onward
      exact onward.cut_before apart
  obtain ⟨a, b, rfl, matched, after⟩ := atEnd
  exact ⟨x, a, b, by simp, before, matched, after⟩

theorem docComment_marked {t : Token} {x : List Char} (h : t.Marked NoteText x) :
    (docComment t).Marked Markup.OneLine x := by
  have weaken : ∀ inner, NoteText inner → Markup.OneLine inner := fun _ => oneLine_of_noteText
  simp only [docComment]
  split
  · refine Token.marked_markup (Token.escapeToken_escaped t)
      (Pattern.replaceWith_keeps (R := Markup.Nests NoteText) (S := Markup.Nests Markup.OneLine) .append
        (·.mono weaken) (docLine_cuts _) ?_ h)
    intro o t' v y marks inside covers reads matched
    obtain ⟨lead, mark, tag, line, parts⟩ :=
      docLine_parts (Source.ofString (Markup.escapeToken t).text) covers reads inside
    rw [parts.leadText, parts.markText, parts.tagText, parts.lineText]
    rw [parts.whole] at matched
    exact docTagLine_nests matched parts.plain parts.name parts.single parts.blank
  · exact h.mono weaken

end DocComment

section RegexParts

theorem throughFirst?_some {fits : Char → Bool} {s front rest : List Char}
    (found : throughFirst? fits s = some (front, rest)) :
    s = front ++ rest ∧ ∃ before c, front = before ++ [c] ∧ fits c := by
  simp only [throughFirst?] at found
  split at found
  · cases found
  · next c behind eq =>
    cases found
    have whole := List.takeWhile_append_dropWhile (p := (!fits ·)) (l := s)
    rw [eq] at whole
    refine ⟨by simpa using whole.symm, _, c, rfl, ?_⟩
    simpa using dropWhile_head eq

theorem throughFirst?_append {fits : Char → Bool} {front r : List Char} {c : Char}
    (absent : ∀ d ∈ front, fits d = false) (fit : fits c) :
    throughFirst? fits (front ++ c :: r) = some (front ++ [c], r) := by
  have taken : (front ++ c :: r).takeWhile (!fits ·) = front := by
    rw [List.takeWhile_append_of_pos (by simpa using absent)]
    simp [fit]
  have dropped : (front ++ c :: r).dropWhile (!fits ·) = c :: r := by
    rw [List.dropWhile_append_of_pos (by simpa using absent)]
    simp [fit]
  simp only [throughFirst?, dropped, taken]

/-- From an opening tag on the whole element is passed over, if there is no other in it. -/
theorem throughClosing_element {name inner rest : List Char} (named : ∀ c ∈ name, Markup.isNameChar c)
    (tagless : '<' ∉ inner) :
    throughClosing (Markup.element name inner ++ rest) = (Markup.element name inner, rest) := by
  have close : throughFirst? (· == '>') (name ++ '>' :: rest) = some (name ++ ['>'], rest) := by
    refine throughFirst?_append ?_ (by decide)
    intro d member
    rw [beq_eq_false_iff_ne]
    exact Markup.ne_close_of_isTagChar (Markup.isTagChar_of_isNameChar (named d member))
  -- Nothing in front of the closing tag opens one.
  have onward : ∀ front : List Char, '<' ∉ front →
      throughClosing (front ++ '<' :: '/' :: (name ++ '>' :: rest)) = (front ++ Markup.closing name, rest) := by
    intro front absent
    induction front with
    | nil => simp [throughClosing, close, Markup.closing]
    | cons c front ih =>
      simp only [List.mem_cons, not_or] at absent
      rw [List.cons_append, throughClosing.eq_3 _ _ fun _ opens _ => absent.1 opens.symm, ih absent.2]
      rfl
  have opens : '<' ∉ name ++ '>' :: inner := by
    simp [tagless, Markup.not_mem_of_isNameChar named (show Markup.isNameChar '<' = false by decide)]
  have first : ∀ more, name ++ '>' :: inner ++ '<' :: '/' :: (name ++ '>' :: rest) ≠ '/' :: more := by
    intro more eq
    cases name with
    | nil => cases eq
    | cons d name =>
      have slash := named d List.mem_cons_self
      rw [(List.cons.inj eq).1] at slash
      revert slash
      decide
  have whole : Markup.element name inner ++ rest =
      '<' :: (name ++ '>' :: inner ++ '<' :: '/' :: (name ++ '>' :: rest)) := by
    simp [Markup.element_append]
  rw [whole, throughClosing.eq_3 _ _ fun more _ eq => first more eq, onward _ opens]
  simp [Markup.element, Markup.opening]

/-- Every ampersand starts an entity, in which there is no backslash. -/
def Entities (shown : List Char) : Prop :=
  ∀ a b, shown = a ++ '&' :: b → ∃ w z, b = w ++ ';' :: z ∧ '\\' ∉ w ∧ ';' ∉ w

theorem Entities.back {x y : List Char} (h : Entities (x ++ y)) : Entities y := by
  rintro a b rfl
  exact h (x ++ a) b (by simp)

theorem Entities.append {x y : List Char} (first : Entities x) (second : Entities y) : Entities (x ++ y) := by
  intro a b eq
  rcases List.append_eq_append_iff.mp eq with ⟨left, rfl, rest⟩ | ⟨left, rfl, rest⟩
  · exact second left b rest
  · cases left with
    | nil => exact second [] b rest.symm
    | cons d left =>
      obtain ⟨rfl, rfl⟩ := List.cons.inj rest
      obtain ⟨w, z, rfl, absent⟩ := first a left rfl
      exact ⟨w, z ++ y, by simp, absent⟩

/-- What stands in front of text without semicolons has whole entities only. -/
theorem Entities.front {x y : List Char} (h : Entities (x ++ y)) (absent : ';' ∉ y) : Entities x := by
  rintro a b rfl
  obtain ⟨w, z, eq, none_⟩ := h a (b ++ y) (by simp)
  rcases List.append_eq_append_iff.mp eq with ⟨left, rfl, rfl⟩ | ⟨left, rfl, rest⟩
  · simp at absent
  · cases left with
    | nil =>
      rw [← (show ';' :: z = y from rest)] at absent
      simp at absent
    | cons d left =>
      obtain rfl := (List.cons.inj rest).1
      exact ⟨w, left, rfl, none_⟩

theorem entities_of_not_mem {x : List Char} (absent : '&' ∉ x) : Entities x := by
  rintro a b rfl
  simp at absent

theorem entities_entity {w : List Char} (amp : '&' ∉ w) (absent : '\\' ∉ w ∧ ';' ∉ w) :
    Entities ('&' :: (w ++ [';'])) := by
  intro a b eq
  cases a with
  | nil => exact ⟨w, [], (List.cons.inj eq).2.symm, absent⟩
  | cons d a =>
    have member : '&' ∈ w ++ [';'] := by
      rw [(List.cons.inj eq).2]
      simp
    simp [amp] at member

theorem entities_escapeChars (s : List Char) : Entities (Markup.escapeChars s) := by
  induction s with
  | nil => exact entities_of_not_mem (by simp)
  | cons c s ih =>
    rw [Markup.escapeChars_cons]
    refine .append ?_ ih
    simp only [Markup.escapeChar]
    split
    · exact entities_entity (w := ['a', 'm', 'p']) (by decide) (by decide)
    · split
      · exact entities_entity (w := ['l', 't']) (by decide) (by decide)
      · split
        · exact entities_entity (w := ['g', 't']) (by decide) (by decide)
        · next amp _ _ => exact entities_of_not_mem (by simpa using Ne.symm amp)

/-- Where escapes are marked, an element begins with a backslash; so text without one stands outside of them. -/
theorem cut_shown {w z s : List Char} (h : Markup.Nests EscapeText s (w ++ z)) (absent : '\\' ∉ w) :
    ∃ rest, s = w ++ rest ∧ Markup.Nests EscapeText w w ∧ Markup.Nests EscapeText rest z := by
  induction w generalizing s with
  | nil => exact ⟨s, rfl, .nil, h⟩
  | cons c w ih =>
    simp only [List.mem_cons, not_or] at absent
    generalize whole : c :: w ++ z = shown at h
    cases h with
    | nil => cases whole
    | char plain more =>
      obtain ⟨rfl, rfl⟩ := List.cons.inj whole
      obtain ⟨rest, rfl, front, back⟩ := ih more absent.2
      exact ⟨rest, rfl, .char plain front, back⟩
    | element named inside fit more =>
      obtain ⟨rest, rfl⟩ := fit.backslash
      obtain ⟨y, rfl, _⟩ := inside.char_inv (by decide)
      exact absurd (List.cons.inj whole).1.symm absent.1

theorem oneLine_of_escapeText {inner : List Char} (h : EscapeText inner) : Markup.OneLine inner := h.line

theorem nests_wrapChars {kind : Kind} {front x : List Char} (named : WellNamed kind)
    (h : Markup.Nests EscapeText front x) (line : Markup.OneLine front) :
    Markup.Nests Markup.OneLine (wrapChars kind.name front) x := by
  simp only [wrapChars, Markup.toList_openTag, Markup.toList_closeTag]
  exact (h.mono fun _ => oneLine_of_escapeText).wrap named line

/-- The characters that introduce the kind of a group open no tag and end no line. -/
theorem groupMark_plain (rest : List Char) : '<' ∉ ('?' :: rest).take (groupMark rest) ∧
    Markup.OneLine (('?' :: rest).take (groupMark rest)) := by
  simp only [groupMark, Markup.OneLine]
  split
  · next named =>
    simp only [Bool.or_eq_true, List.isPrefixOf_iff_prefix] at named
    rcases named with ⟨more, rfl⟩ | ⟨more, rfl⟩ <;> simp
  · split
    · next c more _ =>
      split
      · next letter =>
        have each : ∀ d, d = '<' ∨ d = '\n' → d ≠ c := by
          rintro d (rfl | rfl) rfl <;> revert letter <;> decide
        simp [each]
      · simp
    · simp

/-- A count has nothing but digits and a comma. -/
theorem isRepeatCount_chars {inner : List Char} (count : isRepeatCount inner) {d : Char} (member : d ∈ inner) :
    d.isDigit ∨ d = ',' := by
  simp only [isRepeatCount, drop_length_takeWhile] at count
  rw [← List.takeWhile_append_dropWhile (p := (· != ',')) (l := inner)] at member
  split at count
  · next none_ =>
    simp only [Bool.and_eq_true, List.all_eq_true] at count
    rw [none_, List.append_nil] at member
    exact .inl (count.2 d member)
  · next comma hi behind =>
    simp only [Bool.and_eq_true, List.all_eq_true] at count
    rw [behind] at member
    rcases List.mem_append.mp member with member | member
    · exact .inl (count.1.1 d member)
    · rcases List.mem_cons.mp member with rfl | member
      · exact .inr (by simpa using dropWhile_head behind)
      · exact .inl (count.1.2 d member)

/-- A count in braces opens no tag and ends no line. -/
theorem repeatMarker?_plain {s front rest : List Char} (found : repeatMarker? ('\x7b' :: s) = some (front, rest)) :
    '\x7b' :: s = front ++ rest ∧ '<' ∉ front ∧ Markup.OneLine front := by
  simp only [repeatMarker?] at found
  split at found
  · next through =>
    split at found
    · next count =>
      cases found
      obtain ⟨eq, before, c, rfl, close⟩ := throughFirst?_some through
      obtain rfl : c = '\x7d' := by simpa using close
      cases before with
      | nil => cases eq
      | cons d inner =>
        obtain ⟨rfl, _⟩ := List.cons.inj eq
        have none_ : ∀ d, d.isDigit = false → d ≠ ',' → d ≠ '\x7b' → d ≠ '\x7d' → d ∉ '\x7b' :: inner ++ ['\x7d'] := by
          intro d digit comma open_ close member
          simp only [List.cons_append, List.mem_cons, List.mem_append, open_, close, false_or, or_false,
            List.not_mem_nil] at member
          rcases isRepeatCount_chars count (d := d) (by simpa using member) with isDigit | isComma
          · rw [digit] at isDigit
            cases isDigit
          · exact comma isComma
        exact ⟨eq, none_ '<' (by decide) (by decide) (by decide) (by decide),
          none_ '\n' (by decide) (by decide) (by decide) (by decide)⟩
    · cases found
  · cases found

theorem oneLine_takeWhile (s : List Char) : Markup.OneLine (s.takeWhile (· != '\n')) := by
  intro member
  have := List.all_eq_true.mp List.all_takeWhile _ member
  simp at this

/-- A line of markup, from its front to its end. -/
theorem cut_line {s shown : List Char} (h : Markup.Nests EscapeText s shown) :
    ∃ x y, shown = x ++ y ∧ Markup.Nests EscapeText (s.takeWhile (· != '\n')) x ∧
      Markup.Nests EscapeText (s.dropWhile (· != '\n')) y := by
  rw [← List.takeWhile_append_dropWhile (p := (· != '\n')) (l := s)] at h
  cases behind : s.dropWhile (· != '\n') with
  | nil =>
    rw [behind, List.append_nil] at h
    exact ⟨shown, [], by simp, h, .nil⟩
  | cons d behind' =>
    obtain rfl : d = '\n' := by simpa using dropWhile_head behind
    rw [behind] at h
    exact h.cut_before ⟨by decide, fun _ escape => escape.line⟩

/-- Marking up the body of a regular expression shows the same. Each step cuts off a front of the markup that
is passed over or wrapped. -/
theorem markRegexFrom_nests {extended : Bool} {fuel : Nat} {prev : Char} {s shown : List Char}
    (h : Markup.Nests EscapeText s shown) (entities : Entities shown) :
    Markup.Nests Markup.OneLine (markRegexFrom extended fuel prev s) shown := by
  induction fuel generalizing prev s shown with
  | zero => exact h.mono fun _ => oneLine_of_escapeText
  | succ fuel ih =>
    cases s with
    | nil => exact h.mono fun _ => oneLine_of_escapeText
    | cons c rest =>
      -- A front that is cut off, with what becomes of it, in front of the rest.
      have onward : ∀ {front out back : List Char} {prev : Char},
          (∃ x y, shown = x ++ y ∧ Markup.Nests EscapeText front x ∧ Markup.Nests EscapeText back y) →
          (∀ x, Markup.Nests EscapeText front x → Markup.Nests Markup.OneLine out x) →
          Markup.Nests Markup.OneLine (out ++ markRegexFrom extended fuel prev back) shown := by
        rintro front out back prev ⟨x, y, rfl, first, second⟩ change
        exact (change x first).append (ih second entities.back)
      have passed : ∀ {front : List Char} (x : List Char), Markup.Nests EscapeText front x →
          Markup.Nests Markup.OneLine front x := fun _ first => first.mono fun _ => oneLine_of_escapeText
      have single : c ≠ '<' →
          ∃ x y, shown = x ++ y ∧ Markup.Nests EscapeText [c] x ∧ Markup.Nests EscapeText rest y := by
        intro plain
        obtain ⟨y, rfl, here, more⟩ := h.char_inv plain
        exact ⟨[c], y, rfl, here, more⟩
      have plainFront : ∀ {front back : List Char}, c :: rest = front ++ back → '<' ∉ front →
          ∃ x y, shown = x ++ y ∧ Markup.Nests EscapeText front x ∧ Markup.Nests EscapeText back y := by
        intro front back eq plain
        rw [eq] at h
        obtain ⟨y, rfl, first, more⟩ := h.cut_plain plain
        exact ⟨front, y, rfl, first, more⟩
      have wrapped : ∀ (kind : Kind) {front : List Char}, Markup.OneLine front → WellNamed kind → ∀ x,
          Markup.Nests EscapeText front x → Markup.Nests Markup.OneLine (wrapChars kind.name front) x :=
        fun _ _ line named _ first => nests_wrapChars named first line
      simp only [markRegexFrom]
      split
      · obtain ⟨name, inner, x, markup, y, eq, rfl, named, inside, fit, more⟩ := h.open_inv
        rw [eq, throughClosing_element named fit.tagless]
        exact onward ⟨x, y, rfl, inside.wrap named fit, more⟩ passed
      · obtain ⟨y, rfl, amp, more⟩ := h.char_inv (by decide)
        obtain ⟨w, z, rfl, backslash, semicolon⟩ := entities [] y rfl
        have split_ : w ++ ';' :: z = (w ++ [';']) ++ z := by simp
        rw [split_] at more
        obtain ⟨back, rfl, entity, rest⟩ := cut_shown more (by simp [backslash])
        have found : throughFirst? (· == ';') ('&' :: (w ++ [';'] ++ back)) = some ('&' :: (w ++ [';']), back) := by
          have absent : ∀ d ∈ '&' :: w, (d == ';') = false := by
            intro d member
            rw [beq_eq_false_iff_ne]
            rintro rfl
            rcases List.mem_cons.mp member with eq | member
            · cases eq
            · exact semicolon member
          have through := throughFirst?_append absent (beq_self_eq_true ';') (r := back)
          simpa using through
        rw [found]
        exact onward ⟨'&' :: (w ++ [';']), z, by simp, amp.append entity, rest⟩ passed
      · exact onward (single (by decide)) (wrapped ⟨"REGEX_OPERATOR"⟩ (by decide) (by decide))
      · exact onward (single (by decide)) (wrapped ⟨"REGEX_OPERATOR"⟩ (by decide) (by decide))
      · exact onward (single (by decide)) (wrapped ⟨"REGEX_OPERATOR"⟩ (by decide) (by decide))
      · exact onward (single (by decide)) (wrapped ⟨"REGEX_OPERATOR"⟩ (by decide) (by decide))
      · split
        · obtain ⟨plain, line⟩ := groupMark_plain rest
          exact onward (plainFront (List.take_append_drop _ _).symm plain)
            (wrapped ⟨"REGEX_SUBPATTERN"⟩ line (by decide))
        · exact onward (single (by decide)) (wrapped ⟨"REGEX_OPERATOR"⟩ (by decide) (by decide))
      · exact onward (single (by decide)) (wrapped ⟨"REGEX_SUBPATTERN_MARKER"⟩ (by decide) (by decide))
      · exact onward (single (by decide)) (wrapped ⟨"REGEX_SUBPATTERN_MARKER"⟩ (by decide) (by decide))
      · exact onward (single (by decide)) (wrapped ⟨"REGEX_CLASS_MARKER"⟩ (by decide) (by decide))
      · exact onward (single (by decide)) (wrapped ⟨"REGEX_CLASS_MARKER"⟩ (by decide) (by decide))
      · split
        · next front rest' found =>
          obtain ⟨eq, plain, line⟩ := repeatMarker?_plain found
          exact onward (plainFront eq plain) (wrapped ⟨"REGEX_REPEAT_MARKER"⟩ line (by decide))
        · exact onward (single (by decide)) passed
      · split
        · rw [drop_length_takeWhile]
          exact onward (cut_line h) (wrapped ⟨"COMMENT"⟩ (oneLine_takeWhile _) (by decide))
        · exact onward (single (by decide)) passed
      · exact onward (single (by assumption)) passed

/-- The flags are letters at the end, if there are any. -/
theorem splitFlags_spec (s : List Char) :
    s = (splitFlags s).1 ++ (splitFlags s).2 ∧ ∀ c ∈ (splitFlags s).2, c.isAlpha := by
  simp only [splitFlags]
  split
  · have letters := (List.takeWhile_append_dropWhile (p := Char.isAlpha) (l := s.reverse)).symm
    have whole : s = (s.reverse.dropWhile Char.isAlpha).reverse ++ (s.reverse.takeWhile Char.isAlpha).reverse := by
      rw [← List.reverse_append, List.takeWhile_append_dropWhile, List.reverse_reverse]
    have front : s.take (s.length - (s.reverse.takeWhile Char.isAlpha).length) =
        (s.reverse.dropWhile Char.isAlpha).reverse := by
      have length := congrArg List.length letters
      rw [List.length_reverse, List.length_append] at length
      conv => lhs; rw [whole]
      rw [List.take_left']
      rw [List.length_reverse, ← whole]
      omega
    rw [front]
    refine ⟨whole, ?_⟩
    intro c member
    exact List.all_eq_true.mp List.all_takeWhile _ (List.mem_reverse.mp member)
  · exact ⟨by simp, by simp⟩

theorem markRegex_nests {text : String} {shown : List Char} (h : Markup.Nests EscapeText text.toList shown)
    (entities : Entities shown) : Markup.Nests Markup.OneLine (markRegex text).toList shown := by
  obtain ⟨whole, letters⟩ := splitFlags_spec text.toList
  have none_ : ∀ c, c.isAlpha = false → c ∉ (splitFlags text.toList).2 := by
    intro c other member
    rw [letters c member] at other
    cases other
  rw [whole] at h
  -- No tag is closed and no entity ends in the flags.
  obtain ⟨x, y, rfl, body, flags⟩ := h.cut_of_no_close (none_ '>' (by decide))
  have absent : ';' ∉ y := fun member => none_ ';' (by decide) (flags.shows.mem member)
  simp only [markRegex, String.toList_ofList]
  refine (markRegexFrom_nests body (entities.front absent)).append ?_
  split
  · next empty =>
    rw [List.isEmpty_iff] at empty
    rw [empty] at flags
    exact flags.mono fun _ => oneLine_of_escapeText
  · have named : WellNamed .keyword := by decide
    exact nests_wrapChars named flags (none_ '\n' (by decide))

theorem regexParts_marked {t : Token} (raw : t.escaped = false) :
    (regexParts t).Marked Markup.OneLine (Markup.escapeChars t.text.toList) := by
  have same : Markup.escapeToken (Markup.escapeToken t) = Markup.escapeToken t := Token.escapeToken_escapeToken t
  have escaped : (Markup.escapeToken t).Marked EscapeText (Markup.escapeChars t.text.toList) := by
    rw [Token.Marked, same]
    exact Token.marked_of_raw raw
  have escapes := stringEscapes_marked escaped (by rw [same]; exact tagless_of_raw raw)
  have marked : (stringEscapes (Markup.escapeToken t)).escaped = true := by
    simp only [stringEscapes]
    split
    · exact Token.escapeToken_escaped _
    · exact Token.escapeToken_escaped t
  simp only [regexParts]
  generalize stringEscapes (Markup.escapeToken t) = u at escapes marked
  simp only [Token.Marked, Markup.escapeToken, marked, if_true] at escapes
  exact Token.marked_markup marked (markRegex_nests escapes (entities_escapeChars _))

@[simp] theorem regexParts_kind (t : Token) : (regexParts t).kind = t.kind := by
  simp [regexParts]

end RegexParts

end Filter

end Gloss

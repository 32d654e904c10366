import Gloss.Proofs.Filter.Shown
import Gloss.Proofs.Pattern.Resumed
import Gloss.Proofs.Regex.Edges
import Gloss.Proofs.Regex.Everywhere

/-!
Escapes in markup that has tags already. The filter that marks escapes takes along whatever stands behind a backslash, also
the bracket that opens a tag. That tag is torn then: what is left of it is text, and is shown. So what the markup shows in
the end depends on the backslashes in it alone, and it is the text that was meant if none of them is in front of a tag and
escapes it.
-/
namespace Gloss

open Text (Spot Source)

namespace Regex

/-- May the expression begin with any character but these, whatever follows? -/
def opensAllBut (others : List Char) : Regex → Bool
  | .set members => members.allBut others
  | .alt a b => a.opensAllBut others || b.opensAllBut others
  | _ => false

theorem opens_of_opensAllBut {others : List Char} {r : Regex} (all : r.opensAllBut others) {c : Char}
    (other : c ∉ others) : r.opens c := by
  induction r with
  | set members => exact CharSet.mem_of_allBut all other
  | alt a b ihA ihB =>
    simp only [opensAllBut, Bool.or_eq_true] at all
    simp only [opens, Bool.or_eq_true]
    exact all.imp ihA ihB
  | _ => cases all

/-- What the expression stands for behind a backslash, if it begins with one. -/
def pastBackslash? : Regex → Option Regex
  | .seq (.text ['\\']) r => some r
  | _ => none

theorem pastBackslash?_some {r rest : Regex} (found : r.pastBackslash? = some rest) :
    r = .seq (.text ['\\']) rest := by
  unfold pastBackslash? at found
  split at found
  · rw [Option.some.inj found]
  · cases found

end Regex

namespace Markup

/-- Markup, with the characters that it shows once the escapes in it are marked. An escape takes the character behind a
backslash along, also the bracket of a tag, and the rest of that tag is shown then. -/
inductive Torn : List Char → List Char → Prop where
  | nil : Torn [] []
  | char {c : Char} {markup shown : List Char} (plain : c ≠ '<' ∧ c ≠ '\\') (more : Torn markup shown) :
      Torn (c :: markup) (c :: shown)
  | last : Torn ['\\'] ['\\']
  | escape {c : Char} {markup shown : List Char} (plain : c ≠ '<') (more : Torn markup shown) :
      Torn ('\\' :: c :: markup) ('\\' :: c :: shown)
  | tag {name markup shown : List Char} (named : ∀ c ∈ name, isTagChar c) (more : Torn markup shown) :
      Torn ('<' :: (name ++ '>' :: markup)) shown
  | bracket {markup shown : List Char} (more : Torn markup shown) : Torn ('\\' :: '<' :: markup) ('\\' :: shown)

/-- A backslash with a character behind it that it escapes. -/
def BeginsEscape (text : List Char) : Prop := ∃ c rest, text = '\\' :: c :: rest ∧ c ≠ '\n'

namespace Torn

variable {a b w r markup shown : List Char}

/-- Text can be put in front of markup. A bracket behind it is escaped if it ends in a backslash that escapes. -/
theorem append (h : Torn b shown) (tagless : '<' ∉ a) :
    Torn (a ++ if unpaired a then '<' :: b else b) (a ++ shown) := by
  fun_induction unpaired a with
  | case1 => exact h
  | case2 c =>
    simp only [List.mem_singleton] at tagless
    by_cases backslash : c = '\\'
    · subst backslash
      exact .bracket h
    · simpa [backslash] using Torn.char ⟨Ne.symm tagless, backslash⟩ h
  | case3 d rest ih =>
    simp only [List.mem_cons, not_or] at tagless
    exact .escape (Ne.symm tagless.2.1) (ih tagless.2.2)
  | case4 c d rest plain ih =>
    rw [List.mem_cons, not_or] at tagless
    exact .char ⟨Ne.symm tagless.1, plain⟩ (ih tagless.2)

theorem of_plain (tagless : '<' ∉ a) : Torn a a := by
  fun_induction unpaired a with
  | case1 => exact .nil
  | case2 c =>
    simp only [List.mem_singleton] at tagless
    by_cases backslash : c = '\\'
    · subst backslash
      exact .last
    · exact .char ⟨Ne.symm tagless, backslash⟩ .nil
  | case3 d rest ih =>
    simp only [List.mem_cons, not_or] at tagless
    exact .escape (Ne.symm tagless.2.1) (ih tagless.2.2)
  | case4 c d rest plain ih =>
    rw [List.mem_cons, not_or] at tagless
    exact .char ⟨Ne.symm tagless.1, plain⟩ (ih tagless.2)

/-- Of an element behind a backslash that escapes, the name in the opening tag is shown too. -/
theorem element {kind : Kind} {v : List Char} (h : Torn b shown) (named : WellNamed kind) (tagless : '<' ∉ w)
    (plain : '<' ∉ v ∧ '\\' ∉ v) :
    Torn (w ++ ((openTag kind.name).toList ++ v ++ (closeTag kind.name).toList ++ b))
      (w ++ ((if unpaired w then kind.name.toList ++ ['>'] else []) ++ v ++ shown)) := by
  have close : Torn ((closeTag kind.name).toList ++ b) shown := by
    have slashed : ∀ c ∈ '/' :: kind.name.toList, isTagChar c := by
      intro c member
      rcases List.mem_cons.mp member with rfl | member
      · decide
      · exact isTagChar_of_isNameChar (named c member)
    simpa [closeTag] using Torn.tag slashed h
  have paired {a : List Char} (absent : '\\' ∉ a) : unpaired a = false := by
    simpa [unpaired] using unpaired_append absent []
  have text : Torn (v ++ (closeTag kind.name).toList ++ b) (v ++ shown) := by
    simpa [paired plain.2] using close.append plain.1
  have name : '<' ∉ kind.name.toList ++ ['>'] ∧ '\\' ∉ kind.name.toList ++ ['>'] := by
    simp [not_mem_of_isNameChar named (by decide : isNameChar '<' = false),
      not_mem_of_isNameChar named (by decide : isNameChar '\\' = false)]
  cases waits : unpaired w with
  | false =>
    have whole := (Torn.tag (fun c member => isTagChar_of_isNameChar (named c member)) text).append tagless
    simpa [waits, openTag] using whole
  | true =>
    have rest : Torn (kind.name.toList ++ ['>'] ++ (v ++ (closeTag kind.name).toList ++ b))
        (kind.name.toList ++ ['>'] ++ (v ++ shown)) := by
      simpa [paired name.2] using text.append name.1
    simpa [waits, openTag] using rest.append tagless

theorem cut_plain (h : Torn (a ++ b) shown) (plain : '<' ∉ a ∧ '\\' ∉ a) : ∃ y, shown = a ++ y ∧ Torn b y := by
  induction a generalizing shown with
  | nil => exact ⟨shown, rfl, h⟩
  | cons c a ih =>
    simp only [List.mem_cons, not_or] at plain
    rw [List.cons_append] at h
    generalize whole : a ++ b = rest at h
    cases h with
    | char _ more =>
      obtain ⟨y, rfl, behind⟩ := ih (whole ▸ more) ⟨plain.1.2, plain.2.2⟩
      exact ⟨y, rfl, behind⟩
    | tag => exact absurd rfl plain.1.1
    | last => exact absurd rfl plain.2.1
    | escape => exact absurd rfl plain.2.1
    | bracket => exact absurd rfl plain.2.1

/-- Markup can be cut in front of a backslash, or at its end, if no escape begins before that. -/
theorem cut_quiet (h : Torn (w ++ r) shown) (quiet : Pattern.Never BeginsEscape w r)
    (stops : r = [] ∨ ∃ rest, r = '\\' :: rest) : ∃ x y, shown = x ++ y ∧ Shows w x ∧ Torn r y := by
  generalize whole : w ++ r = markup at h
  -- Where nothing is left of the first part, all of the markup is behind it.
  have ended {markup shown : List Char} (h : Torn markup shown) (eq : r = markup) :
      ∃ x y, shown = x ++ y ∧ Shows [] x ∧ Torn r y := ⟨[], shown, rfl, .nil, eq ▸ h⟩
  induction h generalizing w with
  | nil =>
    obtain ⟨rfl, rfl⟩ := List.append_eq_nil_iff.mp whole
    exact ⟨[], [], rfl, .nil, .nil⟩
  | @char c markup shown plain more ih =>
    cases w with
    | nil => exact ended (.char plain more) whole
    | cons d w =>
      obtain ⟨rfl, eq⟩ : d = c ∧ w ++ r = markup := by simpa using whole
      obtain ⟨x, y, rfl, front, rest⟩ := ih (Pattern.Never.behind (v := [d]) quiet) eq
      exact ⟨d :: x, y, rfl, .char plain.1 front, rest⟩
  | last =>
    cases w with
    | nil => exact ended .last whole
    | cons d w =>
      obtain ⟨rfl, rfl, rfl⟩ : d = '\\' ∧ w = [] ∧ r = [] := by simpa using whole
      exact ⟨['\\'], [], rfl, .char (by decide) .nil, .nil⟩
  | @escape c markup shown plain more ih =>
    match w with
    | [] => exact ended (.escape plain more) whole
    | [d] =>
      obtain ⟨rfl, rfl⟩ : d = '\\' ∧ r = c :: markup := by simpa using whole
      obtain ⟨_, eq⟩ := stops.resolve_left (by simp)
      obtain ⟨rfl, _⟩ := List.cons.inj eq
      exact absurd ⟨_, _, rfl, by decide⟩ quiet.here
    | d :: e :: w =>
      obtain ⟨rfl, rfl, eq⟩ : d = '\\' ∧ e = c ∧ w ++ r = markup := by simpa using whole
      obtain ⟨x, y, rfl, front, rest⟩ := ih (Pattern.Never.behind (v := ['\\', e]) quiet) eq
      exact ⟨'\\' :: e :: x, y, rfl, .char (by decide) (.char plain front), rest⟩
  | @tag name markup shown named more ih =>
    cases w with
    | nil => exact ended (.tag named more) whole
    | cons d w =>
      obtain ⟨rfl, eq⟩ : d = '<' ∧ w ++ r = name ++ '>' :: markup := by simpa using whole
      obtain ⟨w, rfl, behind⟩ : ∃ w', w = name ++ ['>'] ++ w' ∧ w' ++ r = markup := by
        rcases stops with rfl | ⟨rest, rfl⟩
        · exact ⟨markup, by simpa using eq, by simp⟩
        · have absent : '\\' ∉ name ++ ['>'] := by
            simp only [List.mem_append, not_or]
            exact ⟨fun member => absurd (named _ member) (by decide), by decide⟩
          have whole : w ++ '\\' :: rest = name ++ ['>'] ++ markup := by simpa using eq
          obtain ⟨w', front, rest'⟩ := past_word absent whole
          exact ⟨w', front, rest'.symm⟩
      obtain ⟨x, y, rfl, front, rest⟩ := ih (Pattern.Never.behind (v := '<' :: (name ++ ['>'])) quiet) behind
      exact ⟨x, y, rfl, by simpa using Shows.tag named front, rest⟩
  | @bracket markup shown more ih =>
    match w with
    | [] => exact ended (.bracket more) whole
    | [d] =>
      obtain ⟨_, rfl⟩ : d = '\\' ∧ r = '<' :: markup := by simpa using whole
      obtain ⟨_, eq⟩ := stops.resolve_left (by simp)
      cases eq
    | d :: e :: w =>
      obtain ⟨rfl, rfl, _⟩ : d = '\\' ∧ e = '<' ∧ w ++ r = markup := by simpa using whole
      exact absurd ⟨_, _, rfl, by decide⟩ quiet.here

/-- An escape can be cut off and marked. If it takes a bracket along, that is all of it. -/
theorem cut_escape {kind : Kind} {v : List Char} (h : Torn ('\\' :: v ++ b) shown) (named : WellNamed kind)
    (some_ : v ≠ []) (lone : ∀ c ∈ ['<', '\\'], c ∈ v → v = [c]) :
    ∃ y z, shown = y ++ z ∧ Shows ((openTag kind.name).toList ++ '\\' :: v ++ (closeTag kind.name).toList) y ∧
      Torn b z := by
  obtain ⟨c, v, rfl⟩ := List.exists_cons_of_ne_nil some_
  simp only [List.cons_append] at h
  generalize whole : v ++ b = rest at h
  cases h with
  | char plain => exact absurd rfl plain.2
  | escape plain more =>
    subst whole
    have absent : ∀ d ∈ ['<', '\\'], d ∉ v := by
      intro d mark member
      obtain ⟨_, rfl⟩ := List.cons.inj (lone d mark (List.mem_cons_of_mem c member))
      cases member
    have tagless := absent '<' (by decide)
    obtain ⟨z, rfl, behind⟩ := more.cut_plain ⟨tagless, absent '\\' (by decide)⟩
    have inner : '<' ∉ '\\' :: c :: v := by simp [tagless, Ne.symm plain]
    exact ⟨'\\' :: c :: v, z, rfl, (Shows.of_plain inner).wrap (shows_openTag named) (shows_closeTag named), behind⟩
  | bracket more =>
    subst whole
    obtain ⟨_, rfl⟩ := List.cons.inj (lone '<' (by decide) List.mem_cons_self)
    refine ⟨['\\'], _, rfl, ?_, more⟩
    -- The bracket that is escaped is one tag with the tag that closes the escape.
    have close : Shows ('<' :: (closeTag kind.name).toList) [] := by
      have inTag : ∀ c ∈ '<' :: '/' :: kind.name.toList, isTagChar c := by
        intro c member
        simp only [List.mem_cons] at member
        rcases member with rfl | rfl | member
        · decide
        · decide
        · exact isTagChar_of_isNameChar (named c member)
      simpa [closeTag] using Shows.tag inTag .nil
    simpa using (shows_openTag named).append (Shows.char (by decide : '\\' ≠ '<') close)

end Torn

end Markup

namespace Filter

open Markup (Torn BeginsEscape Shows)

section Escapes

/-- Does the expression stand for a backslash and what it escapes? That is more than one character only without a bracket
or another backslash, and it may begin with any character but a line end. -/
def isEscape (r : Regex) : Bool :=
  r.pastBackslash?.any fun r => r.consumes && r.lone '<' && r.lone '\\' && r.opensAllBut ['\n']

theorem isEscape_escapePattern : isEscape escapePattern.parsed.regex := by decide +kernel

variable {p : Pattern} {kind : Kind} {o t : Spot} {shown : List Char} (escape : isEscape p.parsed.regex)

include escape

theorem starts_of_isEscape (s : Spot) (begins : BeginsEscape s.rest) : p.Starts s := by
  obtain ⟨r, past, parts⟩ := (Option.any_eq_true ..).mp escape
  simp only [Bool.and_eq_true] at parts
  obtain ⟨c, rest, text, other⟩ := begins
  have opens := Regex.opens_of_opensAllBut parts.2 (c := c) (by simpa using other)
  have slash : Spot.Reads s ['\\'] (s.step '\\' (c :: rest)) := .step text
  obtain ⟨u, mu, matched⟩ := Regex.matches_of_opens opens (s := s.step '\\' (c :: rest)) rfl []
  refine ⟨u, mu, ?_⟩
  rw [Pattern.Covers, Regex.pastBackslash?_some past]
  exact ⟨_, _, ⟨slash, rfl⟩, matched⟩

theorem text_of_isEscape {marks : Regex.Marks} (covers : p.Covers o t marks) :
    ∃ v, Spot.Reads o ('\\' :: v) t ∧ v ≠ [] ∧ ∀ c ∈ ['<', '\\'], c ∈ v → v = [c] := by
  obtain ⟨r, past, parts⟩ := (Option.any_eq_true ..).mp escape
  simp only [Bool.and_eq_true] at parts
  obtain ⟨⟨⟨consumes, bracket⟩, backslash⟩, _⟩ := parts
  rw [Pattern.Covers, Regex.pastBackslash?_some past] at covers
  obtain ⟨u, _, ⟨slash, rfl⟩, behind⟩ := covers
  obtain ⟨v, reads⟩ := Regex.Matches.reads behind
  refine ⟨v, slash.trans reads, ?_, ?_⟩
  · rintro rfl
    have some_ := behind.consumes consumes
    rw [reads.eq_of_nil] at some_
    omega
  · intro c mark member
    have alone : r.lone c := by
      simp only [List.mem_cons, List.not_mem_nil, or_false] at mark
      rcases mark with rfl | rfl
      · exact bracket
      · exact backslash
    exact Regex.eq_of_lone alone behind reads member

theorem consumes_of_isEscape : p.parsed.regex.consumes := by
  obtain ⟨r, past, parts⟩ := (Option.any_eq_true ..).mp escape
  simp only [Bool.and_eq_true, Regex.consumes] at parts
  obtain ⟨n, least, _⟩ := (Option.any_eq_true ..).mp parts.1.1.1
  have some_ : 0 < 1 + n := by omega
  simpa [Regex.pastBackslash?_some past, Regex.consumes, Regex.minLength, least] using some_

/-- Markup shows what it is torn to if the escapes in it are marked. -/
theorem shows_tagMatches_of_isEscape {text : String} (named : Markup.WellNamed kind) (torn : Torn text.toList shown) :
    Shows (Markup.tagMatches p text kind).toList shown := by
  refine Markup.tagMatches_induction (P := fun rest marked => ∀ shown, Torn rest shown → Shows marked shown)
    (consumes_of_isEscape escape) named (starts_of_isEscape escape) ?_ ?_ text shown torn
  · intro rest quiet shown torn
    rw [← List.append_nil rest] at torn
    obtain ⟨x, y, rfl, shows, ended⟩ := torn.cut_quiet quiet (.inl rfl)
    cases ended
    rwa [List.append_nil]
  · intro o t w v marked marks quiet covers reads ih shown torn
    obtain ⟨v', reads', some_, lone⟩ := text_of_isEscape escape covers
    obtain rfl := reads.word_eq reads'
    obtain ⟨x, y, rfl, front, torn⟩ := torn.cut_quiet quiet (.inr ⟨_, rfl⟩)
    obtain ⟨y, z, rfl, element, torn⟩ := torn.cut_escape named some_ lone
    exact front.append (element.append (ih z torn))

end Escapes

/-- The filter for escapes shows what the markup of a token is torn to. -/
theorem stringEscapes_torn {t : Token} {shown : List Char} (escaped : t.escaped) (torn : Torn t.text.toList shown) :
    (stringEscapes t).Shown shown := by
  have same : Markup.escapeToken t = t := by rw [Markup.escapeToken, if_pos escaped]
  simp only [stringEscapes, same]
  split
  · exact Token.shown_markup escaped (shows_tagMatches_of_isEscape isEscape_escapePattern (by decide) torn)
  · next plain =>
    have quiet : Pattern.Never BeginsEscape t.text.toList [] := by
      rintro front behind eq _ ⟨c, rest, begins, _⟩
      refine plain (List.contains_iff_mem.mpr ?_)
      rw [List.append_nil] at begins
      simp [eq, begins]
    rw [← List.append_nil t.text.toList] at torn
    obtain ⟨x, y, rfl, shows, ended⟩ := torn.cut_quiet quiet (.inl rfl)
    cases ended
    exact Token.shown_markup escaped (by simpa using shows)

end Filter

end Gloss

import Gloss.Pattern.Presets
import Gloss.Proofs.Pattern.Remains

/-!
Strings and comments are one token each. A quoted text ends behind the first quote that no backslash escapes, a comment
behind the first closing behind its opening, and what is not closed goes on to the end of its line or of the source. The
patterns prefer just these ends, so wherever something opens they match, and they match the whole of it.
-/
namespace Gloss

open Text (Spot Source)

/-- Each of the characters in the text is escaped: an unpaired backslash is in front of it. -/
def AllEscaped (marks x : List Char) : Prop := ∀ v c w, x = v ++ c :: w → c ∈ marks → unpaired v

/-- Where a text ends that a quote has opened: `word` is what belongs to it behind that quote, and `behind` is what
follows. Of the quote and the characters that the text does not go past the first one that is not escaped ends it. -/
inductive QuotedEnds (quote : Char) (stops : List Char) : List Char → List Char → Prop where
  | closed {x behind : List Char} (escaped : AllEscaped (quote :: stops) x) (paired : unpaired x = false) :
      QuotedEnds quote stops (x ++ [quote]) behind
  | stopped {x behind : List Char} {c : Char} (escaped : AllEscaped (quote :: stops) x) (paired : unpaired x = false)
      (stop : c ∈ stops) : QuotedEnds quote stops x (c :: behind)
  | unclosed {x : List Char} (escaped : AllEscaped (quote :: stops) x) : QuotedEnds quote stops x []

/-- Where a text ends that goes up to the first occurrence of its closing, or on to the end if there is none. -/
inductive FirstEnds (closing : List Char) : List Char → List Char → Prop where
  | closed {x behind : List Char} (first : ∀ v w, x ++ closing = v ++ closing ++ w → w = []) :
      FirstEnds closing (x ++ closing) behind
  | unclosed {x : List Char} (none_ : ¬ closing <:+: x) : FirstEnds closing x []

section AllEscaped

variable {marks x y : List Char}

theorem allEscaped_of_unmarked (unmarked : ∀ c ∈ x, c ∉ marks) : AllEscaped marks x := by
  rintro v c w rfl mark
  exact absurd mark (unmarked c (by simp))

theorem allEscaped_nil : AllEscaped marks [] := allEscaped_of_unmarked (by simp)

theorem allEscaped_cons {c : Char} (plain : c ∉ marks) (other : c ≠ '\\') (h : AllEscaped marks x) :
    AllEscaped marks (c :: x) := by
  intro v d w eq mark
  cases v with
  | nil =>
    obtain ⟨rfl, _⟩ := List.cons.inj eq
    exact absurd mark plain
  | cons e v =>
    obtain ⟨rfl, more⟩ := List.cons.inj eq
    rw [unpaired_cons other]
    exact h v d w more mark

theorem allEscaped_escape {c : Char} (other : '\\' ∉ marks) (h : AllEscaped marks x) :
    AllEscaped marks ('\\' :: c :: x) := by
  intro v d w eq mark
  match v with
  | [] =>
    obtain ⟨rfl, _⟩ := List.cons.inj eq
    exact absurd mark other
  | [e] =>
    obtain ⟨same, _⟩ := List.cons.inj eq
    rw [← same]
    rfl
  | e :: f :: v =>
    obtain ⟨same, more⟩ := List.cons.inj eq
    rw [← same, unpaired_escape]
    exact h v d w (List.cons.inj more).2 mark

/-- A text in which no mark is free does not go past one. -/
theorem AllEscaped.of_append (h : AllEscaped marks y) {rest behind : List Char} (eq : x ++ rest = y ++ behind)
    (free : ∀ c, rest.head? = some c → c ∈ marks ∧ unpaired x = false) : ∃ z, x = y ++ z := by
  rcases List.append_eq_append_iff.mp eq with ⟨z, rfl, rfl⟩ | ⟨z, rfl, _⟩
  · cases z with
    | nil => exact ⟨[], by simp⟩
    | cons c z =>
      obtain ⟨mark, paired⟩ := free c rfl
      rw [h x c z rfl mark] at paired
      cases paired
  · exact ⟨z, rfl⟩

end AllEscaped

section QuotedEnds

variable {quote : Char} {stops word behind : List Char}

/-- In front of its end no quote and nothing that stops the text is free; there one is, or nothing more comes. -/
theorem QuotedEnds.cases_rest (h : QuotedEnds quote stops word behind) (apart : quote ∉ stops) :
    ∃ x rest, word ++ behind = x ++ rest ∧ AllEscaped (quote :: stops) x ∧
      (∀ c, rest.head? = some c → c ∈ quote :: stops ∧ unpaired x = false) ∧
      word = if rest.head? = some quote then x ++ [quote] else x := by
  cases h with
  | @closed x _ escaped paired => exact ⟨x, quote :: behind, by simp, escaped, by simpa using paired, by simp⟩
  | @stopped _ behind c escaped paired stop =>
    have other : c ≠ quote := fun same => apart (same ▸ stop)
    exact ⟨word, c :: behind, rfl, escaped, by simpa using ⟨.inr stop, paired⟩, by simp [other]⟩
  | unclosed escaped => exact ⟨word, [], rfl, escaped, by simp, by simp⟩

/-- A text ends at one place only. -/
theorem QuotedEnds.unique (apart : quote ∉ stops) {word' behind' : List Char} (h : QuotedEnds quote stops word behind)
    (h' : QuotedEnds quote stops word' behind') (same : word ++ behind = word' ++ behind') : word = word' := by
  obtain ⟨x, rest, eq, escaped, free, ends⟩ := h.cases_rest apart
  obtain ⟨y, rest', eq', escaped', free', ends'⟩ := h'.cases_rest apart
  have whole : x ++ rest = y ++ rest' := by rw [← eq, ← eq', same]
  obtain ⟨z, rfl⟩ := escaped'.of_append whole free
  obtain ⟨z', eq⟩ := escaped.of_append whole.symm free'
  obtain rfl : z = [] := by
    have := congrArg List.length eq
    simp only [List.length_append] at this
    exact List.length_eq_zero_iff.mp (by omega)
  rw [List.append_nil] at whole ends
  rw [ends, ends', List.append_cancel_left whole]

/-- A character that needs no escape in front. -/
theorem QuotedEnds.plain {c : Char} (h : QuotedEnds quote stops word behind) (plain : c ∉ quote :: stops)
    (other : c ≠ '\\') : QuotedEnds quote stops (c :: word) behind := by
  cases h with
  | closed escaped paired =>
    exact .closed (allEscaped_cons plain other escaped) ((unpaired_cons other _).trans paired)
  | stopped escaped paired stop =>
    exact .stopped (allEscaped_cons plain other escaped) ((unpaired_cons other _).trans paired) stop
  | unclosed escaped => exact .unclosed (allEscaped_cons plain other escaped)

/-- An escaped character in front. -/
theorem QuotedEnds.escape (c : Char) (h : QuotedEnds quote stops word behind) (other : '\\' ∉ quote :: stops) :
    QuotedEnds quote stops ('\\' :: c :: word) behind := by
  cases h with
  | closed escaped paired => exact .closed (allEscaped_escape other escaped) paired
  | stopped escaped paired stop => exact .stopped (allEscaped_escape other escaped) paired stop
  | unclosed escaped => exact .unclosed (allEscaped_escape other escaped)

end QuotedEnds

section FirstEnds

variable {closing word behind : List Char}

/-- A character in front with which no closing begins. -/
theorem FirstEnds.cons {c : Char} (h : FirstEnds closing word behind) (other : ¬ closing <+: c :: (word ++ behind)) :
    FirstEnds closing (c :: word) behind := by
  cases h with
  | @closed x behind first =>
    refine .closed (x := c :: x) fun v w eq => ?_
    cases v with
    | nil =>
      refine absurd ⟨w ++ behind, ?_⟩ other
      rw [← List.append_assoc, ← List.cons_append, ← List.cons_append, eq, List.nil_append]
    | cons d v => exact first v w (List.cons.inj eq).2
  | unclosed none_ =>
    refine .unclosed fun inside => ?_
    rcases List.infix_cons_iff.mp inside with front | inside
    · exact other (by simpa using front)
    · exact none_ inside

/-- A text ends at one place only. -/
theorem FirstEnds.unique {word' behind' : List Char} (h : FirstEnds closing word behind)
    (h' : FirstEnds closing word' behind') (same : word ++ behind = word' ++ behind') : word = word' := by
  cases h with
  | @closed x behind first =>
    cases h' with
    | @closed y behind' first' =>
      rcases List.append_eq_append_iff.mp same with ⟨w, eq, _⟩ | ⟨w, eq, _⟩
      · rw [eq, first' x w eq, List.append_nil]
      · rw [eq, first y w eq, List.append_nil]
    | unclosed none_ => exact absurd ⟨x, behind, by simpa using same⟩ none_
  | unclosed none_ =>
    cases h' with
    | @closed y behind' => exact absurd ⟨y, behind', by simpa using same.symm⟩ none_
    | unclosed => simpa using same

end FirstEnds

namespace Regex

/-- Rounds of a quoted text with its end. -/
def quotedRest (quote : Char) (plain : CharSet) (a : Assertion) : Regex :=
  .seq (.times 0 none true (escaped plain)) (closedOr [quote] a)

/-- Anything up to a closing or the end of the text, as little as possible. -/
def upToFirst (closing : List Char) : Regex :=
  .seq (.times 0 none false (.set .any)) (.alt (.text closing) (.look .textEnd))

theorem CharSet.mem_any (c : Char) : CharSet.any.mem c :=
  CharSet.mem_of_allBut (show CharSet.any.allBut [] by decide) (by simp)

/-- A quoted text: rounds of plain and of escaped characters, up to the quote or to what stops it. -/
structure Quotes (quote : Char) (stops : List Char) (plain : CharSet) (a : Assertion) : Prop where
  mem : ∀ c, plain.mem c ↔ c ∉ '\\' :: quote :: stops
  unslashed : '\\' ∉ quote :: stops
  holds : ∀ u : Spot, a.holds u ↔ u.rest = [] ∨ ∃ c ∈ stops, u.rest.head? = some c

section Rounds

variable {quote : Char} {plain : CharSet} {a : Assertion} {s t : Spot}

/-- Where no round begins, the rest of a quoted text is its end. -/
theorem picks_end (stuck : ∀ m u mu, ¬ (escaped plain).Matches s m u mu)
    (picked : (closedOr [quote] a).Picks (fun _ => True) s [] t []) :
    (quotedRest quote plain a).Picks (fun _ => True) s [] t [] :=
  ⟨s, [], .leave fun _ _ ⟨m, u, mu, matched, _⟩ => stuck m u mu matched, picked⟩

/-- One round more in front. -/
theorem picks_round {u : Spot} (first : ∀ after, (escaped plain).Picks after s [] u [])
    (rest : (quotedRest quote plain a).Picks (fun _ => True) u [] t []) :
    (quotedRest quote plain a).Picks (fun _ => True) s [] t [] := by
  obtain ⟨v, mv, rounds, close⟩ := rest
  exact ⟨v, mv, .more (by simp) (by simp) (first _) rounds, close⟩

/-- The end of a quoted text that is not closed. -/
theorem picks_unclosed (unquoted : s.rest.head? ≠ some quote) (holds : a.holds t)
    (last : (Regex.text ['\\']).Picks (LeadsTo (Repeats (Regex.text ['\\']).Matches 0 (some 0))
      (LeadsTo (Regex.look a).Matches fun _ => True)) s [] t [] ∨ (t = s ∧ s.rest.head? ≠ some '\\')) :
    (closedOr [quote] a).Picks (fun _ => True) s [] t [] := by
  refine .inr ⟨fun ⟨m, u, mu, matched, _⟩ => not_matches_text unquoted m u mu matched, t, [], ?_, holds, rfl, rfl⟩
  exact picks_optional_of (last.imp_right fun ⟨eq, other⟩ => ⟨eq, rfl, not_matches_text other⟩)

end Rounds

/-- From the spot on the rest of a quoted text is picked, up to where it ends. -/
def PicksQuoted (quote : Char) (stops : List Char) (plain : CharSet) (a : Assertion) (s : Spot) : Prop :=
  ∃ word t, Spot.Reads s word t ∧ QuotedEnds quote stops word t.rest ∧
    (quotedRest quote plain a).Picks (fun _ => True) s [] t []

namespace Quotes

variable {quote : Char} {stops : List Char} {plain : CharSet} {a : Assertion} {s : Spot}

/-- No round begins with one of the characters that may end the text. -/
theorem not_matches_end (h : Quotes quote stops plain a) (ends : ∀ c, s.rest.head? = some c → c ∈ quote :: stops)
    (m : Marks) (u : Spot) (mu : Marks) : ¬ (escaped plain).Matches s m u mu := by
  rintro (⟨c, inside, reads, _⟩ | ⟨o, _, ⟨slash, _⟩, _⟩)
  · have mark := ends c (by rw [reads.rest]; rfl)
    exact (h.mem c).mp inside (List.mem_cons_of_mem _ mark)
  · exact h.unslashed (ends '\\' (by rw [slash.rest]; rfl))

/-- No round begins with a backslash that has nothing to escape. -/
theorem not_matches_lone (h : Quotes quote stops plain a) (lone : s.rest = ['\\']) (m : Marks) (u : Spot)
    (mu : Marks) : ¬ (escaped plain).Matches s m u mu := by
  rintro (⟨c, inside, reads, _⟩ | ⟨o, _, ⟨slash, _⟩, c, _, reads, _⟩)
  · obtain ⟨rfl, _⟩ := List.cons.inj (lone.symm.trans reads.rest)
    exact (h.mem _).mp inside List.mem_cons_self
  · have rest := lone.symm.trans slash.rest
    rw [reads.rest] at rest
    simp at rest

theorem picks_nil (h : Quotes quote stops plain a) (rest : s.rest = []) : PicksQuoted quote stops plain a s := by
  refine ⟨[], s, .refl s, ?_, picks_end (h.not_matches_end (by simp [rest])) ?_⟩
  · rw [rest]
    exact .unclosed allEscaped_nil
  · exact picks_unclosed (by simp [rest]) ((h.holds s).mpr (.inl rest)) (.inr ⟨rfl, by simp [rest]⟩)

/-- A last backslash has nothing to escape. -/
theorem picks_lone (h : Quotes quote stops plain a) (rest : s.rest = ['\\']) : PicksQuoted quote stops plain a s := by
  have reads := Spot.Reads.step rest
  refine ⟨['\\'], _, reads, .unclosed ?_, picks_end (h.not_matches_lone rest) ?_⟩
  · exact allEscaped_of_unmarked (by simpa using h.unslashed)
  · refine picks_unclosed ?_ ((h.holds _).mpr (.inl rfl)) (.inl ⟨reads, rfl⟩)
    rw [rest]
    rintro ⟨⟩
    exact h.unslashed List.mem_cons_self

/-- A backslash takes the character behind it along. -/
theorem picks_escape (h : Quotes quote stops plain a) {c : Char} {u : Spot} (reads : Spot.Reads s ['\\', c] u)
    (more : PicksQuoted quote stops plain a u) : PicksQuoted quote stops plain a s := by
  obtain ⟨word, t, behind, ends, picked⟩ := more
  obtain ⟨o, slash, escaped⟩ := Spot.Reads.split (a := ['\\']) reads
  refine ⟨'\\' :: c :: word, t, reads.trans behind, ends.escape c h.unslashed, picks_round (fun after => ?_) picked⟩
  refine .inr ⟨?_, o, [], ⟨slash, rfl⟩, c, CharSet.mem_any c, escaped, rfl⟩
  rintro ⟨m, v, mv, ⟨d, inside, reads', _⟩, _⟩
  obtain ⟨rfl, _⟩ := List.cons.inj (slash.rest.symm.trans reads'.rest)
  exact (h.mem _).mp inside List.mem_cons_self

/-- Any other character closes the text, stops it or belongs to it. -/
theorem picks_cons (h : Quotes quote stops plain a) {c : Char} {u : Spot} (reads : Spot.Reads s [c] u)
    (other : c ≠ '\\') (more : PicksQuoted quote stops plain a u) : PicksQuoted quote stops plain a s := by
  have head : s.rest.head? = some c := by rw [reads.rest]; rfl
  by_cases mark : c ∈ quote :: stops
  · have stuck := h.not_matches_end (s := s) fun d eq => by
      rw [head] at eq
      cases eq
      exact mark
    by_cases close : c = quote
    · subst close
      exact ⟨[c], u, reads, .closed (x := []) allEscaped_nil rfl, picks_end stuck (.inl ⟨reads, rfl⟩)⟩
    · have stop : c ∈ stops := (List.mem_cons.mp mark).resolve_left close
      refine ⟨[], s, .refl s, ?_, picks_end stuck ?_⟩
      · rw [reads.rest]
        exact .stopped allEscaped_nil rfl stop
      · exact picks_unclosed (by simpa [head] using close) ((h.holds s).mpr (.inr ⟨c, stop, head⟩))
          (.inr ⟨rfl, by simpa [head] using other⟩)
  · obtain ⟨word, t, behind, ends, picked⟩ := more
    refine ⟨c :: word, t, reads.trans behind, ends.plain mark other, picks_round (fun after => ?_) picked⟩
    exact .inl ⟨c, (h.mem c).mpr (List.not_mem_cons_of_ne_of_not_mem other mark), reads, rfl⟩

/-- A quoted text that only the end of the text stops. -/
theorem of_textEnd (all : plain.allBut ['\\', quote]) (none_ : ['\\', quote].all (!plain.mem ·)) (bare : quote ≠ '\\') :
    Quotes quote [] plain .textEnd where
  mem := CharSet.mem_iff_of_allBut all none_
  unslashed := by simpa using bare.symm
  holds u := by simp [Assertion.holds]

/-- A quoted text that the end of the line stops. -/
theorem of_lineEnd (all : plain.allBut ['\\', quote, '\n']) (none_ : ['\\', quote, '\n'].all (!plain.mem ·))
    (bare : quote ≠ '\\') : Quotes quote ['\n'] plain .lineEnd where
  mem := CharSet.mem_iff_of_allBut all none_
  unslashed := by simpa using bare.symm
  holds u := by simp [Assertion.holds]

/-- From wherever the spot is, by what comes next: nothing, a lone backslash, an escaped character or another one. -/
theorem picks (h : Quotes quote stops plain a) (s : Spot) : PicksQuoted quote stops plain a s := by
  generalize text : s.rest = rest
  induction rest using unpaired.induct generalizing s with
  | case1 => exact h.picks_nil text
  | case2 c =>
    by_cases slash : c = '\\'
    · exact h.picks_lone (slash ▸ text)
    · exact h.picks_cons (.step text) slash (h.picks_nil rfl)
  | case3 c rest ih => exact h.picks_escape (.of_rest (a := ['\\', c]) text) (ih _ rfl)
  | case4 c d rest other ih => exact h.picks_cons (.step text) other (ih _ rfl)

end Quotes

/-- From the spot on a text is picked up to where its first closing ends. -/
def PicksFirst (closing : List Char) (s : Spot) : Prop :=
  ∃ word t, Spot.Reads s word t ∧ FirstEnds closing word t.rest ∧ (upToFirst closing).Picks (fun _ => True) s [] t []

section First

variable {closing : List Char} {s : Spot}

theorem picks_closing (front : closing <+: s.rest) : PicksFirst closing s := by
  obtain ⟨behind, eq⟩ := front
  have reads := Spot.Reads.of_rest eq.symm
  refine ⟨closing, _, reads, .closed (x := []) fun v w eq => ?_, s, [], .leave (by simp), .inl ⟨reads, rfl⟩⟩
  have := congrArg List.length eq
  simp only [List.length_append, List.length_nil] at this
  exact List.length_eq_zero_iff.mp (by omega)

theorem picks_last (front : ¬ closing <+: s.rest) (text : s.rest = []) : PicksFirst closing s := by
  refine ⟨[], s, .refl s, ?_, s, [], .leave (by simp), .inr ⟨?_, by simp [Assertion.holds, text], rfl, rfl⟩⟩
  · rw [text] at front ⊢
    exact .unclosed (by simpa using front)
  · rintro ⟨_, u, _, ⟨reads, _⟩, _⟩
    exact front ⟨u.rest, reads.rest.symm⟩

/-- In front of a character at which no closing begins a lazy repetition goes on. -/
theorem picks_further (front : ¬ closing <+: s.rest) {c : Char} {u : Spot} (next : Spot.Reads s [c] u)
    (more : PicksFirst closing u) : PicksFirst closing s := by
  obtain ⟨word, t, reads, ends, v, mv, rounds, close⟩ := more
  refine ⟨c :: word, t, next.trans reads, ends.cons ?_, v, mv, ?_, close⟩
  · rw [next.rest, reads.rest] at front
    exact front
  · refine .more (by simp) (fun _ => ?_) ⟨c, CharSet.mem_any c, next, rfl⟩ rounds
    rintro ⟨_, w, _, ⟨reads, _⟩ | ⟨holds, _⟩, _⟩
    · exact front ⟨w.rest, reads.rest.symm⟩
    · simp [Assertion.holds, next.rest] at holds

end First

theorem picks_upToFirst (closing : List Char) (s : Spot) : PicksFirst closing s := by
  generalize text : s.rest = rest
  induction rest generalizing s with
  | nil =>
    by_cases front : closing <+: s.rest
    · exact picks_closing front
    · exact picks_last front text
  | cons c rest ih =>
    by_cases front : closing <+: s.rest
    · exact picks_closing front
    · exact picks_further front (.step text) (ih (s.step c rest) rfl)

end Regex

namespace Pattern

variable {p : Pattern} {before word behind : List Char}

/-- From one place on a pattern takes one text only. -/
theorem Takes.unique {word' behind' : List Char} (h : p.Takes before word behind) (h' : p.Takes before word' behind')
    (same : word ++ behind = word' ++ behind') : word = word' := by
  obtain ⟨m, found, _, stop⟩ := h
  obtain ⟨m', found', _, stop'⟩ := h'
  rw [sourceOf, List.append_assoc, same, ← List.append_assoc] at found
  obtain rfl : m = m' := Option.some.inj (found.symm.trans found')
  have size : Text.byteSize word = Text.byteSize word' := by
    simp only [Text.byteSize_append] at stop stop'
    omega
  have fits := Text.takeBytes_append word behind
  rwa [same, size, Text.takeBytes_append, eq_comm] at fits

/-- Wherever its opening stands the pattern matches, and what it takes is the opening with all that belongs to it. -/
structure TakesWhole (p : Pattern) (opening : List Char) (Ends : List Char → List Char → Prop) : Prop where
  exists_takes : ∀ before rest, ∃ word behind, rest = word ++ behind ∧ p.Takes before (opening ++ word) behind
  takes_iff : ∀ before word behind, p.Takes before (opening ++ word) behind ↔ Ends word behind

/-- What the expression picks behind the opening is all that belongs to it. -/
theorem takesWhole_of_picks {opening : List Char} {r : Regex} {Ends : List Char → List Char → Prop}
    (regex : p.parsed.regex = .seq (.text opening) r)
    (picks : ∀ s, ∃ word t, Spot.Reads s word t ∧ Ends word t.rest ∧ r.Picks (fun _ => True) s [] t [])
    (unique : ∀ {word behind word' behind'}, Ends word behind → Ends word' behind' →
      word ++ behind = word' ++ behind' → word = word') : p.TakesWhole opening Ends := by
  have exists_ : ∀ before rest, ∃ word behind, rest = word ++ behind ∧ Ends word behind ∧
      p.Takes before (opening ++ word) behind := by
    intro before rest
    obtain ⟨s, first⟩ : ∃ s, Spot.Reads (.start (before ++ (opening ++ rest))) before s := ⟨_, .of_rest rfl⟩
    obtain ⟨o, opens⟩ : ∃ o, Spot.Reads s opening o := ⟨_, .of_rest (List.append_cancel_left first.rest).symm⟩
    obtain ⟨word, t, reads, ends, picked⟩ := picks o
    have whole := (first.trans (opens.trans reads)).rest
    obtain rfl : rest = word ++ t.rest := by simpa [Spot.start] using whole
    refine ⟨word, t.rest, rfl, ends, Pattern.takes_iff.mpr ⟨s, t, [], ?_, opens.trans reads, reports_of_picks ?_⟩⟩
    · simpa using first
    · rw [regex]
      exact ⟨o, [], ⟨opens, rfl⟩, picked⟩
  refine ⟨fun before rest => ?_, fun before word behind => ?_⟩
  · obtain ⟨word, behind, eq, _, takes⟩ := exists_ before rest
    exact ⟨word, behind, eq, takes⟩
  · obtain ⟨word', behind', eq, ends, takes⟩ := exists_ before (word ++ behind)
    constructor
    · intro takes'
      obtain rfl := List.append_cancel_left (takes'.unique takes (by simpa using eq))
      rwa [List.append_cancel_left eq]
    · intro ends'
      obtain rfl := unique ends' ends eq
      rwa [List.append_cancel_left eq]

theorem takesWhole_quoted {quote : Char} {stops : List Char} (plain : Regex.CharSet) {a : Regex.Assertion}
    (regex : p.parsed.regex = .seq (.text [quote]) (.quotedRest quote plain a))
    (quotes : Regex.Quotes quote stops plain a) (apart : quote ∉ stops) :
    p.TakesWhole [quote] (QuotedEnds quote stops) :=
  takesWhole_of_picks regex quotes.picks (fun h h' => h.unique apart h')

theorem takesWhole_first {opening closing : List Char}
    (regex : p.parsed.regex = .seq (.text opening) (.upToFirst closing)) :
    p.TakesWhole opening (FirstEnds closing) :=
  takesWhole_of_picks regex (Regex.picks_upToFirst closing) (fun h h' => h.unique h')

end Pattern

namespace Presets

/-- The presets for strings and the one for comments between slash and star match wherever one is opened, and take it as
a whole: a string up to the first quote that is not escaped, within its line if it may not go on over lines, and a
comment up to the first closing behind its opening. What is not closed goes on to the end. -/
theorem takesWhole :
    (Pattern.ofText doubleQuoted).TakesWhole ['"'] (QuotedEnds '"' []) ∧
      (Pattern.ofText singleQuoted).TakesWhole ['\''] (QuotedEnds '\'' []) ∧
      (Pattern.ofText doubleQuotedLine).TakesWhole ['"'] (QuotedEnds '"' ['\n']) ∧
      (Pattern.ofText singleQuotedLine).TakesWhole ['\''] (QuotedEnds '\'' ['\n']) ∧
      (Pattern.ofText blockComment).TakesWhole ['/', '*'] (FirstEnds ['*', '/']) := by
  refine ⟨?_, ?_, ?_, ?_, ?_⟩
  · exact Pattern.takesWhole_quoted ⟨[(0, 33), (35, 91), (93, 1114111)]⟩ (by decide +kernel)
      (.of_textEnd (by decide) (by decide) (by decide)) (by decide)
  · exact Pattern.takesWhole_quoted ⟨[(0, 38), (40, 91), (93, 1114111)]⟩ (by decide +kernel)
      (.of_textEnd (by decide) (by decide) (by decide)) (by decide)
  · exact Pattern.takesWhole_quoted ⟨[(0, 9), (11, 33), (35, 91), (93, 1114111)]⟩ (by decide +kernel)
      (.of_lineEnd (by decide) (by decide) (by decide)) (by decide)
  · exact Pattern.takesWhole_quoted ⟨[(0, 9), (11, 38), (40, 91), (93, 1114111)]⟩ (by decide +kernel)
      (.of_lineEnd (by decide) (by decide) (by decide)) (by decide)
  · exact Pattern.takesWhole_first (by decide +kernel)

end Presets

end Gloss

import Gloss.Proofs.Language.Html.Runs
import Gloss.Proofs.Language.Resumed
import Gloss.Proofs.Pattern.Remains

/-!
Markup and regular expressions that a tag of the host cuts. Comments, declarations, character data and entities are taken
up by exactly what is left of them. For quoted values and regular expressions this holds only where nothing escapes what
may close them: the patterns by which they are taken up again are looser than those of the tokens, so that an escaped quote
or a slash in brackets ends what is left too early, and a lone backslash behind a token that is not closed is taken with
it. It is said exactly when what is left is taken.
-/
namespace Gloss.Language

open Text (Spot)

/-- The kind has a pattern for taking it up again, and where a token of the given pattern is cut it takes what is left if
and only if that is spared. -/
def ResumableIf (g : Grammar) (kind : Kind) (token : Pattern) (cut spared : List Char → List Char → Prop) : Prop :=
  ∃ recovery, g.recovery.get? kind = some recovery ∧ ∀ u p r v, token.Takes u (p ++ r) v → cut p r →
    (recovery.Takes (u ++ p) r v ↔ spared r v)

namespace Html

/-- Kinds of markup that can be cut, with the patterns of their tokens and how these are delimited. -/
def delimited : List (Kind × Pattern × Delimiting) := [
  (comment, commentPattern, ⟨['<', '!', '-', '-'], ['-', '-', '>'], false⟩),
  (declaration, declarationPattern, ⟨['<', '!'], ['>'], false⟩),
  (.escape, entity, ⟨['&'], [';'], false⟩)]

/-- Kinds of quoted values, with the patterns of their tokens and their quotes. -/
def quoted : List (Kind × Pattern × Char) := [
  (doubleString, doubleQuoted, '"'),
  (singleString, singleQuoted, '\'')]

/-- Nothing in what is left of a quoted value is what its recovery stops at, but for the quote that closes it; and where
none does, no backslash is behind it. -/
inductive Spared (q : Char) : List Char → List Char → Prop where
  | closed {x v : List Char} (plain : ∀ c ∈ x, c ∉ [q, '>']) : Spared q (x ++ [q]) v
  | open_ {r v : List Char} (plain : ∀ c ∈ r, c ∉ [q, '>']) (noSlash : v.head? ≠ some '\\') : Spared q r v

/-- A letter in either case. -/
def inCase (upper lower : Char) : Regex := .set ⟨[(upper.toNat, upper.toNat), (lower.toNat, lower.toNat)]⟩

/-- Character data, with its opening in any case. -/
def cdataRegex : Regex := .seq (.text ['<', '!', '[']) (.seq (inCase 'C' 'c') (.seq (inCase 'D' 'd')
  (.seq (inCase 'A' 'a') (.seq (inCase 'T' 't') (.seq (inCase 'A' 'a') (.seq (.text ['['])
    (.seq (.times 0 none false (.set .any)) (.alt (.text [']', ']', '>']) (.look .textEnd)))))))))

/-- Characters of an entity: neither the one that closes it nor white space. -/
def entityName : Regex.CharSet :=
  ⟨[(0, 8), (14, 31), (33, 58), (60, 132), (134, 159), (161, 5759), (5761, 8191), (8203, 8231), (8234, 8238),
    (8240, 8286), (8288, 12287), (12289, 1114111)]⟩

/-- Characters of a quoted value that no backslash escapes. -/
def valuePlain (quote : Nat) : Regex.CharSet := ⟨[(0, quote - 1), (quote + 1, 61), (63, 91), (93, 1114111)]⟩

/-- A quoted value. -/
def valueRegex (quote : Char) : Regex := .seq (.text [quote])
  (.seq (.times 0 none true (.escaped (valuePlain quote.toNat))) (.times 0 (some 1) true (.text [quote])))

/-- What the patterns of the tokens parse to. -/
theorem tokens_parse :
    commentPattern.parsed.regex = .seq (.text ['<', '!', '-', '-'])
      (.seq (.times 0 none false (.set .any)) (.alt (.text ['-', '-', '>']) (.look .textEnd))) ∧
    declarationPattern.parsed.regex = .seq (.text ['<', '!']) (upToRegex [(0, 61), (63, 1114111)] '>') ∧
    cdataPattern.parsed.regex = cdataRegex ∧
    entity.parsed.regex = .seq (.text ['&']) (.seq (.times 1 none true (.set entityName)) (.text [';'])) ∧
    doubleQuoted.parsed.regex = valueRegex '"' ∧
    singleQuoted.parsed.regex = valueRegex '\'' := by
  decide +kernel

theorem comment_resumes : commentPattern.Resumes (.ofText "(?s).*?(?:-->|\\z)")
    ⟨['<', '!', '-', '-'], ['-', '-', '>'], false⟩ :=
  Pattern.resumes_until (a := .textEnd) .any tokens_parse.1 recoveries_parse.1 (by decide)

/-- A closing that may be missing. -/
theorem readsClosing_optional (d : Delimiting) :
    Regex.ReadsClosing d (.times 0 (some 1) true (.text d.closing)) := by
  intro s u m mu matched
  rcases Regex.matches_optional.mp matched with ⟨rfl, _⟩ | ⟨reads, _⟩
  · exact ⟨[], .refl _, .inr (.inl rfl)⟩
  · exact ⟨d.closing, reads, .inl rfl⟩

theorem declaration_resumes : declarationPattern.Resumes (.ofText "[^>]*>?") ⟨['<', '!'], ['>'], false⟩ := by
  obtain ⟨_, token, _⟩ := tokens_parse
  obtain ⟨_, recovery, _⟩ := recoveries_parse
  exact Pattern.resumes_of_regex token recovery rfl (by decide) (fun no => by cases no) (Regex.readsRounds_set _)
    (readsClosing_optional ⟨['<', '!'], ['>'], false⟩) Regex.switches_self

theorem picks_inCase {upper lower : Char} {b : Regex} {s t : Spot}
    (picked : (Regex.seq (inCase upper lower) b).Picks (fun _ => True) s [] t []) :
    ∃ c u, Spot.Reads s [c] u ∧ b.Picks (fun _ => True) u [] t [] := by
  obtain ⟨u, _, ⟨c, _, reads, rfl⟩, rest⟩ := picked
  exact ⟨c, u, reads, rest⟩

/-- The opening of character data is nine characters, with its letters in any case. -/
theorem cdata_opens {s t : Spot} (picked : cdataRegex.Picks (fun _ => True) s [] t []) :
    ∃ opening o, opening.length = 9 ∧ Spot.Reads s opening o ∧
      (Regex.seq (.times 0 none false (.set .any)) (.alt (.text [']', ']', '>']) (.look .textEnd))).Picks (fun _ => True)
        o [] t [] := by
  obtain ⟨_, _, ⟨start, rfl⟩, picked⟩ := picked
  obtain ⟨c, _, readsC, picked⟩ := picks_inCase picked
  obtain ⟨d, _, readsD, picked⟩ := picks_inCase picked
  obtain ⟨a, _, readsA, picked⟩ := picks_inCase picked
  obtain ⟨e, _, readsE, picked⟩ := picks_inCase picked
  obtain ⟨f, _, readsF, o, _, ⟨bracket, rfl⟩, rest⟩ := picks_inCase picked
  have reads := start.trans (readsC.trans (readsD.trans (readsA.trans (readsE.trans (readsF.trans bracket)))))
  exact ⟨['<', '!', '[', c, d, a, e, f, '['], o, rfl, reads, rest⟩

theorem cdata_resumes {opening : List Char} (nine : opening.length = 9) :
    cdataPattern.Resumes (.ofText "(?s).*?(?:\\]\\]>|\\z)") ⟨opening, [']', ']', '>'], false⟩ := by
  obtain ⟨_, _, token, _⟩ := tokens_parse
  obtain ⟨_, _, recovery, _⟩ := recoveries_parse
  refine Pattern.resumes_of_picks (d := ⟨opening, [']', ']', '>'], false⟩) ?_ ?_ ?_ (fun picked => recovery ▸ picked)
    (fun no => by cases no) (Regex.readsRounds_set .any)
    (Regex.readsClosing_look ⟨opening, [']', ']', '>'], false⟩ .textEnd) Regex.switches_self
  · rw [token]
    rfl
  · rw [token]
    rfl
  · rw [token]
    intro s t w opened picked
    obtain ⟨first, o, length, reads, rest⟩ := cdata_opens picked
    -- What the cut's front begins with and what the token opens with are nine characters from the same spot on.
    obtain ⟨o', readsO, _⟩ := opened.split
    obtain ⟨rfl, _⟩ := List.append_inj (readsO.rest.symm.trans reads.rest) (nine.trans length.symm)
    exact ⟨o, [], ⟨reads, rfl⟩, rest⟩

theorem entity_resumes : entity.Resumes (.ofText "[^;]*;?") ⟨['&'], [';'], false⟩ := by
  obtain ⟨_, _, _, token, _⟩ := tokens_parse
  obtain ⟨_, _, _, recovery, _⟩ := recoveries_parse
  intro u p r v takes cut
  obtain ⟨s, t, marks, _, reads, reports⟩ := Pattern.takes_iff.mp takes
  have covers := reports.covers
  rw [Pattern.Covers, token] at covers
  obtain ⟨_, _, ⟨start, rfl⟩, _, _, letters, close, _⟩ := covers
  obtain ⟨_, w, readsW, _, _, members⟩ := Regex.matches_times_set.mp letters
  have word : p ++ r = ['&'] ++ w ++ [';'] := by
    rw [List.append_assoc]
    exact reads.word_eq (start.trans (readsW.trans close))
  obtain ⟨z, front, rfl⟩ := cut.leaves word (fun no => by cases no)
  obtain ⟨x, rfl⟩ := cut.past
  have w_eq : x ++ z = w := by
    rw [List.append_assoc] at front
    exact List.append_cancel_left front
  have plain : ∀ c ∈ z, c ∉ [';'] := by
    intro c member
    have mem := members c (w_eq ▸ List.mem_append_right x member)
    rw [List.mem_singleton]
    rintro rfl
    exact absurd mem (by decide)
  refine (Pattern.takes_upTo [] _ recovery (by decide) (by decide)).mpr ?_
  rw [List.append_assoc, upTo_append plain]
  simp [upTo]

/-- A quoted value goes on over whatever is escaped, its recovery only up to the next quote or angle bracket. -/
theorem quoted_takes_rest {token recovery : Pattern} {q : Char} {ranges : List (Nat × Nat)}
    (regex : token.parsed.regex = valueRegex q) (guarded : (valueRegex q).guarded)
    (outside : (valuePlain q.toNat).mem '\\' = false) (inside : (valuePlain q.toNat).allBut [q, '\\', '>'])
    (rest : recovery.parsed.regex = upToRegex ranges q) (all : (⟨ranges⟩ : Regex.CharSet).allBut [q, '>'])
    (none_ : [q, '>'].all (!(⟨ranges⟩ : Regex.CharSet).mem ·)) {u p r v : List Char}
    (takes : token.Takes u (p ++ r) v) (cut : Delimiting.Cut ⟨[q], [q], true⟩ p r) :
    recovery.Takes (u ++ p) r v ↔ Spared q r v := by
  rw [Pattern.takes_upTo ['>'] _ rest all none_]
  constructor
  · intro eq
    obtain ⟨x, behind, plain, whole, last⟩ := upTo_cases q ['>'] (r ++ v)
    rcases last with ⟨_, _, closed⟩ | ⟨open_, stop⟩
    · rw [eq.trans closed]
      exact .closed plain
    · obtain rfl := eq.trans open_
      obtain rfl := List.append_cancel_left whole
      exact .open_ plain fun slash => absurd (stop _ slash).2 (by simp)
  · intro spared
    cases spared with
    | closed plain =>
      rw [List.append_assoc, upTo_append plain]
      simp [upTo]
    | open_ plain noSlash =>
      rw [upTo_append plain]
      obtain ⟨y, c, e, t, m, mt, word, paired, reads, ends, last⟩ :=
        Pattern.takes_open_or_closed regex (regex ▸ guarded) (by simp [Regex.escaped, Regex.pairs, outside]) takes
      rcases last with ⟨closed, _⟩ | ⟨rfl, noRound, noClose⟩
      · -- The closing quote would be left, which is not spared.
        obtain rfl : c = [q] := reads.word_eq closed
        obtain ⟨z, _, rfl⟩ := cut.leaves word fun _ => paired
        exact absurd (plain q (by simp)) (by simp)
      · subst ends
        cases head : t.rest with
        | nil => simp [upTo]
        | cons d more =>
          have quote : d ≠ q := by
            rintro rfl
            exact noClose [] _ [] ⟨.step head, rfl⟩
          obtain rfl : d = '>' := Decidable.byContradiction fun other => by
            refine noRound [] _ [] (.inl ⟨d, Regex.CharSet.mem_of_allBut inside ?_, .step head, rfl⟩)
            simpa [quote, other, head] using noSlash
          simp [upTo, quote]

theorem token_resumable (e : Embedding) : ∀ x ∈ delimited, Resumable (Html.grammar e) x.1 x.2.1 x.2.2 := by
  simp only [delimited, List.forall_mem_cons, List.not_mem_nil, false_implies, implies_true, and_true, Resumable,
    recovery_eq]
  exact ⟨⟨_, rfl, comment_resumes⟩, ⟨_, rfl, declaration_resumes⟩, ⟨_, rfl, entity_resumes⟩⟩

theorem quoted_resumable (e : Embedding) : ∀ x ∈ quoted, ResumableIf (Html.grammar e) x.1 x.2.1
    (Delimiting.Cut ⟨[x.2.2], [x.2.2], true⟩) (Spared x.2.2) := by
  obtain ⟨_, _, _, _, double, single⟩ := tokens_parse
  obtain ⟨_, _, _, _, doubleRest, singleRest⟩ := recoveries_parse
  simp only [quoted, List.forall_mem_cons, List.not_mem_nil, false_implies, implies_true, and_true, ResumableIf,
    recovery_eq]
  refine ⟨⟨_, rfl, fun u p r v => ?_⟩, ⟨_, rfl, fun u p r v => ?_⟩⟩
  · exact quoted_takes_rest double (by decide) (by decide) (by decide) doubleRest (by decide) (by decide)
  · exact quoted_takes_rest single (by decide) (by decide) (by decide) singleRest (by decide) (by decide)

end Html

namespace Script

/-- The text up to the first slash that no backslash escapes, with the flags behind it. It does not go past the line, nor
past a backslash that escapes nothing in it. -/
def upToSlash : List Char → List Char
  | [] => []
  | c :: rest =>
    if c = '/' then c :: rest.takeWhile flags.mem
    else if c = '\n' then []
    else if c = '\\' then
      match rest with
      | [] => [c]
      | d :: rest => if d = '\n' then [c] else c :: d :: upToSlash rest
    else c :: upToSlash rest

/-- A text within a line in which every slash is escaped, and every backslash escapes something. -/
inductive Unslashed : List Char → Prop where
  | nil : Unslashed []
  | plain {c : Char} {x : List Char} (other : c ∉ ['\\', '/', '\n']) (rest : Unslashed x) : Unslashed (c :: x)
  | escaped {c : Char} {x : List Char} (other : c ≠ '\n') (rest : Unslashed x) : Unslashed ('\\' :: c :: x)

theorem Unslashed.unpaired_append {x : List Char} (h : Unslashed x) (rest : List Char) :
    unpaired (x ++ rest) = unpaired rest := by
  induction h with
  | nil => rfl
  | plain other _ ih =>
    rw [List.cons_append, unpaired_cons (by rintro rfl; simp at other), ih]
  | escaped _ _ ih => exact ih

theorem upToSlash_plain {c : Char} (other : c ∉ ['\\', '/', '\n']) (rest : List Char) :
    upToSlash (c :: rest) = c :: upToSlash rest := by
  simp only [List.mem_cons, List.not_mem_nil, or_false, not_or] at other
  rw [upToSlash.eq_def]
  simp [other]

theorem upToSlash_escaped {c : Char} (other : c ≠ '\n') (rest : List Char) :
    upToSlash ('\\' :: c :: rest) = '\\' :: c :: upToSlash rest := by
  rw [upToSlash.eq_def]
  simp [other]

theorem Unslashed.upToSlash_append {x : List Char} (h : Unslashed x) (z : List Char) :
    upToSlash (x ++ z) = x ++ upToSlash z := by
  induction h with
  | nil => rfl
  | plain other _ ih => simp only [List.cons_append, upToSlash_plain other, ih]
  | escaped other _ ih => simp only [List.cons_append, upToSlash_escaped other, ih]

/-- In front of a slash that closes what is paired, no text goes on in which every slash is escaped. -/
theorem Unslashed.not_closed {z w : List Char} (h : Unslashed (z ++ '/' :: w)) (paired : unpaired z = false) : False := by
  generalize eq : z ++ '/' :: w = x at h
  induction h generalizing z with
  | nil => simp at eq
  | plain other _ ih =>
    cases z with
    | nil =>
      obtain ⟨rfl, _⟩ := List.cons.inj eq
      simp at other
    | cons d z =>
      obtain ⟨rfl, rest⟩ := List.cons.inj eq
      exact ih (by rwa [unpaired_cons (by rintro rfl; simp at other)] at paired) rest
  | escaped _ _ ih =>
    match z with
    | [] => simp at eq
    | [d] =>
      obtain ⟨rfl, _⟩ := List.cons.inj eq
      simp [unpaired] at paired
    | d :: c :: z =>
      obtain ⟨rfl, rest⟩ := List.cons.inj eq
      exact ih (z := z) paired (List.cons.inj rest).2

/-- Nothing in what is left of a regular expression ends it for its recovery, but for the slash that closes it with its
flags; and where none does, no backslash is behind it. -/
inductive Spared : List Char → List Char → Prop where
  | closed {x fs v : List Char} (spared : Unslashed x) (flagged : ∀ c ∈ fs, flags.mem c) : Spared (x ++ '/' :: fs) v
  | open_ {r v : List Char} (spared : Unslashed r) (noSlash : v.head? ≠ some '\\') : Spared r v

/-- What ends such a text in front of the rest of the source: the slash with its flags, or a backslash that escapes
nothing in the line, or nothing at the end of the line. -/
inductive RegexEnds : List Char → List Char → Prop where
  | slash (more : List Char) : RegexEnds ('/' :: more) ('/' :: more.takeWhile flags.mem)
  | lone {more : List Char} (line : ∀ c, more.head? = some c → c = '\n') : RegexEnds ('\\' :: more) ['\\']
  | line {rest : List Char} (line : ∀ c, rest.head? = some c → c = '\n') : RegexEnds rest []

theorem RegexEnds.upToSlash_eq {rest c : List Char} (h : RegexEnds rest c) : upToSlash rest = c := by
  rw [upToSlash.eq_def]
  cases h with
  | slash => simp
  | @lone more line =>
    cases more with
    | nil => simp
    | cons d more =>
      obtain rfl := line d rfl
      simp
  | line line =>
    cases rest with
    | nil => rfl
    | cons d rest =>
      obtain rfl := line d rfl
      simp

theorem upToSlash_cases (z : List Char) :
    ∃ x rest c, Unslashed x ∧ z = x ++ rest ∧ RegexEnds rest c ∧ upToSlash z = x ++ c := by
  fun_induction upToSlash z with
  | case1 => exact ⟨[], [], [], .nil, rfl, .line (by simp), rfl⟩
  | case2 more => exact ⟨[], _, _, .nil, rfl, .slash more, rfl⟩
  | case3 rest => exact ⟨[], '\n' :: rest, [], .nil, rfl, .line (by simp), rfl⟩
  | case4 => exact ⟨[], ['\\'], ['\\'], .nil, rfl, .lone (by simp), rfl⟩
  | case5 rest => exact ⟨[], '\\' :: '\n' :: rest, ['\\'], .nil, rfl, .lone (by simp), rfl⟩
  | case6 d rest other _ _ ih =>
    obtain ⟨x, rest, c, spared, rfl, ends, eq⟩ := ih
    exact ⟨'\\' :: d :: x, rest, c, .escaped other spared, rfl, ends, by rw [eq]; rfl⟩
  | case7 d rest slash line back ih =>
    obtain ⟨x, rest, c, spared, rfl, ends, eq⟩ := ih
    exact ⟨d :: x, rest, c, .plain (by simp [slash, line, back]) spared, rfl, ends, by rw [eq]; rfl⟩

theorem restRound_plain {c : Char} : (⟨[(0, 9), (11, 46), (48, 91), (93, 1114111)]⟩ : Regex.CharSet).mem c ↔
    c ∉ ['\\', '/', '\n'] :=
  Regex.CharSet.mem_iff_of_allBut (by decide) (by decide) c

theorem notNewline_mem {c : Char} : Regex.CharSet.notNewline.mem c ↔ c ≠ '\n' := by
  have newlineOnly : Regex.CharSet.notNewline.allBut ['\n'] := by decide
  rw [Regex.CharSet.mem_iff_of_allBut newlineOnly (by decide) c, List.mem_singleton]

/-- A round begins with a character that is neither the slash nor the end of the line; a backslash needs another one. -/
theorem restRound_matches {s u : Spot} {n mu : Regex.Marks} (matched : restRound.Matches s n u mu) :
    (∃ c rest, s.rest = c :: rest ∧ c ∉ ['\\', '/', '\n']) ∨ ∃ c rest, s.rest = '\\' :: c :: rest ∧ c ≠ '\n' := by
  rcases matched with ⟨c, mem, reads, _⟩ | ⟨_, _, ⟨slash, rfl⟩, c, mem, reads, _⟩
  · exact .inl ⟨c, _, reads.rest, restRound_plain.mp mem⟩
  · exact .inr ⟨c, _, (slash.trans reads).rest, notNewline_mem.mp mem⟩

/-- No round begins where such a text ends. -/
theorem RegexEnds.no_round {rest c : List Char} {s : Spot} (h : RegexEnds rest c) (here : s.rest = rest)
    (n : Regex.Marks) (u : Spot) (mu : Regex.Marks) : ¬ restRound.Matches s n u mu := by
  intro matched
  subst here
  rcases restRound_matches matched with ⟨d, more, begins, other⟩ | ⟨d, more, begins, other⟩
  · rw [begins] at h
    simp only [List.mem_cons, List.not_mem_nil, or_false, not_or] at other
    cases h with
    | slash => exact other.2.1 rfl
    | lone => exact other.1 rfl
    | line line => exact other.2.2 (line d rfl)
  · rw [begins] at h
    cases h with
    | lone line => exact other (line d rfl)
    | line line => cases line '\\' rfl

theorem holds_lineEnd {s : Spot} (line : ∀ c, s.rest.head? = some c → c = '\n') : Regex.Assertion.lineEnd.holds s := by
  cases rest : s.rest with
  | nil => simp [Regex.Assertion.holds, rest]
  | cons d more =>
    obtain rfl := line d (by rw [rest]; rfl)
    simp [Regex.Assertion.holds, rest]

/-- The recovery of a regular expression closes where such a text ends. -/
theorem RegexEnds.picks {rest c : List Char} {s : Spot} (h : RegexEnds rest c) (here : s.rest = rest) :
    ∃ t, Spot.Reads s c t ∧ restClose.Picks (fun _ => True) s [] t [] := by
  have noSlash : s.rest.head? ≠ some '/' → ¬ Regex.LeadsTo
      (Regex.seq (.text ['/']) (.times 0 none true (.set flags))).Matches (fun _ => True) s := by
    rintro other ⟨_, _, _, ⟨_, _, slash, _⟩, _⟩
    exact Regex.not_matches_text other _ _ _ slash
  cases h with
  | slash more =>
    have flagged : more = more.takeWhile flags.mem ++ more.dropWhile flags.mem :=
      List.takeWhile_append_dropWhile.symm
    obtain ⟨t, reads⟩ : ∃ t, Spot.Reads (s.step '/' more) (more.takeWhile flags.mem) t := ⟨_, .of_rest flagged⟩
    have behind : t.rest = more.dropWhile flags.mem := List.append_cancel_left (reads.rest.symm.trans flagged)
    refine ⟨t, (Spot.Reads.step here).trans reads, .inl ⟨_, [], ⟨.step here, rfl⟩, ?_⟩⟩
    refine Regex.cycles_set (List.all_eq_true.mp List.all_takeWhile) reads (fun c head => ?_) []
    have last := List.head?_dropWhile_not flags.mem more
    rwa [← behind, head] at last
  | lone line =>
    refine ⟨_, .step here, .inr ⟨noSlash (by simp [here]), _, [], Regex.picks_optional_of (.inl ⟨.step here, rfl⟩), ?_⟩⟩
    exact ⟨holds_lineEnd line, rfl, rfl⟩
  | line line =>
    subst here
    have other : ∀ c, c ≠ '\n' → s.rest.head? ≠ some c := fun c other head => other (line c head)
    refine ⟨s, .refl s, .inr ⟨noSlash (other '/' (by decide)), s, [], ?_, holds_lineEnd line, rfl, rfl⟩⟩
    exact Regex.picks_optional_of (.inr ⟨rfl, rfl, Regex.not_matches_text (other '\\' (by decide))⟩)

/-- Its rounds read such a text. -/
theorem Unslashed.cycles {x : List Char} (h : Unslashed x) {s t : Spot} (reads : Spot.Reads s x t) {after : Spot → Prop}
    (ended : ∀ n u mu, ¬ restRound.Matches t n u mu) :
    Regex.Cycles restRound.Matches restRound.Picks true after 0 none s [] t [] := by
  induction h generalizing s with
  | nil =>
    obtain rfl := reads.eq_of_nil
    exact .leave fun _ _ ⟨n, u, mu, matched, _⟩ => ended n u mu matched
  | @plain c x other _ ih =>
    obtain ⟨u, first, rest⟩ := Spot.Reads.split (a := [c]) reads
    exact .more (by simp) (by simp) (.inl ⟨c, restRound_plain.mpr other, first, rfl⟩) (ih rest)
  | @escaped c x other _ ih =>
    obtain ⟨u, first, rest⟩ := Spot.Reads.split (a := ['\\', c]) reads
    obtain ⟨o, slash, escapes⟩ := Spot.Reads.split (a := ['\\']) first
    refine .more (by simp) (by simp) (.inr ⟨?_, o, [], ⟨slash, rfl⟩, c, notNewline_mem.mpr other, escapes, rfl⟩) (ih rest)
    rintro ⟨_, _, _, ⟨d, mem, reads, _⟩, _⟩
    obtain ⟨rfl, _⟩ := List.cons.inj (reads.rest.symm.trans slash.rest)
    exact absurd (restRound_plain.mp mem) (by simp)

/-- Whatever comes, the recovery of a regular expression picks the text up to the slash. -/
theorem picks_upToSlash (s : Spot) : ∃ t, Spot.Reads s (upToSlash s.rest) t ∧
    (Regex.seq (.times 0 none true restRound) restClose).Picks (fun _ => True) s [] t [] := by
  obtain ⟨x, rest, c, spared, whole, ends, eq⟩ := upToSlash_cases s.rest
  obtain ⟨u, reads⟩ : ∃ u, Spot.Reads s x u := ⟨_, .of_rest whole⟩
  have here : u.rest = rest := List.append_cancel_left (reads.rest.symm.trans whole)
  obtain ⟨t, more, closed⟩ := ends.picks here
  exact ⟨t, eq ▸ reads.trans more, u, [], spared.cycles reads (ends.no_round here), closed⟩

/-- A round of a regular expression: characters, an escaped one, or a class in brackets, in which a slash is one character
of many. -/
def regexRound : Regex :=
  .alt (.times 1 none true (.set ⟨[(0, 9), (11, 46), (48, 90), (93, 1114111)]⟩))
    (.alt (.seq (.text ['\\']) (.set .notNewline))
      (.seq (.text ['[']) (.seq (.times 0 none true (.alt (.times 1 none true (.set ⟨[(0, 9), (11, 91), (94, 1114111)]⟩))
        (.seq (.text ['\\']) (.set .notNewline)))) (.times 0 (some 1) true (.text [']'])))))

def regexClose : Regex := .seq (.text ['/']) (.times 0 none true (.set flags))

theorem regexLiteral_regex : regexLiteral.parsed.regex =
    .seq (.text ['/']) (.seq (.times 0 none true regexRound) (.times 0 (some 1) true regexClose)) := by
  decide +kernel

/-- Where no round of a regular expression begins, nothing comes, or a slash, a backslash or the end of the line. -/
theorem next_of_no_round {t : Spot} (never : ∀ n u mu, ¬ regexRound.Matches t n u mu) {c : Char}
    (head : t.rest.head? = some c) : c ∈ ['/', '\\', '\n'] := by
  obtain ⟨more, begins⟩ : ∃ more, t.rest = c :: more := List.head?_eq_some_iff.mp head
  refine Decidable.byContradiction fun other => ?_
  by_cases bracket : c = '['
  · subst bracket
    exact never [] _ [] (.inr (.inr ⟨_, [], ⟨.step begins, rfl⟩, t.step '[' more, [], .none _ _, .none _ _⟩))
  · have inside : ∀ d ∈ [c], (⟨[(0, 9), (11, 46), (48, 90), (93, 1114111)]⟩ : Regex.CharSet).mem d := by
      have listed : c ∉ ['[', '/', '\\', '\n'] := by
        rw [List.mem_cons, not_or]
        exact ⟨bracket, other⟩
      rw [List.forall_mem_singleton]
      exact Regex.CharSet.mem_of_allBut (by decide) listed
    exact never [] _ [] (.inl (Regex.matches_times_set.mpr ⟨rfl, [c], .step begins, by simp, by simp, inside⟩))

/-- A regular expression is closed by a slash and flags behind paired text, or it stops at a backslash or at the end of the
line. No flag is behind it. -/
theorem regexLiteral_ends {u word v : List Char} (takes : regexLiteral.Takes u word v) :
    (∀ d, v.head? = some d → flags.mem d = false) ∧ ∃ y c, word = ['/'] ++ y ++ c ∧ unpaired y = false ∧
      ((∃ fs, c = '/' :: fs ∧ ∀ d ∈ fs, flags.mem d) ∨ (c = [] ∧ ∀ d, v.head? = some d → d ∈ ['\\', '\n'])) := by
  obtain ⟨y, c, e, t, m, mt, word, paired, reads, rfl, last⟩ :=
    Pattern.takes_open_or_closed regexLiteral_regex (by rw [regexLiteral_regex]; decide) (by decide) takes
  rcases last with closed | ⟨rfl, noRound, noClose⟩
  · obtain ⟨o, mo, ⟨slash, _⟩, rounds⟩ := closed
    obtain ⟨_, fs, readsF, _, _, flagged⟩ := Regex.matches_times_set.mp
      (Regex.Picks.matches (r := .times 0 none true (.set flags)) rounds)
    refine ⟨fun d head => ?_, y, c, word, paired, .inl ⟨fs, reads.word_eq (slash.trans readsF), flagged⟩⟩
    refine Bool.eq_false_iff.mpr fun flag => ?_
    obtain ⟨more, begins⟩ : ∃ more, t.rest = d :: more := List.head?_eq_some_iff.mp head
    have everywhere : ∀ u, Regex.LeadsTo (Regex.Repeats regexClose.Matches 0 (some 0)) (fun _ => True) u :=
      fun u => ⟨[], u, [], .none u [], trivial⟩
    exact rounds.no_more everywhere [] _ [] ⟨d, flag, .step begins, rfl⟩
  · refine ⟨fun d head => ?_, y, [], word, paired, .inr ⟨rfl, fun d head => ?_⟩⟩
    · have listed := next_of_no_round noRound head
      simp only [List.mem_cons, List.not_mem_nil, or_false] at listed
      rcases listed with rfl | rfl | rfl <;> decide
    · obtain ⟨more, begins⟩ : ∃ more, t.rest = d :: more := List.head?_eq_some_iff.mp head
      rcases List.mem_cons.mp (next_of_no_round noRound head) with rfl | listed
      · exact absurd ⟨_, [], ⟨.step begins, rfl⟩, .none _ _⟩ (noClose [] _ [])
      · exact listed

/-- A regular expression goes on over a slash in brackets, its recovery does not. -/
theorem regex_takes_rest {u p r v : List Char} (takes : regexLiteral.Takes u (p ++ r) v)
    (cut : ∀ fs, (∀ c ∈ fs, flags.mem c) → Delimiting.Cut ⟨['/'], '/' :: fs, true⟩ p r) :
    (Pattern.ofText "(?m)(?:[^\\\\/\\n]|\\\\.)*(?:/[gimsuyx]*|\\\\?$)").Takes (u ++ p) r v ↔ Spared r v := by
  rw [Pattern.takes_iff_left fun s => recoveries_parse.1 ▸ picks_upToSlash s]
  obtain ⟨unflagged, y, c, word, paired, last⟩ := regexLiteral_ends takes
  have front : unpaired p = false := (cut [] (by simp)).paired rfl
  constructor
  · intro eq
    obtain ⟨x, rest, c', spared, whole, ends, parts⟩ := upToSlash_cases (r ++ v)
    rw [parts] at eq
    cases ends with
    | slash more =>
      rw [eq]
      exact .closed spared (List.all_eq_true.mp List.all_takeWhile)
    | lone =>
      -- What the token reads leaves no backslash unpaired, and neither does the cut.
      have waits : unpaired (p ++ r) = true := by
        rw [unpaired_append_of_paired front, eq, spared.unpaired_append]
        rfl
      have noSlash : '\\' ∉ c := by
        rcases last with ⟨fs, rfl, flagged⟩ | ⟨rfl, _⟩
        · rw [List.mem_cons, not_or]
          exact ⟨by decide, fun member => absurd (flagged _ member) (by decide)⟩
        · exact List.not_mem_nil
      rw [word, List.append_assoc, unpaired_append (by decide), unpaired_append_of_paired paired,
        ← List.append_nil c, unpaired_append noSlash] at waits
      cases waits
    | line line =>
      rw [List.append_nil] at eq
      subst eq
      obtain rfl := List.append_cancel_left whole
      exact .open_ spared fun slash => absurd (line _ slash) (by decide)
  · intro left
    cases left with
    | closed spared flagged =>
      have ended : v.takeWhile flags.mem = [] := by
        cases v with
        | nil => rfl
        | cons d v => rw [List.takeWhile_cons, unflagged d rfl]; rfl
      rw [List.append_assoc, spared.upToSlash_append, List.cons_append, (RegexEnds.slash _).upToSlash_eq,
        List.takeWhile_append_of_pos flagged, ended, List.append_nil]
    | open_ spared noSlash =>
      rw [spared.upToSlash_append]
      rcases last with ⟨fs, rfl, flagged⟩ | ⟨rfl, stops⟩
      · -- The closing slash would be left behind paired text.
        obtain ⟨z, whole, rfl⟩ := (cut fs flagged).leaves word fun _ => paired
        refine (spared.not_closed ?_).elim
        rw [← unpaired_append_of_paired front, whole]
        exact (unpaired_append (v := ['/']) (by decide) y).trans paired
      · have line : ∀ d, v.head? = some d → d = '\n' := by
          intro d head
          refine (List.mem_cons.mp (stops d head)).elim (fun slash => ?_) List.mem_singleton.mp
          exact absurd (slash ▸ head) noSlash
        rw [(RegexEnds.line line).upToSlash_eq, List.append_nil]

end Script

/-- However the markup and a script are embedded: comments, declarations, entities and character data that are cut are
taken up by exactly what is left of them. For quoted values and regular expressions that is so just where what is left is
spared. -/
theorem recovery_takes_spared (e e' : Embedding) :
    (∀ x ∈ Html.delimited, Resumable (Html.grammar e) x.1 x.2.1 x.2.2) ∧
    (∀ opening : List Char, opening.length = 9 →
      Resumable (Html.grammar e) Html.cdata Html.cdataPattern ⟨opening, [']', ']', '>'], false⟩) ∧
    (∀ x ∈ Html.quoted, ResumableIf (Html.grammar e) x.1 x.2.1 (Delimiting.Cut ⟨[x.2.2], [x.2.2], true⟩)
      (Html.Spared x.2.2)) ∧
    ResumableIf (Script.grammar e') .regex Script.regexLiteral
      (fun p r => ∀ fs, (∀ c ∈ fs, Script.flags.mem c) → Delimiting.Cut ⟨['/'], '/' :: fs, true⟩ p r) Script.Spared := by
  refine ⟨Html.token_resumable e, fun opening nine => ?_, Html.quoted_resumable e, ?_⟩
  · rw [Resumable, Html.recovery_eq]
    exact ⟨_, rfl, Html.cdata_resumes nine⟩
  · rw [ResumableIf, Script.recovery_eq]
    exact ⟨_, rfl, fun u p r v => Script.regex_takes_rest⟩

/-- The escaped quote of a value that is cut in front of it ends what is taken of the value. -/
example : Html.doubleQuoted.Takes [] ['"', 'x', '\\', '"', 'y', '"'] [] ∧
    ¬ (Pattern.ofText "[^\">]*\"?").Takes ['"', 'x'] ['\\', '"', 'y', '"'] [] ∧
    (Pattern.ofText "[^\">]*\"?").Takes ['"', 'x'] ['\\', '"'] ['y', '"'] := by
  obtain ⟨_, _, _, _, parsed, _⟩ := Html.recoveries_parse
  have takes : ∀ word behind, (Pattern.ofText "[^\">]*\"?").Takes ['"', 'x'] word behind ↔
      word = upTo '"' ['>'] (word ++ behind) := fun _ _ => Pattern.takes_upTo ['>'] _ parsed (by decide) (by decide)
  refine ⟨⟨Match.ofRange 0 6, by decide +kernel, rfl, rfl⟩, ?_, ?_⟩
  · rw [takes]
    decide
  · rw [takes]
    decide

/-- So does the slash in brackets of a regular expression. -/
example : Script.regexLiteral.Takes [] ['/', 'a', '[', '/', ']', 'b', '/'] [] ∧
    Script.upToSlash ['[', '/', ']', 'b', '/'] = ['[', '/'] :=
  ⟨⟨Match.ofRange 0 7, by decide +kernel, rfl, rfl⟩, by decide⟩

end Gloss.Language

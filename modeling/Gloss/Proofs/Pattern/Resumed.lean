import Gloss.Proofs.Pattern.Finds

/-!
Tokens that are cut and taken up again. A token is an opening, rounds that read a character or an escaped one each, and
what may stand behind the last round. The rounds from a place between two of them on are picked for the same reasons as
before, so a pattern for the rounds and what is behind them, without the opening, takes exactly what is left of the token.
-/
namespace Gloss

open Text (Spot Source)

/-- Does a backslash stand at the end that no other one in front of it escapes? -/
def unpaired : List Char → Bool
  | [] => false
  | [c] => c == '\\'
  | c :: d :: rest => if c = '\\' then unpaired rest else unpaired (d :: rest)

theorem unpaired_cons {c : Char} (plain : c ≠ '\\') (w : List Char) : unpaired (c :: w) = unpaired w := by
  cases w with
  | nil => simp [unpaired, plain]
  | cons d w => rw [unpaired, if_neg plain]

theorem unpaired_escape (c : Char) (w : List Char) : unpaired ('\\' :: c :: w) = unpaired w := rfl

theorem unpaired_append {v : List Char} (plain : '\\' ∉ v) (w : List Char) : unpaired (v ++ w) = unpaired w := by
  induction v with
  | nil => rfl
  | cons c v ih =>
    rw [List.mem_cons, not_or] at plain
    rw [List.cons_append, unpaired_cons (Ne.symm plain.1), ih plain.2]

theorem unpaired_ends {v : List Char} (waits : unpaired v) : ∃ front, v = front ++ ['\\'] := by
  fun_induction unpaired v with
  | case1 => cases waits
  | case2 c => exact ⟨[], by simpa using waits⟩
  | case3 d rest ih =>
    obtain ⟨front, rfl⟩ := ih waits
    exact ⟨'\\' :: d :: front, rfl⟩
  | case4 c d rest _ ih =>
    obtain ⟨front, eq⟩ := ih waits
    exact ⟨c :: front, by rw [eq]; rfl⟩

namespace Regex

/-- What one round reads: a character or, where a backslash escapes, an escaped one. -/
inductive Round (escapes : Bool) : List Char → Prop where
  | plain {c : Char} (other : escapes → c ≠ '\\') : Round escapes [c]
  | escaped {c : Char} (on : escapes) : Round escapes ['\\', c]

theorem Round.unpaired_append {escapes : Bool} {w : List Char} (round : Round escapes w) (on : escapes)
    (rest : List Char) : unpaired (w ++ rest) = unpaired rest := by
  cases round with
  | plain other => exact unpaired_cons (other on) rest
  | escaped _ => exact unpaired_escape _ rest

/-- A cut that is not behind an unpaired backslash is not within a round. -/
theorem Round.prefix_of {escapes : Bool} {w p : List Char} (round : Round escapes w) (some_ : p ≠ [])
    (paired : escapes → unpaired p = false) {v u : List Char} (same : p ++ v = w ++ u) : ∃ rest, p = w ++ rest := by
  cases p with
  | nil => exact absurd rfl some_
  | cons d p =>
    cases round with
    | @plain c other =>
      obtain ⟨rfl, _⟩ := List.cons.inj same
      exact ⟨p, rfl⟩
    | @escaped c on =>
      obtain ⟨rfl, behind⟩ := List.cons.inj same
      cases p with
      | nil => cases paired on
      | cons e p =>
        obtain ⟨rfl, _⟩ := List.cons.inj behind
        exact ⟨p, rfl⟩

/-- Whatever the expression matches is a round. -/
def ReadsRounds (escapes : Bool) (body : Regex) : Prop :=
  ∀ ⦃s u : Spot⦄ ⦃m mu : Marks⦄, body.Matches s m u mu → mu = m ∧ ∃ w, Round escapes w ∧ Spot.Reads s w u

section Cycles

variable {escapes greedy : Bool} {body : Regex} {after : Spot → Prop} {s t c : Spot} {m mt : Marks}

/-- The text of rounds leaves nothing unpaired. -/
theorem Cycles.reads (rounds : ReadsRounds escapes body) (h : Cycles body.Matches body.Picks greedy after 0 none s m t mt) :
    mt = m ∧ ∃ w, Spot.Reads s w t ∧ (escapes → ∀ rest, unpaired (w ++ rest) = unpaired rest) := by
  generalize low : 0 = lo, high : none = hi at h
  induction h with
  | must => cases low
  | more _ _ first _ ih =>
    subst high
    obtain ⟨rfl, w, round, reads⟩ := rounds first.matches
    obtain ⟨rfl, v, more, kept⟩ := ih rfl rfl
    refine ⟨rfl, w ++ v, reads.trans more, fun on rest => ?_⟩
    rw [List.append_assoc, round.unpaired_append on, kept on]
  | leave => exact ⟨rfl, [], .refl _, fun _ _ => rfl⟩

/-- The rounds from a cut on. -/
theorem Cycles.from_cut (rounds : ReadsRounds escapes body)
    (h : Cycles body.Matches body.Picks greedy after 0 none s m t mt) {p : List Char} (reads : Spot.Reads s p c)
    (paired : escapes → unpaired p = false) (within : c.pos ≤ t.pos) :
    Cycles body.Matches body.Picks greedy after 0 none c m t mt := by
  generalize low : 0 = lo, high : none = hi at h
  induction h generalizing p with
  | must => cases low
  | @more hi s u t m mu mt room wanted first rest ih =>
    subst high
    -- The cut is where the first round begins, or that round is in front of it: no round is cut in two.
    by_cases here : p = []
    · subst here
      obtain rfl := reads.eq_of_nil
      exact .more room wanted first rest
    · obtain ⟨rfl, w, round, readsW⟩ := rounds first.matches
      obtain ⟨p', rfl⟩ := round.prefix_of here paired (reads.rest.symm.trans readsW.rest)
      obtain ⟨u', front, more⟩ := reads.split
      obtain rfl := front.unique readsW
      refine ih more (fun on => ?_) within rfl rfl
      rw [← paired on, round.unpaired_append on]
  | @leave hi s m unwanted =>
    subst high
    have size : Text.byteSize p = 0 := by
      have pos := reads.pos
      omega
    obtain rfl := Text.byteSize_eq_zero.mp size
    obtain rfl := reads.eq_of_nil
    exact .leave unwanted

end Cycles

end Regex

/-- How a token is delimited: by what it opens, what closes it, which is empty if nothing does, and whether a backslash
escapes the character behind it. -/
structure Delimiting where
  opening : List Char
  closing : List Char
  escapes : Bool

/-- A token is cut between `p` and `r`: past its opening, not behind a backslash that waits for a character, and not
within its closing if it has one. -/
structure Delimiting.Cut (d : Delimiting) (p r : List Char) : Prop where
  past : d.opening <+: p
  paired : d.escapes → unpaired p = false
  before : ∀ x, p ++ r = d.opening ++ x ++ d.closing → (d.escapes → unpaired x = false) →
    p.length ≤ (d.opening ++ x).length

/-- What the rounds of a token and what stands behind them read, a cut is within the rounds. -/
theorem Delimiting.Cut.within {d : Delimiting} {p r w v : List Char} (cut : d.Cut (d.opening ++ p) r)
    (plain : d.escapes → '\\' ∉ d.opening) (word : p ++ r = w ++ v)
    (kept : d.escapes → ∀ rest, unpaired (w ++ rest) = unpaired rest)
    (last : v = d.closing ∨ v = [] ∨ d.escapes ∧ v = ['\\']) : p <+: w := by
  -- What the rounds read and the cut's front begin the same text, so the shorter one begins the longer.
  have short : p.length ≤ w.length := by
    rcases last with rfl | rfl | ⟨on, rfl⟩
    · have bound := cut.before w (by rw [List.append_assoc, word, List.append_assoc]) fun on => by
        simpa [unpaired] using kept on []
      simpa using bound
    · have length := congrArg List.length word
      simp only [List.length_append, List.length_nil] at length
      omega
    · -- Behind the last backslash nothing is left, so a cut there would be behind an unpaired one.
      refine Nat.le_of_not_lt fun longer => ?_
      have length := congrArg List.length word
      simp only [List.length_append, List.length_singleton] at length
      obtain rfl : r = [] := List.eq_nil_of_length_eq_zero (by omega)
      have waits := cut.paired on
      rw [unpaired_append (plain on), ← List.append_nil p, word, kept on] at waits
      cases waits
  exact List.prefix_of_prefix_length_le (List.prefix_append p r) (word ▸ List.prefix_append w v) short

namespace Regex

variable {d : Delimiting} {greedy : Bool} {body close close' : Regex}

/-- Whatever the expression matches is the closing, or nothing, or a backslash that escapes nothing. -/
def ReadsClosing (d : Delimiting) (close : Regex) : Prop :=
  ∀ ⦃s u : Spot⦄ ⦃m mu : Marks⦄, close.Matches s m u mu →
    ∃ v, Spot.Reads s v u ∧ (v = d.closing ∨ v = [] ∨ d.escapes ∧ v = ['\\'])

/-- The rounds that are left, and one closing for another. -/
def Switches (greedy : Bool) (body close close' : Regex) : Prop :=
  ∀ ⦃s u t : Spot⦄, Cycles body.Matches body.Picks greedy (LeadsTo close.Matches fun _ => True) 0 none s [] u [] →
    close.Picks (fun _ => True) u [] t [] →
    Cycles body.Matches body.Picks greedy (LeadsTo close'.Matches fun _ => True) 0 none s [] u [] ∧
      close'.Picks (fun _ => True) u [] t []

theorem switches_self : Switches greedy body close close := fun _ _ _ cycles picked => ⟨cycles, picked⟩

/-- From a cut on, what is left of a token is picked without the opening. -/
theorem Picks.from_cut (plain : d.escapes → '\\' ∉ d.opening) (rounds : ReadsRounds d.escapes body)
    (closes : ReadsClosing d close) (switches : Switches greedy body close close') {s c t : Spot} {p r : List Char}
    (before : Spot.Reads s p c) (behind : Spot.Reads c r t) (cut : d.Cut p r)
    (picked : (Regex.seq (.text d.opening) (.seq (.times 0 none greedy body) close)).Picks (fun _ => True) s [] t []) :
    (Regex.seq (.times 0 none greedy body) close').Picks (fun _ => True) c [] t [] := by
  obtain ⟨o, _, ⟨opening, rfl⟩, u, mu, cycles, closed⟩ := picked
  obtain ⟨rfl, w, readsW, kept⟩ := Cycles.reads rounds cycles
  obtain ⟨v, readsV, last⟩ := closes closed.matches
  obtain ⟨p, rfl⟩ := cut.past
  obtain ⟨o', front, inner⟩ := before.split
  obtain rfl := front.unique opening
  have word : p ++ r = w ++ v := (inner.trans behind).word_eq (readsW.trans readsV)
  obtain ⟨x, rfl⟩ := cut.within plain word kept last
  obtain ⟨c', readsP, rest⟩ := readsW.split
  obtain rfl := readsP.unique inner
  have paired : d.escapes → unpaired p = false := fun on => by
    rw [← unpaired_append (plain on)]
    exact cut.paired on
  obtain ⟨cycles', closed'⟩ := switches (Cycles.from_cut rounds cycles inner paired rest.pos_le) closed
  exact ⟨u, [], cycles', closed'⟩

/-- A round of the characters in a set. -/
theorem readsRounds_set (members : CharSet) : ReadsRounds false (.set members) := by
  rintro s u m mu ⟨c, _, reads, rfl⟩
  exact ⟨rfl, [c], .plain (fun no => by cases no), reads⟩

/-- Characters of a set, and any character behind a backslash. -/
def escaped (plain : CharSet) : Regex := .alt (.set plain) (.seq (.text ['\\']) (.set .any))

@[simp] theorem guarded_escaped (plain : CharSet) : (escaped plain).guarded = true := rfl

theorem readsRounds_escaped {plain : CharSet} (outside : plain.mem '\\' = false) :
    ReadsRounds true (escaped plain) := by
  rintro s u m mu (⟨c, mem, reads, rfl⟩ | ⟨o, _, ⟨slash, rfl⟩, c, _, reads, rfl⟩)
  · refine ⟨rfl, [c], .plain (fun _ same => ?_), reads⟩
    rw [same, outside] at mem
    cases mem
  · exact ⟨rfl, ['\\', c], .escaped rfl, slash.trans reads⟩

theorem readsClosing_empty (d : Delimiting) : ReadsClosing d .empty := by
  rintro s u m mu ⟨rfl, _⟩
  exact ⟨[], .refl _, .inr (.inl rfl)⟩

theorem readsClosing_text (d : Delimiting) : ReadsClosing d (.text d.closing) :=
  fun _ _ _ _ ⟨reads, _⟩ => ⟨d.closing, reads, .inl rfl⟩

theorem readsClosing_look (d : Delimiting) (a : Assertion) : ReadsClosing d (.alt (.text d.closing) (.look a)) := by
  rintro s u m mu (⟨reads, _⟩ | ⟨_, rfl, _⟩)
  · exact ⟨d.closing, reads, .inl rfl⟩
  · exact ⟨[], .refl _, .inr (.inl rfl)⟩

/-- Nothing behind an expression makes no difference. -/
theorem picks_seq_empty {a : Regex} {after : Spot → Prop} {s t : Spot} {m mt : Marks} :
    (Regex.seq a .empty).Picks after s m t mt ↔ a.Picks after s m t mt := by
  have same : LeadsTo Regex.empty.Matches after = after := by
    funext u
    apply propext
    constructor
    · rintro ⟨_, _, _, ⟨rfl, _⟩, holds⟩
      exact holds
    · intro holds
      exact ⟨[], u, [], ⟨rfl, rfl⟩, holds⟩
  constructor
  · rintro ⟨u, mu, picked, rfl, rfl⟩
    rwa [same] at picked
  · intro picked
    exact ⟨t, mt, by rwa [same], rfl, rfl⟩

/-- A closing, or the end at which a last backslash may wait for a character. -/
def closedOr (closing : List Char) (a : Assertion) : Regex :=
  .alt (.text closing) (.seq (.times 0 (some 1) true (.text ['\\'])) (.look a))

@[simp] theorem guarded_closedOr (closing : List Char) (a : Assertion) : (closedOr closing a).guarded = true := rfl

theorem readsClosing_closedOr {d : Delimiting} (on : d.escapes) (a : Assertion) :
    ReadsClosing d (closedOr d.closing a) := by
  rintro s u m mu (⟨reads, _⟩ | ⟨o, _, ⟨n, _, few, slashes⟩, _, rfl, _⟩)
  · exact ⟨d.closing, reads, .inl rfl⟩
  · have most := few 1 rfl
    cases n with
    | zero =>
      obtain ⟨rfl, _⟩ := slashes
      exact ⟨[], .refl _, .inr (.inl rfl)⟩
    | succ n =>
      obtain rfl : n = 0 := by omega
      obtain ⟨_, _, ⟨reads, _⟩, rfl, _⟩ := slashes
      exact ⟨['\\'], reads, .inr (.inr ⟨on, rfl⟩)⟩

/-- Greedy rounds that stop where none can follow are picked whatever comes behind them. -/
theorem Cycles.behind {after after' : Spot → Prop} {s t : Spot} {m mt : Marks}
    (steady : ∀ {after after' : Spot → Prop} {s u : Spot} {m mu : Marks}, body.Picks after s m u mu → body.Picks after' s m u mu)
    (stops : ∀ m u mu, ¬ body.Matches t m u mu) (h : Cycles body.Matches body.Picks true after 0 none s m t mt) :
    Cycles body.Matches body.Picks true after' 0 none s m t mt := by
  generalize low : 0 = lo, high : none = hi at h
  induction h with
  | must => cases low
  | more room _ first _ ih =>
    subst high
    exact .more room (fun no => by cases no) (steady first) (ih stops rfl rfl)
  | leave =>
    subst high
    refine .leave fun _ _ leads => ?_
    obtain ⟨m, u, mu, matched, _⟩ := leads
    exact stops m u mu matched

/-- A token that must be closed can be taken up by rounds that may also end with the source. -/
theorem switches_closedOr {plain : CharSet} {q : Char} (outside : plain.mem '\\' = false) (other : plain.mem q = false)
    (apart : q ≠ '\\') (a : Assertion) : Switches true (escaped plain) (.text [q]) (closedOr [q] a) := by
  rintro s u t cycles ⟨reads, _⟩
  have next : u.rest = q :: t.rest := reads.rest
  refine ⟨Cycles.behind ?_ ?_ cycles, .inl ⟨reads, rfl⟩⟩
  -- Which of its two ways a round goes is a matter of the next character alone.
  · rintro after after' s u m mu (picked | ⟨_, o, mo, ⟨slash, rfl⟩, picked⟩)
    · exact .inl picked
    · refine .inr ⟨?_, o, mo, ⟨slash, rfl⟩, picked⟩
      rintro ⟨_, v, _, ⟨c, mem, reads', _⟩, _⟩
      obtain ⟨same, _⟩ := List.cons.inj (reads'.rest.symm.trans slash.rest)
      rw [same, outside] at mem
      cases mem
  -- In front of the closing neither way is open.
  · rintro m v mu (⟨c, mem, reads', _⟩ | ⟨o, _, ⟨slash, _⟩, _⟩)
    · obtain ⟨same, _⟩ := List.cons.inj (reads'.rest.symm.trans next)
      rw [same, other] at mem
      cases mem
    · exact apart (List.cons.inj (slash.rest.symm.trans next)).1.symm

end Regex

namespace Pattern

variable {token recovery : Pattern} {d : Delimiting} {before word behind : List Char}

/-- The source that consists of these parts, one after another. -/
def sourceOf (before word behind : List Char) : Source := .ofString (String.ofList (before ++ word ++ behind))

/-- Behind `before` the pattern matches exactly `word`. -/
def Takes (p : Pattern) (before word behind : List Char) : Prop :=
  ∃ m, p.findFrom? (sourceOf before word behind) (Text.byteSize before) = some m ∧ m.start = Text.byteSize before ∧
    m.stop = Text.byteSize (before ++ word)

/-- What a pattern takes it reports between the spots. -/
theorem takes_iff {p : Pattern} : p.Takes before word behind ↔
    ∃ (s t : Spot) (marks : Regex.Marks), Spot.Reads (.start (before ++ word ++ behind)) before s ∧
      Spot.Reads s word t ∧ p.Reports s t marks := by
  have chars : (sourceOf before word behind).chars = before ++ word ++ behind := by simp [sourceOf]
  have whole : (Spot.start (before ++ word ++ behind)).rest = (before ++ word) ++ behind := rfl
  obtain ⟨s, first, last⟩ := (Spot.Reads.of_rest whole).split
  obtain ⟨t, second⟩ : ∃ t, Spot.Reads s word t := ⟨_, last⟩
  have insideS : s.In (sourceOf before word behind).chars := chars ▸ ⟨before, first⟩
  have posS : s.pos = Text.byteSize before := by simpa [Spot.start] using first.pos
  have posT : t.pos = Text.byteSize (before ++ word) := by rw [second.pos, posS, Text.byteSize_append]
  constructor
  · rintro ⟨m, found, start, stop⟩
    obtain ⟨a, b, marks, occurs, _⟩ := findFrom?_some found
    obtain rfl := occurs.inside.eq_of_pos insideS (by rw [← occurs.start, start, posS])
    obtain ⟨v, readsB⟩ := Regex.Matches.reads occurs.covers
    obtain rfl := (occurs.inside.reads readsB).eq_of_pos (insideS.reads second) (by rw [← occurs.stop, stop, posT])
    exact ⟨_, _, marks, first, second, occurs.reports⟩
  · rintro ⟨s', t', marks, first', second', reports⟩
    obtain rfl := first'.unique first
    obtain rfl := second'.unique second
    obtain ⟨m, found, start, stop⟩ := findFrom?_of_reports insideS reports
    rw [posS] at found start
    exact ⟨m, found, start, stop.trans posT⟩

/-- Wherever the token is cut, the other pattern takes exactly what is left of it. -/
def Resumes (token recovery : Pattern) (d : Delimiting) : Prop :=
  ∀ u p r v, token.Takes u (p ++ r) v → d.Cut p r → recovery.Takes (u ++ p) r v

variable {greedy : Bool} {body close close' : Regex}

theorem resumes_of_picks (groupless : token.parsed.regex.groupless) (guarded : token.parsed.regex.guarded)
    (tokenPicks : ∀ {s t : Spot} {w : List Char}, Spot.Reads s (d.opening ++ w) t →
      token.parsed.regex.Picks (fun _ => True) s [] t [] →
      (Regex.seq (.text d.opening) (.seq (.times 0 none greedy body) close)).Picks (fun _ => True) s [] t [])
    (recoveryPicks : ∀ {s t : Spot}, (Regex.seq (.times 0 none greedy body) close').Picks (fun _ => True) s [] t [] →
      recovery.parsed.regex.Picks (fun _ => True) s [] t [])
    (plain : d.escapes → '\\' ∉ d.opening) (rounds : Regex.ReadsRounds d.escapes body)
    (closes : Regex.ReadsClosing d close) (switches : Regex.Switches greedy body close close') : token.Resumes recovery d := by
  intro u p r v takes cut
  obtain ⟨s, t, marks, first, second, reports⟩ := takes_iff.mp takes
  have picked := reports.picks guarded
  obtain rfl := picked.matches.marks_eq groupless
  obtain ⟨c, before, behind⟩ := second.split
  obtain ⟨x, eq⟩ := cut.past
  have opened : Spot.Reads s (d.opening ++ (x ++ r)) t := by rwa [← List.append_assoc, eq]
  have left := Regex.Picks.from_cut plain rounds closes switches before behind cut (tokenPicks opened picked)
  have whole : u ++ p ++ r ++ v = u ++ (p ++ r) ++ v := by simp
  refine takes_iff.mpr ⟨c, t, [], ?_, behind, reports_of_picks (recoveryPicks left)⟩
  rw [whole]
  exact first.trans before

theorem resumes_of_regex
    (tokenRegex : token.parsed.regex = .seq (.text d.opening) (.seq (.times 0 none greedy body) close))
    (recoveryRegex : recovery.parsed.regex = .seq (.times 0 none greedy body) close')
    (groupless : (Regex.seq (.text d.opening) (.seq (.times 0 none greedy body) close)).groupless)
    (guarded : (Regex.seq (.text d.opening) (.seq (.times 0 none greedy body) close)).guarded)
    (plain : d.escapes → '\\' ∉ d.opening) (rounds : Regex.ReadsRounds d.escapes body)
    (closes : Regex.ReadsClosing d close) (switches : Regex.Switches greedy body close close') : token.Resumes recovery d :=
  resumes_of_picks (tokenRegex ▸ groupless) (tokenRegex ▸ guarded) (fun _ picked => tokenRegex ▸ picked)
    (fun picked => recoveryRegex ▸ picked) plain rounds closes switches

/-- A quoted text that may be left open is taken up again. -/
theorem resumes_quoted {quote : Char} {a : Regex.Assertion} (set : Regex.CharSet)
    (tokenRegex : token.parsed.regex =
      .seq (.text [quote]) (.seq (.times 0 none true (.escaped set)) (.closedOr [quote] a)))
    (recoveryRegex : recovery.parsed.regex = .seq (.times 0 none true (.escaped set)) (.closedOr [quote] a))
    (outside : set.mem '\\' = false) (apart : quote ≠ '\\') (some_ : (Regex.escaped set).consumes) :
    token.Resumes recovery ⟨[quote], [quote], true⟩ :=
  resumes_of_regex tokenRegex recoveryRegex rfl (by simp [Regex.guarded, some_]) (fun _ => by simpa using Ne.symm apart)
    (Regex.readsRounds_escaped outside) (Regex.readsClosing_closedOr (d := ⟨[quote], [quote], true⟩) rfl a)
    Regex.switches_self

/-- A text in brackets that must be closed is taken up again. -/
theorem resumes_bracketed {opening closing : Char} {a : Regex.Assertion} (set : Regex.CharSet)
    (tokenRegex : token.parsed.regex =
      .seq (.text [opening]) (.seq (.times 0 none true (.escaped set)) (.text [closing])))
    (recoveryRegex : recovery.parsed.regex = .seq (.times 0 none true (.escaped set)) (.closedOr [closing] a))
    (outside : set.mem '\\' = false) (other : set.mem closing = false) (apart : opening ≠ '\\' ∧ closing ≠ '\\')
    (some_ : (Regex.escaped set).consumes) : token.Resumes recovery ⟨[opening], [closing], true⟩ :=
  resumes_of_regex tokenRegex recoveryRegex rfl (by simp [Regex.guarded, some_])
    (fun _ => by simpa using Ne.symm apart.1) (Regex.readsRounds_escaped outside)
    (Regex.readsClosing_text ⟨[opening], [closing], true⟩) (Regex.switches_closedOr outside other apart.2 a)

/-- A text up to the first closing or the end is taken up again. -/
theorem resumes_until {opening closing : List Char} {a : Regex.Assertion} (set : Regex.CharSet)
    (tokenRegex : token.parsed.regex =
      .seq (.text opening) (.seq (.times 0 none false (.set set)) (.alt (.text closing) (.look a))))
    (recoveryRegex : recovery.parsed.regex = .seq (.times 0 none false (.set set)) (.alt (.text closing) (.look a)))
    (some_ : (Regex.set set).consumes) : token.Resumes recovery ⟨opening, closing, false⟩ :=
  resumes_of_regex tokenRegex recoveryRegex rfl (by simp [Regex.guarded, some_]) (fun no => by cases no)
    (Regex.readsRounds_set set) (Regex.readsClosing_look ⟨opening, closing, false⟩ a) Regex.switches_self

/-- A text of characters from a set, which nothing closes, is taken up again. -/
theorem resumes_while {opening : List Char} (set : Regex.CharSet)
    (tokenRegex : token.parsed.regex = .seq (.text opening) (.times 0 none true (.set set)))
    (recoveryRegex : recovery.parsed.regex = .times 0 none true (.set set)) (some_ : (Regex.set set).consumes) :
    token.Resumes recovery ⟨opening, [], false⟩ := by
  refine resumes_of_picks (d := ⟨opening, [], false⟩) ?_ ?_ ?_ ?_ (fun no => by cases no)
    (Regex.readsRounds_set set) (Regex.readsClosing_empty _)
    (Regex.switches_self : Regex.Switches true (.set set) .empty .empty)
  · rw [tokenRegex]
    rfl
  · simp [tokenRegex, Regex.guarded, some_]
  · intro s t _ _ picked
    rw [tokenRegex] at picked
    obtain ⟨o, _, ⟨reads, rfl⟩, rounds⟩ := picked
    exact ⟨o, _, ⟨reads, rfl⟩, Regex.picks_seq_empty.mpr rounds⟩
  · intro s t picked
    rw [recoveryRegex]
    exact Regex.picks_seq_empty.mp picked

end Pattern

end Gloss

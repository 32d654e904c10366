import Gloss.Proofs.Filter.Torn
import Gloss.Proofs.Language.Perl.Runs
import Gloss.Proofs.Markup.Telling

/-!
Highlighted code. A body in which variables are replaced is recorded as markup with its variables in tags. If it is a
string, the filter that marks escapes runs over this markup, and a backslash that stands right before a variable takes the
bracket of its tag along: the tag is torn, and its name is shown with the text. Nothing else is lost or added. So what
highlighted code reads back as is known for every source, and it is the source unless a string escapes a variable.
-/
namespace Gloss.Language.Perl

open Text (Spot Source)
open Markup (Shows Telling Torn WellNamed escapeChar escapeChars)

section Tear

/-- Does a variable begin the text? It is a dollar or an at sign with a letter or an underscore behind it. -/
def beginsVariable : List Char → Bool
  | c :: d :: _ => (c == '$' || c == '@') && (d.isAlpha || d == '_')
  | _ => false

/-- A variable in the text is escaped: a backslash that no other one escapes stands right before it. -/
def EscapesVariable (text : List Char) : Prop :=
  ∃ front behind, text = front ++ behind ∧ unpaired front ∧ beginsVariable behind

/-- The text with what is left of a torn tag before each variable that is escaped: the name in it, and its last bracket. -/
def tear : List Char → List Char
  | [] => []
  | [c] => [c]
  | c :: d :: rest =>
    if c = '\\' then
      if beginsVariable (d :: rest) then c :: (Kind.variable_.name.toList ++ '>' :: d :: tear rest)
      else c :: d :: tear rest
    else c :: tear (d :: rest)

variable {c d : Char} {s v w rest : List Char}

theorem beginsVariable_head (begins : beginsVariable s) : ∃ c rest, s = c :: rest ∧ (c = '$' ∨ c = '@') := by
  unfold beginsVariable at begins
  split at begins
  · simp only [Bool.and_eq_true, Bool.or_eq_true, beq_iff_eq] at begins
    exact ⟨_, _, rfl, begins.1⟩
  · cases begins

theorem beginsVariable_append (begins : beginsVariable s) : beginsVariable (s ++ rest) := by
  match s with
  | _ :: _ :: _ => exact begins

theorem tear_cons (plain : c ≠ '\\') (s : List Char) : tear (c :: s) = c :: tear s := by
  cases s with
  | nil => rfl
  | cons d s => rw [tear, if_neg plain]

theorem tear_append (plain : '\\' ∉ v) (s : List Char) : tear (v ++ s) = v ++ tear s := by
  induction v with
  | nil => rfl
  | cons c v ih =>
    rw [List.mem_cons, not_or] at plain
    rw [List.cons_append, tear_cons (Ne.symm plain.1), ih plain.2, List.cons_append]

theorem tear_escape (other : beginsVariable (d :: rest) = false) : tear ('\\' :: d :: rest) = '\\' :: d :: tear rest := by
  simp [tear, other]

/-- Up to where a variable begins, nothing is torn. -/
theorem tear_before (never : Pattern.Never (beginsVariable ·) w s) (begins : beginsVariable s) :
    tear (w ++ s) = w ++ ((if unpaired w then Kind.variable_.name.toList ++ ['>'] else []) ++ tear s) := by
  fun_induction unpaired w with
  | case1 => rfl
  | case2 c =>
    obtain ⟨d, rest, rfl, symbol⟩ := beginsVariable_head begins
    have other : d ≠ '\\' := by rcases symbol with rfl | rfl <;> decide
    rw [tear_cons other]
    by_cases backslash : c = '\\'
    · simp [backslash, tear, begins]
    · simp [backslash, tear_cons, other]
  | case3 d rest ih =>
    have none_ := Pattern.Never.here (Pattern.Never.behind (v := ['\\']) never)
    simp only [List.cons_append]
    rw [tear_escape (by simpa using none_), ih (Pattern.Never.behind (v := ['\\', d]) never)]
  | case4 c d rest plain ih =>
    rw [List.cons_append, tear_cons plain, ih (Pattern.Never.behind (v := [c]) never)]
    rfl

theorem not_escapesVariable_of_length (short : s.length ≤ 1) : ¬ EscapesVariable s := by
  rintro ⟨front, behind, rfl, waits, begins⟩
  cases front with
  | nil => cases waits
  | cons c front =>
    obtain ⟨rfl, rfl⟩ : front = [] ∧ behind = [] := by simpa using short
    cases begins

theorem escapesVariable_cons (plain : c ≠ '\\') : EscapesVariable (c :: s) ↔ EscapesVariable s := by
  constructor
  · rintro ⟨front, behind, eq, waits, begins⟩
    cases front with
    | nil => cases waits
    | cons d front =>
      obtain ⟨rfl, rfl⟩ := List.cons.inj eq
      exact ⟨front, behind, rfl, (unpaired_cons plain front).symm.trans waits, begins⟩
  · rintro ⟨front, behind, rfl, waits, begins⟩
    exact ⟨c :: front, behind, rfl, (unpaired_cons plain front).trans waits, begins⟩

theorem escapesVariable_escape :
    EscapesVariable ('\\' :: d :: s) ↔ beginsVariable (d :: s) ∨ EscapesVariable s := by
  constructor
  · rintro ⟨front, behind, eq, waits, begins⟩
    match front with
    | [] => cases waits
    | [_] =>
      obtain ⟨_, rfl⟩ := List.cons.inj eq
      exact .inl begins
    | _ :: e :: front =>
      obtain ⟨rfl, rfl, rfl⟩ : _ = '\\' ∧ e = d ∧ front ++ behind = s := by simpa [eq_comm] using eq
      exact .inr ⟨front, behind, rfl, waits, begins⟩
  · rintro (begins | ⟨front, behind, rfl, waits, begins⟩)
    · exact ⟨['\\'], d :: s, rfl, rfl, begins⟩
    · exact ⟨'\\' :: d :: front, behind, rfl, waits, begins⟩

/-- A text in which a variable is escaped gets longer, any other stays as it is. -/
theorem tear_cases (s : List Char) :
    EscapesVariable s ∧ s.length < (tear s).length ∨ ¬ EscapesVariable s ∧ tear s = s := by
  fun_induction tear s with
  | case1 => exact .inr ⟨not_escapesVariable_of_length (by simp), rfl⟩
  | case2 c => exact .inr ⟨not_escapesVariable_of_length (by simp), rfl⟩
  | case3 d rest begins ih =>
    refine .inl ⟨escapesVariable_escape.mpr (.inl begins), ?_⟩
    have least : rest.length ≤ (tear rest).length := by
      rcases ih with ⟨_, longer⟩ | ⟨_, same⟩
      · exact Nat.le_of_lt longer
      · exact Nat.le_of_eq (congrArg List.length same.symm)
    simp only [List.length_cons, List.length_append]
    omega
  | case4 d rest other ih =>
    rw [escapesVariable_escape, or_iff_right other]
    simpa using ih
  | case5 c d rest plain ih =>
    rw [escapesVariable_cons plain]
    simpa using ih

example : tear "\\$x \\\\$x \\@".toList = "\\VARIABLE>$x \\\\$x \\@".toList := by decide

theorem beginsVariable_other (other : (c == '$' || c == '@') = false) (s : List Char) : beginsVariable (c :: s) = false := by
  cases s <;> simp [beginsVariable, other]

theorem beginsVariable_escapeChars (s : List Char) : beginsVariable (escapeChars s) = beginsVariable s := by
  cases s with
  | nil => rfl
  | cons c s =>
    rw [Markup.escapeChars_cons]
    rcases Markup.escapeChar_cases c with single | ⟨special, _, entity, _⟩
    · rw [single]
      cases s with
      | nil => rfl
      | cons d s =>
        rw [Markup.escapeChars_cons]
        rcases Markup.escapeChar_cases d with single | ⟨special, _, entity, _⟩
        · rw [single]
          rfl
        · have plain : ∀ d ∈ ['&', '<', '>'], (d.isAlpha || d == '_') = false := by
            simp only [List.mem_cons, List.not_mem_nil, or_false, forall_eq_or_imp, forall_eq]
            decide
          rw [entity]
          simp only [List.cons_append, beginsVariable, plain d special]
          rfl
    · have plain : ∀ c ∈ ['&', '<', '>'], (c == '$' || c == '@') = false := by
        simp only [List.mem_cons, List.not_mem_nil, or_false, forall_eq_or_imp, forall_eq]
        decide
      rw [entity, List.cons_append, beginsVariable_other (by decide), beginsVariable_other (plain c special)]

/-- A character that is escaped is markup behind the backslash, if no variable begins with it. -/
theorem tear_escapeChar (other : beginsVariable (d :: s) = false) :
    tear (escapeChars ('\\' :: d :: s)) = escapeChars ['\\', d] ++ tear (escapeChars s) := by
  have whole := beginsVariable_escapeChars (d :: s)
  rw [other, Markup.escapeChars_cons] at whole
  simp only [Markup.escapeChars_cons, Markup.escapeChars_nil, List.append_nil]
  show tear ('\\' :: (escapeChar d ++ escapeChars s)) = '\\' :: escapeChar d ++ _
  rcases Markup.escapeChar_cases d with single | ⟨_, rest, entity, absent⟩
  · rw [single] at whole ⊢
    exact tear_escape whole
  · rw [entity] at whole ⊢
    simp only [List.cons_append] at whole ⊢
    rw [tear_escape whole, tear_append absent]

/-- Text that is torn as markup tells what it is torn to as text. -/
theorem telling_tear (s : List Char) : Telling (tear (escapeChars s)) (tear s) := by
  fun_induction tear s with
  | case1 => exact .nil
  | case2 c =>
    have same : tear (escapeChars [c]) = escapeChars [c] := by
      by_cases slash : c = '\\'
      · rw [slash]
        rfl
      · simpa [Markup.escapeChars_cons, tear] using tear_append (Markup.backslash_not_mem_escapeChar slash) []
    rw [same]
    exact Markup.telling_escapeChars [c]
  | case3 d rest begins ih =>
    -- The sign that a variable begins with is no entity.
    obtain ⟨_, _, eq, symbol⟩ := beginsVariable_head begins
    obtain ⟨rfl, rfl⟩ := List.cons.inj eq
    have single : escapeChar d = [d] := by rcases symbol with rfl | rfl <;> rfl
    have begins' : beginsVariable (d :: escapeChars rest) := by
      rw [← beginsVariable_escapeChars, Markup.escapeChars_cons, single] at begins
      exact begins
    have torn : tear (escapeChars ('\\' :: d :: rest)) =
        ['\\'] ++ (Kind.variable_.name.toList ++ ['>']) ++ [d] ++ tear (escapeChars rest) := by
      rw [Markup.escapeChars_cons, Markup.escapeChars_cons, single]
      show tear ('\\' :: d :: escapeChars rest) = _
      simp [tear, begins']
    have front : Telling (['\\'] ++ (Kind.variable_.name.toList ++ ['>'])) (['\\'] ++ (Kind.variable_.name.toList ++ ['>'])) :=
      Markup.telling_plain (by decide)
    have sign : Telling [d] [d] := by
      have whole := Markup.telling_escapeChars [d]
      rwa [Markup.escapeChars_cons, single] at whole
    rw [torn]
    simpa using (front.append sign).append ih
  | case4 d rest other ih =>
    rw [tear_escapeChar (by simpa using other)]
    exact (Markup.telling_escapeChars ['\\', d]).append ih
  | case5 c d rest plain ih =>
    rw [Markup.escapeChars_cons, tear_append (Markup.backslash_not_mem_escapeChar plain)]
    have first := Markup.telling_escapeChars [c]
    rw [Markup.escapeChars_cons, Markup.escapeChars_nil, List.append_nil] at first
    exact first.append ih

end Tear

section Marked

/-- What the pattern for variables is read as: a sign, a letter or an underscore, and more of a word. -/
def variableRegex : Regex :=
  .seq (.set ⟨[(36, 36), (64, 64)]⟩)
    (.seq (.set ⟨[(65, 90), (95, 95), (97, 122)]⟩) (.times 0 none true (.set .word)))

theorem variable_regex : variable_.parsed.regex = variableRegex := by decide +kernel

theorem mem_signs (c : Char) : (⟨[(36, 36), (64, 64)]⟩ : Regex.CharSet).mem c ↔ (c == '$' || c == '@') := by
  have dollar : c = '$' ↔ c.toNat = 36 := by
    rw [← Char.toNat_inj]
    rfl
  have at_ : c = '@' ↔ c.toNat = 64 := by
    rw [← Char.toNat_inj]
    rfl
  simp only [Regex.CharSet.mem, Unicode.RangeTable.holds, Bool.or_eq_true, beq_iff_eq, dollar, at_]
  grind

theorem mem_letters (c : Char) :
    (⟨[(65, 90), (95, 95), (97, 122)]⟩ : Regex.CharSet).mem c ↔ (c.isAlpha || c == '_') := by
  have underscore : c = '_' ↔ c.toNat = 95 := by
    rw [← Char.toNat_inj]
    rfl
  have upper : c.isUpper ↔ 65 ≤ c.toNat ∧ c.toNat ≤ 90 := decide_eq_true_iff
  have lower : c.isLower ↔ 97 ≤ c.toNat ∧ c.toNat ≤ 122 := by
    rw [← decide_eq_true_iff (p := 97 ≤ c.toNat ∧ c.toNat ≤ 122), Bool.decide_and]
    rfl
  have letter : c.isAlpha ↔ 65 ≤ c.toNat ∧ c.toNat ≤ 90 ∨ 97 ≤ c.toNat ∧ c.toNat ≤ 122 := by
    rw [← upper, ← lower]
    exact Bool.or_eq_true_iff
  simp only [Regex.CharSet.mem, Unicode.RangeTable.holds, Bool.or_eq_true, beq_iff_eq, underscore, letter]
  grind

/-- In a word there is neither a bracket nor a backslash. -/
theorem word_plain : ∀ c ∈ ['<', '\\'], Regex.CharSet.word.mem c = false := by
  simp only [List.mem_cons, List.not_mem_nil, or_false, forall_eq_or_imp, forall_eq]
  decide +kernel

variable {p : Pattern} (regex : p.parsed.regex = variableRegex) {o t : Spot} {marks : Regex.Marks}

include regex

theorem starts_of_beginsVariable (s : Spot) (begins : beginsVariable s.rest) : p.Starts s := by
  obtain ⟨c, d, rest, text, sign, letter⟩ : ∃ c d rest, s.rest = c :: d :: rest ∧ (c == '$' || c == '@') ∧
      (d.isAlpha || d == '_') := by
    unfold beginsVariable at begins
    split at begins
    · next text =>
      rw [Bool.and_eq_true] at begins
      exact ⟨_, _, _, text, begins⟩
    · cases begins
  obtain ⟨u, reads, first⟩ := Regex.matches_set_of_rest (m := []) text ((mem_signs c).mpr sign)
  have text' : u.rest = d :: rest := (List.cons.inj (reads.rest.symm.trans text)).2
  obtain ⟨v, _, second⟩ := Regex.matches_set_of_rest (m := []) text' ((mem_letters d).mpr letter)
  refine ⟨v, [], ?_⟩
  rw [Pattern.Covers, regex]
  exact ⟨u, [], first, v, [], second, Regex.Repeats.none v []⟩

/-- A variable is marked with nothing in it that markup or escapes are made of. -/
theorem text_of_variable (covers : p.Covers o t marks) :
    ∃ v, Spot.Reads o v t ∧ (∀ rest, beginsVariable (v ++ rest)) ∧ '<' ∉ v ∧ '\\' ∉ v := by
  rw [Pattern.Covers, regex] at covers
  obtain ⟨u, _, ⟨c, sign, readsC, rfl⟩, v, _, ⟨d, letter, readsD, rfl⟩, run⟩ := covers
  obtain ⟨_, w, readsW, _, _, members⟩ := Regex.matches_times_set.mp run
  have absent : ∀ x ∈ ['<', '\\'], x ∉ [c] ++ ([d] ++ w) := by
    intro x mark member
    have other : ∀ x ∈ ['<', '\\'], (x == '$' || x == '@') = false ∧ (x.isAlpha || x == '_') = false := by
      simp only [List.mem_cons, List.not_mem_nil, or_false, forall_eq_or_imp, forall_eq]
      decide
    simp only [List.mem_append, List.mem_singleton] at member
    rcases member with rfl | rfl | member
    · exact absurd ((mem_signs x).mp sign) (by simp [(other x mark).1])
    · exact absurd ((mem_letters x).mp letter) (by simp [(other x mark).2])
    · exact absurd (members x member) (by simp [word_plain x mark])
  refine ⟨[c] ++ ([d] ++ w), readsC.trans (readsD.trans readsW), ?_, absent _ (by decide), absent _ (by decide)⟩
  intro rest
  exact Bool.and_eq_true_iff.mpr ⟨(mem_signs c).mp sign, (mem_letters d).mp letter⟩

/-- Text with its variables marked, when its escapes are marked too. -/
theorem torn_tagMatches {text : String} (tagless : '<' ∉ text.toList) :
    Torn (Markup.tagMatches p text .variable_).toList (tear text.toList) := by
  have consumes : p.parsed.regex.consumes := by
    rw [regex]
    decide
  have named : WellNamed .variable_ := by decide
  refine Markup.tagMatches_induction (B := (beginsVariable ·)) (P := fun rest marked => '<' ∉ rest → Torn marked (tear rest))
    consumes named (starts_of_beginsVariable regex) ?_ ?_ text tagless
  · intro rest never tagless
    have same : tear rest = rest := by
      refine ((tear_cases rest).resolve_left ?_).2
      rintro ⟨⟨front, behind, eq, _, begins⟩, _⟩
      have some_ : behind ≠ [] := by
        rintro rfl
        cases begins
      exact never front behind eq some_ (by rwa [List.append_nil])
    rw [same]
    exact .of_plain tagless
  · intro o t w v marked marks never covers reads ih tagless
    obtain ⟨v', reads', begins, plain⟩ := text_of_variable regex covers
    obtain rfl := reads.word_eq reads'
    rw [List.mem_append, List.mem_append, not_or, not_or] at tagless
    rw [tear_before never (begins _), tear_append plain.2]
    simpa using (ih tagless.2.2).element named tagless.1 plain

end Marked

section Rendered

/-- Is the token a string that was recorded with its variables marked? -/
def Interpolated (t : Token) : Prop := t.escaped ∧ t.kind = some .string

instance (t : Token) : Decidable (Interpolated t) := inferInstanceAs (Decidable (_ ∧ _))

/-- What highlighted code reads back as for a token: the text that it stands for, torn if it is an interpolated string. -/
def readBack (t : Token) : List Char := if Interpolated t then tear t.told.toList else t.told.toList

theorem grammar_ruleMap : ∀ e ∈ Perl.grammar.ruleMap, ¬ BodyKind e.1 := by decide

theorem grammar_named : Perl.grammar.Named := by
  have base := Grammar.named_withFilters "perl"
  have without : ((Grammar.withFilters "perl").removeFilter "pcre").Named := ⟨base.words, base.ruleMap⟩
  have shown := (without.showAs command (some .function) (by decide)).showAs .opener none (by decide)
  have full := ((shown.wordsOf .keyword keywords (by decide)).wordsOf .operator wordOperators (by decide)).wordsOf
    .function functions (by decide)
  exact ⟨full.words, full.ruleMap⟩

/-- There is no filter for regular expressions. -/
theorem filtersFor_regex : Perl.grammar.filtersFor .regex = [] := by decide

/-- For tokens of other kinds there are the usual filters. -/
theorem filtersFor_other {kind : Kind} (other : kind ≠ .regex) :
    Perl.grammar.filtersFor kind = (Grammar.withFilters "perl").filters.filter (·.kind == kind) := by
  have filters : Perl.grammar.filters = (Grammar.withFilters "perl").filters.filter (·.name != some "pcre") := rfl
  have only : ∀ f ∈ (Grammar.withFilters "perl").filters, f.name = some "pcre" → f.kind = .regex := by
    simp [Grammar.withFilters]
  rw [Grammar.filtersFor, filters, List.filter_filter]
  refine List.filter_congr fun f member => ?_
  by_cases here : f.kind = kind
  · have kept : f.name ≠ some "pcre" := fun name => other (here.symm.trans (only f member name))
    simp [here, kept]
  · simp [here]

/-- A token as the filters of the stream leave it: those of bodies stay as they are. -/
structure Streamed (t u : Token) : Prop extends t.Recast u where
  body : ∀ kind, BodyKind kind → t.kind = some kind → u = t

variable {ctx : FilterContext}

theorem streamed_refl (t : Token) : Streamed t t := ⟨.refl t, fun _ _ _ => rfl⟩

theorem Streamed.trans {t u v : Token} (first : Streamed t u) (second : Streamed u v) : Streamed t v := by
  refine ⟨first.toRecast.trans second.toRecast, ?_⟩
  intro kind isBody isKind
  obtain rfl := first.body kind isBody isKind
  exact second.body kind isBody isKind

theorem aligned_stream (named : ctx.Named) (ruleMap : ctx.ruleMap = Perl.grammar.ruleMap) (ts : List Token) :
    Aligned Streamed ts (Perl.grammar.streamFilters.foldl (fun ts f => f.apply ctx ts) ts) := by
  have mapped : Aligned Streamed ts (Filter.ruleMap ctx ts) := by
    refine Filter.ruleMap_aligned streamed_refl ?_ ts
    intro t kind shown isKind entry
    refine ⟨Filter.ruleMap_recast named isKind entry, ?_⟩
    intro kind' isBody isKind'
    obtain rfl := Option.some.inj (isKind'.symm.trans isKind)
    rw [ruleMap] at entry
    exact absurd isBody (grammar_ruleMap _ (Keyed.mem_of_get? entry))
  have members : Aligned Streamed (Filter.ruleMap ctx ts) (Filter.members ctx (Filter.ruleMap ctx ts)) := by
    refine Filter.membersFrom_aligned streamed_refl ?_ false (Filter.ruleMap ctx ts)
    intro t isIdent
    refine ⟨Filter.member_recast isIdent, ?_⟩
    intro kind isBody isKind
    obtain rfl := Option.some.inj (isKind.symm.trans isIdent)
    exact absurd isBody (by decide)
  exact Aligned.trans (R := Streamed) (fun _ _ _ => .trans) mapped members

variable {t u : Token} {w : List Char}

/-- A token of text is rendered as what it shows. -/
theorem shows_raw (named : ctx.Named) (raw : t.escaped = false) (shown : t.Shown (escapeChars w)) (wellNamed : t.Named)
    (recast : t.Recast u) : Shows (Markup.renderToken (Perl.grammar.filterToken ctx u)).toList (escapeChars w) := by
  have rawU := recast.escaped.trans raw
  have shownU := recast.shown shown
  have namedU := recast.named wellNamed
  simp only [Grammar.filterToken]
  cases isKind : u.kind with
  | none => exact shownU.render namedU
  | some kind =>
    by_cases regex : kind = .regex
    · subst regex
      simp only [filtersFor_regex, List.foldl_nil]
      exact shownU.render namedU
    · simp only [filtersFor_other regex]
      obtain ⟨filtered, filteredNamed⟩ := Filter.withFilters_keeps named "perl" kind u _ isKind rawU shownU namedU
      exact filtered.render filteredNamed

/-- A string that is markup is rendered as what this is torn to. -/
theorem shows_string {x : List Char} (isKind : t.kind = some .string) (escaped : t.escaped) (torn : Torn t.text.toList x) :
    Shows (Markup.renderToken (Perl.grammar.filterToken ctx t)).toList x := by
  have filters : Perl.grammar.filtersFor .string = [⟨some "string-escape", .string, fun _ => Filter.stringEscapes⟩] := rfl
  have filtered : Perl.grammar.filterToken ctx t = Filter.stringEscapes t := by
    simp only [Grammar.filterToken, isKind, filters, List.foldl_cons, List.foldl_nil]
  rw [filtered]
  refine (Filter.stringEscapes_torn escaped torn).render ?_
  intro kind isKind'
  rw [Filter.stringEscapes_kind, isKind] at isKind'
  obtain rfl := Option.some.inj isKind'
  decide

/-- Regular expressions are rendered as they are. -/
theorem shows_regex {x : List Char} (isKind : t.kind = some .regex) (shown : t.Shown x) :
    Shows (Markup.renderToken (Perl.grammar.filterToken ctx t)).toList x := by
  have filtered : Perl.grammar.filterToken ctx t = t := by
    simp only [Grammar.filterToken, isKind, filtersFor_regex, List.foldl_nil]
  rw [filtered]
  refine shown.render ?_
  intro kind isKind'
  rw [isKind] at isKind'
  obtain rfl := Option.some.inj isKind'
  decide

/-- Each recorded token is rendered as what it reads back as. -/
theorem telling_token (named : ctx.Named) (ofBody : OfBody t) (shown : t.Shown (escapeChars w)) (wellNamed : t.Named)
    (streamed : Streamed t u) :
    Telling (Markup.renderToken (Perl.grammar.filterToken ctx u)).toList (readBack t) := by
  have told := Token.told_of_shown shown
  cases escaped : t.escaped with
  | false =>
    have plain : ¬ Interpolated t := fun ⟨markup, _⟩ => by rw [escaped] at markup; cases markup
    rw [readBack, if_neg plain, told]
    exact (shows_raw named escaped shown wellNamed streamed.toRecast).telling (Markup.telling_escapeChars w)
  | true =>
    obtain ⟨kind, body, isBody, marked⟩ := ofBody escaped
    have isKind : t.kind = some kind := by rw [marked]; rfl
    obtain rfl := streamed.body kind isBody isKind
    by_cases string : kind = .string
    · subst string
      have text : (Markup.escape (String.ofList body)).toList = escapeChars body := by
        rw [Markup.escape, String.toList_ofList, String.toList_ofList]
      have torn : Torn u.text.toList (tear (escapeChars body)) := by
        rw [marked, ← text]
        exact torn_tagMatches variable_regex (text ▸ Markup.not_mem_escapeChars (.inl rfl) body)
      have meant : u.Shown (escapeChars body) := Token.shown_markup escaped (by rw [marked]; exact marked_shows body)
      rw [readBack, if_pos ⟨escaped, isKind⟩, Token.told_of_shown meant]
      exact (shows_string isKind escaped torn).telling (telling_tear body)
    · have plain : ¬ Interpolated u := fun ⟨_, isString⟩ => string (Option.some.inj (isKind.symm.trans isString))
      have regex : kind = .regex := by simpa [string] using isBody
      rw [readBack, if_neg plain, told]
      exact (shows_regex (regex ▸ isKind) shown).telling (Markup.telling_escapeChars w)

/-- Highlighted code reads back as its tokens do. -/
theorem telling_tokens {ts : List Token} (named : ctx.Named) (ruleMap : ctx.ruleMap = Perl.grammar.ruleMap)
    (each : ∀ t ∈ ts, OfBody t ∧ t.Named ∧ ∃ w, t.Shown (escapeChars w)) :
    Telling (Perl.grammar.renderTokens ctx ts).toList (ts.flatMap readBack) := by
  have aligned := aligned_stream named ruleMap ts
  simp only [Grammar.renderTokens, String.toList_join, List.flatMap_map]
  generalize Perl.grammar.streamFilters.foldl (fun ts f => f.apply ctx ts) ts = us at aligned
  induction aligned with
  | nil => exact .nil
  | @cons t u ts us streamed _ ih =>
    obtain ⟨ofBody, wellNamed, w, shown⟩ := each t List.mem_cons_self
    have first := telling_token named ofBody shown wellNamed streamed
    simpa using first.append (ih fun t member => each t (List.mem_cons_of_mem _ member))

end Rendered

section Highlighted

variable {text : String} {y : PerlScanner}

/-- A scanner that is finished is rendered as what its tokens read back as. -/
theorem Finished.strip_tagged (h : Finished text y) :
    Markup.strip (Scanner.tagged y).1 = String.ofList (y.state.tokens.toList.flatMap readBack) := by
  have each : ∀ t ∈ y.state.tokens.toList, OfBody t ∧ t.Named ∧ ∃ w, t.Shown (escapeChars w) := by
    intro t member
    have member := List.mem_reverse.mp member
    obtain ⟨ofBody, wellNamed⟩ := h.spells.each t member
    exact ⟨ofBody, wellNamed, h.spells.shown t member⟩
  have whole := telling_tokens (grammar_named.context h.recorded.defs) rfl each []
  have tagged : (Scanner.tagged y).1 = Perl.grammar.renderTokens (Perl.grammar.context y.state) y.state.tokens.toList := by
    show (y.grammar.tagged y.state).1 = _
    simp only [h.grammar, Grammar.tagged, h.recorded.flat]
  rw [List.append_nil] at whole
  rw [tagged, Markup.strip, whole]
  exact congrArg String.ofList (List.append_nil _)

/-- What a token reads back as is longer than the text that it stands for, or it is this text. -/
theorem readBack_cases (t : Token) :
    (Interpolated t ∧ EscapesVariable t.told.toList) ∧ t.told.toList.length < (readBack t).length ∨
      (Interpolated t → ¬ EscapesVariable t.told.toList) ∧ readBack t = t.told.toList := by
  rw [readBack]
  split
  · next interpolated =>
    rcases tear_cases t.told.toList with ⟨escapes, longer⟩ | ⟨other, same⟩
    · exact .inl ⟨⟨interpolated, escapes⟩, longer⟩
    · exact .inr ⟨fun _ => other, same⟩
  · next plain => exact .inr ⟨fun interpolated => absurd interpolated plain, rfl⟩

theorem length_readBack (ts : List Token) :
    (ts.flatMap (·.told.toList)).length ≤ (ts.flatMap readBack).length := by
  induction ts with
  | nil => simp
  | cons t ts ih =>
    simp only [List.flatMap_cons, List.length_append]
    rcases readBack_cases t with ⟨_, longer⟩ | ⟨_, same⟩
    · omega
    · rw [same]
      omega

/-- Tokens read back as they are just if no variable is escaped in an interpolated string. -/
theorem readBack_eq_iff (ts : List Token) : ts.flatMap readBack = ts.flatMap (·.told.toList) ↔
    ∀ t ∈ ts, Interpolated t → ¬ EscapesVariable t.told.toList := by
  induction ts with
  | nil => simp
  | cons t ts ih =>
    have least := length_readBack ts
    rw [List.flatMap_cons, List.flatMap_cons, List.forall_mem_cons, ← ih]
    rcases readBack_cases t with ⟨⟨interpolated, escapes⟩, longer⟩ | ⟨other, same⟩
    · constructor
      · intro eq
        have lengths := congrArg List.length eq
        rw [List.length_append, List.length_append] at lengths
        omega
      · rintro ⟨other, _⟩
        exact absurd escapes (other interpolated)
    · rw [same, List.append_cancel_left_eq, and_iff_right other]

theorem Finished.strips_iff (h : Finished text y) : Markup.strip (Scanner.tagged y).1 = text ↔
    ∀ t ∈ y.state.tokens.toList, Interpolated t → ¬ EscapesVariable t.told.toList := by
  have whole : y.state.tokens.toList.flatMap (·.told.toList) = text.toList := h.spells.told_eq
  rw [← readBack_eq_iff, h.strip_tagged, whole, ← String.toList_inj, String.toList_ofList]

theorem highlight_eq (text : String) : Scanner.highlight text ({} : PerlScanner) =
    match Scanner.main (started text) with
    | .ok _ y => .ok (Scanner.tagged y).1 (Scanner.tagged y).2
    | .error e y => .error e y := by
  have begun : Scanner.highlight text ({} : PerlScanner) =
      EStateM.bind Scanner.main (fun _ => modifyGet Scanner.tagged) (started text) := rfl
  rw [begun, EStateM.bind]
  split
  · next ran =>
    rw [ran]
    rfl
  · next ran => rw [ran]

/-- Highlighting returns markup, and it fails just for a text that comes to a name that is too long to be searched for.
The markup reads back as the recorded tokens do. So it shows the text just if no token is a string that was recorded with
its variables marked and in which one of them is escaped. -/
theorem highlight_strips_iff_or_refuses (text : String) :
    (∃ y out z, Scanner.main (started text) = .ok () y ∧ Partitions text y ∧
      Scanner.highlight text ({} : PerlScanner) = .ok out z ∧
      Markup.strip out = String.ofList (y.state.tokens.toList.flatMap readBack) ∧
      (Markup.strip out = text ↔ ∀ t ∈ y.state.tokens.toList, Interpolated t → ¬ EscapesVariable t.told.toList) ∧
      ∀ name, Comes (.ofString text) (started text) name → Text.byteSize name ≤ nameLimit) ∨
    ∃ name z, Scanner.highlight text ({} : PerlScanner) = .error (tooLong name) z ∧
      Comes (.ofString text) (started text) name ∧ nameLimit < Text.byteSize name := by
  have run := yields_started text
  rw [highlight_eq]
  simp only [Yields] at run
  split at run
  · next y ran =>
    obtain ⟨finished, short⟩ := run
    rw [ran]
    exact .inl ⟨y, _, _, rfl, finished.partitions, rfl, finished.strip_tagged, finished.strips_iff, short⟩
  · next e y ran =>
    obtain ⟨name, comes, long, rfl⟩ := run
    rw [ran]
    exact .inr ⟨name, y, rfl, comes, long⟩

/-- A text in which no backslash stands right before a variable is shown by its markup. -/
theorem highlight_strips_of_unescaped {text : String}
    (unescaped : ∀ front behind, text.toList = front ++ '\\' :: behind → ¬ beginsVariable behind) :
    (∃ out z, Scanner.highlight text ({} : PerlScanner) = .ok out z ∧ Markup.strip out = text) ∨
    ∃ name z, Scanner.highlight text ({} : PerlScanner) = .error (tooLong name) z ∧
      Comes (.ofString text) (started text) name ∧ nameLimit < Text.byteSize name := by
  rcases highlight_strips_iff_or_refuses text with ⟨y, out, z, _, parts, ran, _, strips, _⟩ | refused
  · refine .inl ⟨out, z, ran, strips.mpr ?_⟩
    rintro t member _ ⟨front, behind, eq, waits, begins⟩
    obtain ⟨before, after, tokens⟩ := List.append_of_mem member
    obtain ⟨front, rfl⟩ := unpaired_ends waits
    have whole := congrArg String.toList parts.told
    rw [toList_join_map, tokens, List.flatMap_append, List.flatMap_cons, eq] at whole
    refine unescaped (before.flatMap (·.told.toList) ++ front) (behind ++ after.flatMap (·.told.toList)) ?_ ?_
    · rw [← whole]
      simp
    · exact beginsVariable_append begins
  · exact .inr refused

end Highlighted

end Gloss.Language.Perl

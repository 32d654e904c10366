import Gloss.Proofs.Language.Script.Runs
import Gloss.Proofs.Pattern.Resumed
import Gloss.Proofs.Regex.Everywhere

/-!
The grammar of scripts suits its scanner. Its patterns are given and each is checked by evaluation; that the
patterns which take a token up again match everywhere is proved from their form.
-/
namespace Gloss.Language.Script

open Text (Spot)
open Markup (WellNamed)

/-- The patterns by which tokens of scripts are taken up again. -/
def recoveries : Keyed Kind Pattern := [
  (.regex, .ofText "(?m)(?:[^\\\\/\\n]|\\\\.)*(?:/[gimsuyx]*|\\\\?$)"),
  (doubleString, .ofText "(?m)(?:[^\\\\\"\\n]|\\\\(?s:.))*(?:\"|\\\\?$)"),
  (singleString, .ofText "(?m)(?:[^\\\\'\\n]|\\\\(?s:.))*(?:'|\\\\?$)"),
  (.comment, .ofText "(?s).*?(?:\\*/|\\z)"),
  (lineComment, .ofText ".*")]

/-- The table without the places to stop at and the operators. -/
def commonEntries : List PatternTable.Entry := [
  ⟨.opener, .ofText "[\\[\x7b(]+", none⟩,
  ⟨.closer, .ofText "[\\]\x7d)]+", none⟩,
  ⟨.numeric, .ofText Presets.hexNumber, none⟩,
  ⟨.numeric, .ofText Presets.realNumber, none⟩,
  ⟨singleString, .ofText Presets.singleQuotedLine, none⟩,
  ⟨doubleString, .ofText Presets.doubleQuotedLine, none⟩,
  ⟨.comment, .ofText Presets.blockComment, none⟩,
  ⟨lineComment, .ofText Presets.slashComment, none⟩,
  ⟨slash, .ofText "/", none⟩]

def identEntry : PatternTable.Entry := ⟨.ident, .ofText "[a-zA-Z_$][_$\\w]*", none⟩

/-- The entry for operators, which depends on whether an opening angle bracket may start a tag. -/
def operatorEntry (embedded : Bool) : PatternTable.Entry :=
  ⟨.operator, .ofText (if embedded then "[=!+*%\\-&^|~:?;,.>]+|<" else "[=!+*%\\-&^|~:?;,.><]+"), none⟩

theorem recovery_eq (e : Embedding) : (Script.grammar e).recovery = recoveries := by
  obtain ⟨html, server, tag⟩ := e
  cases html <;> cases server <;> rfl

/-- The places to stop at come first. -/
theorem entries_eq (e : Embedding) : (Script.grammar e).patterns.entries =
    (if e.server then [⟨stopServer, .literal e.serverTag, none⟩] else []) ++
      (if e.html then [⟨stopScript, scriptClose, none⟩] else []) ++
      identEntry :: operatorEntry (e.html || e.server) :: commonEntries := by
  obtain ⟨html, server, tag⟩ := e
  cases html <;> cases server <;> rfl

/-- What an entry of the table is checked for. -/
def fine (server : Bool) (x : PatternTable.Entry) : Bool :=
  x.pattern.parsed.regex.consumes && decide (WellNamed x.kind) &&
    (!server || x.kind == stopServer || (x.kind != slash && (recoveries.get? x.kind).isSome) ||
      x.pattern.parsed.regex.separates '<' '?') &&
    (!server || (x.pattern.parsed.regex.guarded && x.pattern.parsed.regex.apartOrLone '<' '?'))

theorem fine_iff {server : Bool} {x : PatternTable.Entry} : fine server x ↔
    x.pattern.parsed.regex.consumes ∧ WellNamed x.kind ∧
      (server → x.kind ≠ stopServer → (x.kind ≠ slash ∧ (recoveries.get? x.kind).isSome) ∨
        x.pattern.parsed.regex.separates '<' '?') ∧
      (server → x.pattern.parsed.regex.guarded ∧ x.pattern.parsed.regex.apartOrLone '<' '?') := by
  simp only [fine, Bool.and_eq_true, Bool.or_eq_true, Bool.not_eq_true', decide_eq_true_eq, beq_iff_eq, bne_iff_ne,
    ne_eq]
  by_cases on : server <;> by_cases stop : x.kind = stopServer <;> simp [on, stop, and_assoc]

theorem tables_fine : (identEntry :: commonEntries).all (fine true) ∧ [⟨stopServer, .literal "<?", none⟩,
    ⟨stopScript, scriptClose, none⟩, operatorEntry true].all (fine true) ∧ fine false (operatorEntry false) := by
  decide +kernel

/-- Flags behind a regular expression. -/
def flags : Regex.CharSet := ⟨[(103, 103), (105, 105), (109, 109), (115, 115), (117, 117), (120, 121)]⟩

/-- A round of what is left of a regular expression: a character, or one that a backslash escapes. -/
def restRound : Regex :=
  .alt (.set ⟨[(0, 9), (11, 46), (48, 91), (93, 1114111)]⟩) (.seq (.text ['\\']) (.set .notNewline))

/-- What closes it, or the end of the line at which a last backslash may stand. -/
def restClose : Regex :=
  .alt (.seq (.text ['/']) (.times 0 none true (.set flags))) (.seq (.times 0 (some 1) true (.text ['\\'])) (.look .lineEnd))

/-- What the patterns parse to by which tokens are taken up again. -/
theorem recoveries_parse :
    (Pattern.ofText "(?m)(?:[^\\\\/\\n]|\\\\.)*(?:/[gimsuyx]*|\\\\?$)").parsed.regex =
      .seq (.times 0 none true restRound) restClose ∧
    (Pattern.ofText "(?m)(?:[^\\\\\"\\n]|\\\\(?s:.))*(?:\"|\\\\?$)").parsed.regex =
      .seq (.times 0 none true (.escaped ⟨[(0, 9), (11, 33), (35, 91), (93, 1114111)]⟩)) (.closedOr ['"'] .lineEnd) ∧
    (Pattern.ofText "(?m)(?:[^\\\\'\\n]|\\\\(?s:.))*(?:'|\\\\?$)").parsed.regex =
      .seq (.times 0 none true (.escaped ⟨[(0, 9), (11, 38), (40, 91), (93, 1114111)]⟩)) (.closedOr ['\''] .lineEnd) ∧
    (Pattern.ofText "(?s).*?(?:\\*/|\\z)").parsed.regex =
      .seq (.times 0 none false (.set .any)) (.alt (.text ['*', '/']) (.look .textEnd)) ∧
    (Pattern.ofText ".*").parsed.regex = .times 0 none true (.set .notNewline) := by
  decide +kernel

/-- A string that is taken up again ends at its quote, or with its line. -/
theorem lineString_starts {p : Pattern} (plain : Regex.CharSet) (quote : Char)
    (regex : p.parsed.regex = .seq (.times 0 none true (.escaped plain)) (.closedOr [quote] .lineEnd))
    (all : plain.allBut ['\\', quote, '\n']) (s : Spot) : p.Starts s := by
  have everything : Regex.CharSet.any.allBut [] := by decide
  simp only [Pattern.Starts, Pattern.Covers, regex]
  refine Regex.quotedUntil_starts [quote, '\n'] ?_ all ?_ ?_
  · intro s ended
    simp [Regex.Assertion.holds, ended]
  · intro s m c rest eq listed
    simp only [List.mem_cons, List.not_mem_nil, or_false] at listed
    rcases listed with rfl | rfl
    · exact .inr ⟨_, m, Spot.Reads.step eq, rfl⟩
    · exact .inl (by simp [Regex.Assertion.holds, eq])
  · intro s c rest _
    exact .inr (Regex.CharSet.mem_of_allBut everything (by simp))

/-- A regular expression that is taken up again ends at its slash, or with its line, also behind a backslash. -/
theorem regexRest_starts (s : Spot) :
    (Pattern.ofText "(?m)(?:[^\\\\/\\n]|\\\\.)*(?:/[gimsuyx]*|\\\\?$)").Starts s := by
  have newlineOnly : Regex.CharSet.notNewline.allBut ['\n'] := by decide
  simp only [Pattern.Starts, Pattern.Covers, recoveries_parse.1]
  refine Regex.quotedUntil_starts ['/', '\n'] ?_ (by decide) ?_ ?_
  · intro s ended
    simp [Regex.Assertion.holds, ended]
  · intro s m c rest eq listed
    simp only [List.mem_cons, List.not_mem_nil, or_false] at listed
    rcases listed with rfl | rfl
    · exact .inr ⟨_, m, _, m, ⟨Spot.Reads.step eq, rfl⟩, 0, Nat.le_refl 0, fun _ _ => Nat.zero_le _, rfl, rfl⟩
    · exact .inl (by simp [Regex.Assertion.holds, eq])
  · intro s c rest eq
    by_cases newline : c = '\n'
    · exact .inl (by simp [Regex.Assertion.holds, eq, newline])
    · exact .inr (Regex.CharSet.mem_of_allBut newlineOnly (by simp [newline]))

/-- Every token that was cut can be taken up, wherever the scan goes on. -/
theorem recoveries_start : ∀ x ∈ recoveries, ∀ s : Spot, x.2.Starts s := by
  intro x member s
  obtain ⟨_, double, single, block, line⟩ := recoveries_parse
  simp only [recoveries, List.mem_cons, List.not_mem_nil, or_false] at member
  rcases member with rfl | rfl | rfl | rfl | rfl
  · exact regexRest_starts s
  · exact lineString_starts _ '"' double (by decide) s
  · exact lineString_starts _ '\'' single (by decide) s
  · simp only [Pattern.Starts, Pattern.Covers, block]
    exact Regex.anythingUntil_starts (by decide)
  · have skippable : (Pattern.ofText ".*").parsed.regex.skippable := by
      rw [line]
      rfl
    obtain ⟨marks, matched⟩ := Regex.matches_of_skippable skippable s []
    exact ⟨s, marks, matched⟩

theorem grammar_named (e : Embedding) : (Script.grammar e).Named := by
  have base := Grammar.named_withFilters "js"
    |>.showAs lineComment (some Kind.comment) (by decide)
    |>.showAs singleString (some Kind.string) (by decide)
    |>.showAs doubleString (some Kind.string) (by decide)
    |>.showAs Kind.opener none (by decide)
    |>.showAs Kind.closer none (by decide)
    |>.wordsOf Kind.keyword keywords (by decide)
    |>.wordsOf Kind.function functions (by decide)
    |>.wordsOf Kind.type types (by decide)
  obtain ⟨html, server, tag⟩ := e
  cases html <;> cases server <;> exact ⟨base.words, base.ruleMap⟩

theorem entries_fine (e : Embedding) (tag : e.serverTag = "<?") :
    ∀ x ∈ (Script.grammar e).patterns.entries, fine e.server x := by
  intro x member
  obtain ⟨common, others, bare⟩ := tables_fine
  rw [List.all_eq_true] at common others
  -- What is fine beside a server is fine without.
  have weaker : fine true x → fine e.server x := by
    intro ok
    cases e.server with
    | true => exact ok
    | false =>
      obtain ⟨consumes, named, _⟩ := fine_iff.mp ok
      exact fine_iff.mpr ⟨consumes, named, (fun on => by cases on), fun on => by cases on⟩
  rw [entries_eq, tag] at member
  simp only [List.mem_append, List.mem_cons] at member
  rcases member with (member | member) | rfl | rfl | member
  · split at member
    · exact weaker (others x (by simp_all))
    · cases member
  · split at member
    · exact weaker (others x (by simp_all))
    · cases member
  · exact weaker (common _ (by simp))
  · cases embedded : e.html || e.server with
    | true =>
      rw [embedded] at weaker
      exact weaker (others _ (by simp))
    | false =>
      have off : e.server = false := by simp_all
      rw [off]
      exact bare
  · exact weaker (common x (by simp [member]))

/-- Only the places to stop at have kinds that stop a scan. -/
theorem kinds_of_others : (identEntry :: operatorEntry true :: operatorEntry false :: commonEntries).all
    fun x => x.kind ≠ stopServer ∧ x.kind ≠ stopScript := by decide

/-- An entry at which the scan stops is one of the first. -/
theorem stops_of_entry {e : Embedding} {x : PatternTable.Entry} (member : x ∈ (Script.grammar e).patterns.entries) :
    (x.kind = stopServer → e.server ∧ x.pattern = .literal e.serverTag) ∧
      (x.kind = stopScript → e.html ∧ x.pattern = scriptClose) := by
  have other : x ∈ identEntry :: operatorEntry (e.html || e.server) :: commonEntries →
      x.kind ≠ stopServer ∧ x.kind ≠ stopScript := by
    intro member
    have all := List.all_eq_true.mp kinds_of_others
    simp only [decide_eq_true_eq] at all
    refine all x ?_
    rcases List.mem_cons.mp member with rfl | member
    · exact List.mem_cons_self
    rcases List.mem_cons.mp member with rfl | member
    · cases e.html || e.server <;> simp
    · simp [member]
  have differ : stopServer ≠ stopScript := by decide
  rw [entries_eq] at member
  rcases List.mem_append.mp member with member | member
  · rcases List.mem_append.mp member with member | member
    · split at member
      · next on =>
        obtain rfl := List.mem_singleton.mp member
        exact ⟨fun _ => ⟨on, rfl⟩, fun no => absurd no differ⟩
      · cases member
    · split at member
      · next on =>
        obtain rfl := List.mem_singleton.mp member
        exact ⟨fun no => absurd no.symm differ, fun _ => ⟨on, by simp only⟩⟩
      · cases member
  · exact ⟨fun no => absurd no (other member).1, fun no => absurd no (other member).2⟩

/-- What the patterns that take a token up again are checked for. -/
theorem recoveries_fine : ∀ x ∈ recoveries, (WellNamed x.1 ∧ x.1 ≠ slash ∧ x.1 ≠ stopServer ∧ x.1 ≠ stopScript) ∧
    x.2.parsed.regex.guarded ∧ x.2.parsed.regex.apart '<' '?' := by decide +kernel

theorem regex_recovers : (recoveries.get? .regex).isSome := by decide

/-- The grammar of scripts suits its scanner, however it is embedded. -/
theorem suits (e : Embedding) (tag : e.serverTag = "<?") : Suits (Script.grammar e) e := by
  have parts := fun x member => fine_iff.mp (entries_fine e tag x member)
  have recovery := recovery_eq e
  refine
    { tag := tag
      consumes := fun x member => (parts x member).1
      kinds := fun x member => (parts x member).2.1
      recovers := ?_
      regex := fun _ => by rw [recovery]; exact regex_recovers
      server := ?_
      first := ?_
      script := fun x member => (stops_of_entry member).2
      apart := fun on x member => (parts x member).2.2.2 on
      resumes := ?_
      resumesApart := ?_
      named := grammar_named e
      renders := ?_ }
  · intro on x member other
    rw [recovery]
    exact (parts x member).2.2.1 on other
  · intro x member isStop
    obtain ⟨on, same⟩ := (stops_of_entry member).1 isStop
    rw [same, tag]
    exact ⟨on, Pattern.tag_regex⟩
  · intro on
    rw [entries_eq, if_pos on]
    exact ⟨_, rfl, rfl⟩
  · intro kind p known
    rw [recovery] at known
    have member := Keyed.mem_of_get? known
    exact ⟨recoveries_start _ member, (recoveries_fine _ member).1⟩
  · intro kind p known
    rw [recovery] at known
    exact (recoveries_fine _ (Keyed.mem_of_get? known)).2
  · intro ctx named
    refine Grammar.renders_of_filters named "js" ?_ ?_
    · obtain ⟨html, server, tag⟩ := e
      cases html <;> cases server <;> rfl
    · obtain ⟨html, server, tag⟩ := e
      cases html <;> cases server <;> rfl

namespace ActionScript

/-- The line for a preprocessor, which is the last entry of the table. -/
def preprocessorEntry : PatternTable.Entry := ⟨.preprocessor, .ofText "(?m)^[ \\t]*#.*", none⟩

theorem entries_eq : ActionScript.grammar.patterns.entries = (Script.grammar {}).patterns.entries ++ [preprocessorEntry] :=
  rfl

theorem preprocessorEntry_fine : fine false preprocessorEntry ∧ preprocessorEntry.kind ≠ stopServer ∧
    preprocessorEntry.kind ≠ stopScript := by decide +kernel

theorem grammar_named : ActionScript.grammar.Named := by
  have base := Script.grammar_named {}
    |>.wordsOf Kind.function functions (by decide)
    |>.wordsOf Kind.type types (by decide)
    |>.wordsOf Kind.keyword keywords (by decide)
  exact ⟨base.words, base.ruleMap⟩

/-- So does the grammar of ActionScript, outside of markup. -/
theorem suits : Suits ActionScript.grammar {} := by
  have base := Script.suits {} rfl
  have each : ∀ {P : PatternTable.Entry → Prop}, (∀ x ∈ (Script.grammar {}).patterns.entries, P x) →
      P preprocessorEntry → ∀ x ∈ ActionScript.grammar.patterns.entries, P x := by
    intro P all last x member
    rw [entries_eq] at member
    rcases List.mem_append.mp member with member | member
    · exact all x member
    · rw [List.mem_singleton.mp member]
      exact last
  obtain ⟨fine, notServer, notScript⟩ := preprocessorEntry_fine
  obtain ⟨consumes, named, _⟩ := fine_iff.mp fine
  exact
    { tag := rfl
      consumes := each base.consumes consumes
      kinds := each base.kinds named
      recovers := fun no => by cases no
      regex := fun no => by cases no
      server := each base.server fun no => absurd no notServer
      first := fun no => by cases no
      script := each base.script fun no => absurd no notScript
      apart := fun no => by cases no
      resumes := base.resumes
      resumesApart := base.resumesApart
      named := grammar_named
      renders := fun ctx named => Grammar.renders_of_filters named "js" rfl rfl }

end ActionScript

end Gloss.Language.Script

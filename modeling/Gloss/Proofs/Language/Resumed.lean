import Gloss.Proofs.Language.Script.Table
import Gloss.Proofs.Language.Style.Runs
import Gloss.Proofs.Pattern.Resumed

/-!
Strings and comments of scripts and styles that a tag of the host cuts. The pattern by which each of them is taken up
again takes exactly what is left of the token, wherever it is cut.
-/
namespace Gloss.Language

/-- The kind has a pattern for taking it up again, and that takes what is left of a token of the given pattern. -/
def Resumable (g : Grammar) (kind : Kind) (token : Pattern) (d : Delimiting) : Prop :=
  ∃ recovery, g.recovery.get? kind = some recovery ∧ token.Resumes recovery d

/-- The comment between slash and star, and how it is taken up again. -/
theorem blockComment_resumes : (Pattern.ofText Presets.blockComment).Resumes (.ofText "(?s).*?(?:\\*/|\\z)")
    ⟨['/', '*'], ['*', '/'], false⟩ := by
  obtain ⟨_, _, _, recovery, _⟩ := Script.recoveries_parse
  exact Pattern.resumes_until (a := .textEnd) .any (by decide +kernel) recovery (by decide)

namespace Script

/-- Kinds of scripts that can be cut, and how their tokens are delimited. -/
def delimited : List (Kind × Delimiting) := [
  (.comment, ⟨['/', '*'], ['*', '/'], false⟩),
  (lineComment, ⟨['/', '/'], [], false⟩),
  (singleString, ⟨['\''], ['\''], true⟩),
  (doubleString, ⟨['"'], ['"'], true⟩)]

/-- The comment to the end of the line and the strings, and how they are taken up again. -/
theorem tokens_resume :
    (Pattern.ofText Presets.slashComment).Resumes (.ofText ".*") ⟨['/', '/'], [], false⟩ ∧
    (Pattern.ofText Presets.singleQuotedLine).Resumes (.ofText "(?m)(?:[^\\\\'\\n]|\\\\(?s:.))*(?:'|\\\\?$)")
      ⟨['\''], ['\''], true⟩ ∧
    (Pattern.ofText Presets.doubleQuotedLine).Resumes (.ofText "(?m)(?:[^\\\\\"\\n]|\\\\(?s:.))*(?:\"|\\\\?$)")
      ⟨['"'], ['"'], true⟩ := by
  obtain ⟨_, double, single, _, line⟩ := recoveries_parse
  refine ⟨?_, ?_, ?_⟩
  · exact Pattern.resumes_while _ (by decide +kernel) line (by decide)
  · exact Pattern.resumes_quoted _ (by decide +kernel) single (by decide) (by decide) (by decide)
  · exact Pattern.resumes_quoted _ (by decide +kernel) double (by decide) (by decide) (by decide)

/-- Of what does not depend on the embedding, the table of the grammar has what the common table has. -/
theorem entries_of_kind (e : Embedding) {kind : Kind} (apart : kind ∉ [stopServer, stopScript, .ident, .operator]) :
    (Script.grammar e).patterns.entries.filter (·.kind == kind) = commonEntries.filter (·.kind == kind) := by
  simp only [List.mem_cons, List.not_mem_nil, or_false, not_or] at apart
  obtain ⟨server, script, ident, operator⟩ := apart
  have skip : ∀ {x : PatternTable.Entry} (rest : List PatternTable.Entry), kind ≠ x.kind →
      (x :: rest).filter (·.kind == kind) = rest.filter (·.kind == kind) := by
    intro x rest other
    rw [List.filter_cons_of_neg]
    simpa using Ne.symm other
  rw [entries_eq, List.filter_append, List.filter_append, skip _ ident, skip _ operator]
  cases e.server <;> cases e.html <;> simp [Ne.symm server, Ne.symm script]

/-- Each of these kinds has one entry in the table. -/
theorem commonEntries_delimited :
    commonEntries.filter (·.kind == .comment) = [⟨.comment, .ofText Presets.blockComment, none⟩] ∧
      commonEntries.filter (·.kind == lineComment) = [⟨lineComment, .ofText Presets.slashComment, none⟩] ∧
      commonEntries.filter (·.kind == singleString) = [⟨singleString, .ofText Presets.singleQuotedLine, none⟩] ∧
      commonEntries.filter (·.kind == doubleString) = [⟨doubleString, .ofText Presets.doubleQuotedLine, none⟩] := by
  simp [commonEntries, Kind.opener, Kind.closer, Kind.numeric, Kind.comment, lineComment, singleString, doubleString,
    slash]

theorem entry_resumable (e : Embedding) : ∀ x ∈ delimited,
    ∃ entry, (Script.grammar e).patterns.entries.filter (·.kind == x.1) = [entry] ∧
      Resumable (Script.grammar e) x.1 entry.pattern x.2 := by
  obtain ⟨comment, line, single, double⟩ := commonEntries_delimited
  obtain ⟨lineResumes, singleResumes, doubleResumes⟩ := tokens_resume
  simp only [delimited, List.forall_mem_cons, List.not_mem_nil, false_implies, implies_true, and_true, Resumable,
    recovery_eq]
  exact ⟨⟨_, (entries_of_kind e (by decide)).trans comment, _, rfl, blockComment_resumes⟩,
    ⟨_, (entries_of_kind e (by decide)).trans line, _, rfl, lineResumes⟩,
    ⟨_, (entries_of_kind e (by decide)).trans single, _, rfl, singleResumes⟩,
    ⟨_, (entries_of_kind e (by decide)).trans double, _, rfl, doubleResumes⟩⟩

end Script

namespace Style

/-- Kinds of styles that can be cut, with the patterns of their tokens and how these are delimited. -/
def delimited : List (Kind × Pattern × Delimiting) := [
  (.comment, commentPattern, ⟨['/', '*'], ['*', '/'], false⟩),
  (singleString, singleQuoted, ⟨['\''], ['\''], true⟩),
  (doubleString, doubleQuoted, ⟨['"'], ['"'], true⟩),
  (attributeSelector, attributePattern, ⟨['['], [']'], true⟩),
  (roundSelector, roundPattern, ⟨['('], [')'], true⟩)]

/-- The strings and the selectors in brackets, and how they are taken up again. -/
theorem tokens_resume :
    singleQuoted.Resumes (.ofText "(?s)(?:[^\\\\']|\\\\.)*(?:'|\\\\?\\z)") ⟨['\''], ['\''], true⟩ ∧
    doubleQuoted.Resumes (.ofText "(?s)(?:[^\\\\\"]|\\\\.)*(?:\"|\\\\?\\z)") ⟨['"'], ['"'], true⟩ ∧
    attributePattern.Resumes (.ofText "(?s)(?:[^\\]\\\\]|\\\\.)*(?:\\]|\\\\?\\z)") ⟨['['], [']'], true⟩ ∧
    roundPattern.Resumes (.ofText "(?s)(?:[^)\\\\]|\\\\.)*(?:\\)|\\\\?\\z)") ⟨['('], [')'], true⟩ := by
  obtain ⟨round, square, double, single, _⟩ := recoveries_parse
  refine ⟨?_, ?_, ?_, ?_⟩
  · exact Pattern.resumes_quoted _ (by decide +kernel) single (by decide) (by decide) (by decide)
  · exact Pattern.resumes_quoted _ (by decide +kernel) double (by decide) (by decide) (by decide)
  · exact Pattern.resumes_bracketed _ (by decide +kernel) square (by decide) (by decide) (by decide) (by decide)
  · exact Pattern.resumes_bracketed _ (by decide +kernel) round (by decide) (by decide) (by decide) (by decide)

theorem token_resumable : ∀ x ∈ delimited, Resumable Style.grammar x.1 x.2.1 x.2.2 := by
  simp only [delimited, List.forall_mem_cons, List.not_mem_nil, false_implies, implies_true, and_true, Resumable,
    recovery_eq]
  obtain ⟨single, double, square, round⟩ := tokens_resume
  exact ⟨⟨_, rfl, blockComment_resumes⟩, ⟨_, rfl, single⟩, ⟨_, rfl, double⟩, ⟨_, rfl, square⟩, ⟨_, rfl, round⟩⟩

end Style

/-- However a script is embedded, a string or comment of it that is cut is taken up by exactly what is left of it, and so
is one of a style, or a selector in brackets. -/
theorem recovery_takes_rest (e : Embedding) :
    (∀ x ∈ Script.delimited, ∃ entry, (Script.grammar e).patterns.entries.filter (·.kind == x.1) = [entry] ∧
      Resumable (Script.grammar e) x.1 entry.pattern x.2) ∧
    ∀ x ∈ Style.delimited, Resumable Style.grammar x.1 x.2.1 x.2.2 :=
  ⟨Script.entry_resumable e, Style.token_resumable⟩

/-- A string that is cut behind an escaped quote. -/
theorem recovery_takes_rest_quoted :
    (Pattern.ofText Presets.singleQuotedLine).Takes ['x', '='] ['\'', 'a', '\\', '\'', 'b', '\''] [';'] ∧
      Delimiting.Cut ⟨['\''], ['\''], true⟩ ['\'', 'a', '\\', '\''] ['b', '\''] ∧
      ∃ recovery, (Script.grammar {}).recovery.get? Script.singleString = some recovery ∧
        recovery.Takes ['x', '=', '\'', 'a', '\\', '\''] ['b', '\''] [';'] := by
  have takes : (Pattern.ofText Presets.singleQuotedLine).Takes ['x', '='] ['\'', 'a', '\\', '\'', 'b', '\''] [';'] :=
    ⟨Match.ofRange 2 8, by decide +kernel, rfl, rfl⟩
  have cut : Delimiting.Cut ⟨['\''], ['\''], true⟩ ['\'', 'a', '\\', '\''] ['b', '\''] := by
    refine ⟨by decide, by decide, fun x same _ => ?_⟩
    have length := congrArg List.length same
    simp only [List.length_append, List.length_cons, List.length_nil] at length ⊢
    omega
  obtain ⟨entry, only, recovery, some_, resumes⟩ :=
    (recovery_takes_rest {}).1 (Script.singleString, ⟨['\''], ['\''], true⟩) (by simp [Script.delimited])
  have table := (Script.entries_of_kind {} (by decide)).trans Script.commonEntries_delimited.2.2.1
  obtain ⟨same, _⟩ := List.cons.inj (only.symm.trans table)
  rw [same] at resumes
  exact ⟨takes, cut, recovery, some_, resumes ['x', '='] ['\'', 'a', '\\', '\''] ['b', '\''] [';'] takes cut⟩

end Gloss.Language

import Gloss.Pattern.Basic
import Gloss.Proofs.Regex.Picks

/-!
What a pattern finds. A match that is reported starts at the first spot at which the expression of the
pattern matches, and covers a text that it matches there. Nothing is reported only if it matches nowhere.
-/
namespace Gloss

open Text (Spot Source)

namespace Pattern

variable {p : Pattern} {src : Source} {s t : Spot} {m : Match} {pos : Nat}

theorem compile_of_ok {text : String} {parsed : Regex.Parsed} (read : Regex.parse text = .ok parsed) :
    ∃ p, compile text = .ok p ∧ p.parsed = parsed := by
  unfold compile
  split
  · next q eq =>
    rw [read] at eq
    cases eq
    exact ⟨_, rfl, rfl⟩
  · next eq =>
    rw [read] at eq
    cases eq

theorem compile_of_error {text : String} {reason : Regex.Malformed} (read : Regex.parse text = .error reason) :
    compile text = .error ⟨text, reason⟩ := by
  unfold compile
  split
  · next eq =>
    rw [read] at eq
    cases eq
  · next q eq =>
    rw [read] at eq
    cases eq
    rfl

/-- The expression of the pattern matches the text between two spots, with the offsets of its groups. -/
def Covers (p : Pattern) (s t : Spot) (marks : Regex.Marks) : Prop := p.parsed.regex.Matches s [] t marks

/-- The expression of the pattern matches a text that starts at a spot. -/
def Starts (p : Pattern) (s : Spot) : Prop := ∃ t marks, p.Covers s t marks

theorem matchAt_none : p.program.matchAt s = none ↔ ¬ p.Starts s := by
  rw [← Option.not_isSome_iff_eq_none, Regex.Program.matchAt_isSome, p.program_eq, Regex.program_live]
  rfl

/-- The match that is reported at a spot: of all that start there, the preferred one. -/
def Reports (p : Pattern) (s t : Spot) (marks : Regex.Marks) : Prop := p.program.matchAt s = some ⟨s.pos, t, marks⟩

theorem Reports.covers {marks : Regex.Marks} (h : p.Reports s t marks) : p.Covers s t marks := by
  obtain ⟨_, ends⟩ := Regex.Program.matchAt_reached h
  rw [p.program_eq] at ends
  exact Regex.program_ends.mp ends

theorem reports_of_picks {marks : Regex.Marks} (picked : p.parsed.regex.Picks (fun _ => True) s [] t marks) :
    p.Reports s t marks := by
  rw [Reports, p.program_eq]
  exact Regex.matchAt_of_picks picked

/-- What is reported is what the expression picks. -/
theorem Reports.picks {marks : Regex.Marks} (h : p.Reports s t marks) (guarded : p.parsed.regex.guarded) :
    p.parsed.regex.Picks (fun _ => True) s [] t marks := by
  have leads : Regex.LeadsTo p.parsed.regex.Matches (fun _ => True) s := ⟨[], t, marks, h.covers, trivial⟩
  obtain ⟨u, mu, picked, _⟩ := Regex.Picks.exists guarded [] leads
  have reported : p.Reports s u mu := reports_of_picks picked
  rw [Reports] at h reported
  rw [h] at reported
  cases reported
  exact picked

/-- A match that is found is the one reported at the first spot at which there is one. -/
theorem findSpot?_some (found : p.findSpot? s = some (m, t)) :
    ∃ o w marks, Spot.Reads s w o ∧ p.Reports o t marks ∧ m = p.toMatch ⟨o.pos, t, marks⟩ ∧
      ∀ u v, Spot.Reads s v u → u.pos < o.pos → ¬ p.Starts u := by
  simp only [findSpot?, Option.map_eq_some_iff, Prod.mk.injEq] at found
  obtain ⟨f, found, rfl, rfl⟩ := found
  obtain ⟨o, w, reads, here, before⟩ := Regex.Program.search_some found
  obtain ⟨start, _⟩ := Regex.Program.matchAt_reached here
  refine ⟨o, w, f.marks, reads, ?_, ?_, ?_⟩
  · rw [Reports, here, ← start]
  · rw [← start]
  · intro u v readsU lt
    exact matchAt_none.mp (before u v readsU lt)

theorem findSpot?_none : p.findSpot? s = none ↔ ∀ u w, Spot.Reads s w u → ¬ p.Starts u := by
  simp only [findSpot?, Option.map_eq_none_iff, Regex.Program.search_none, matchAt_none]

/-- The pattern matches at an offset of the source. -/
def StartsAt (p : Pattern) (src : Source) (pos : Nat) : Prop := ∃ u : Spot, u.In src.chars ∧ u.pos = pos ∧ p.Starts u

/-- A match in a source, with the spots before and behind it. -/
structure Occurs (p : Pattern) (src : Source) (m : Match) (s t : Spot) (marks : Regex.Marks) : Prop where
  inside : s.In src.chars
  reports : p.Reports s t marks
  eq : m = p.toMatch ⟨s.pos, t, marks⟩

theorem Occurs.covers {marks : Regex.Marks} (h : p.Occurs src m s t marks) : p.Covers s t marks := h.reports.covers

theorem Occurs.start {marks : Regex.Marks} (h : p.Occurs src m s t marks) : m.start = s.pos := by
  rw [h.eq]
  rfl

theorem Occurs.stop {marks : Regex.Marks} (h : p.Occurs src m s t marks) : m.stop = t.pos := by
  rw [h.eq]
  rfl

theorem Occurs.starts {marks : Regex.Marks} (h : p.Occurs src m s t marks) : p.Starts s := ⟨t, marks, h.covers⟩

/-- The text of a group whose offsets were remembered. -/
theorem groupText_toMatch {f : Regex.Found} {i : Nat} {a b : Spot} {w : List Char} (count : i < p.groupCount)
    (first : f.marks.lookup (2 * (i + 1)) = some a.pos)
    (last : f.marks.lookup (2 * (i + 1) + 1) = some b.pos) (inside : a.In src.chars)
    (reads : Spot.Reads a w b) : (p.toMatch f).groupText src (i + 1) = String.ofList w := by
  have cut := Source.cut?_reads inside reads
  simp [Match.groupText, Match.group?, toMatch, List.getElem?_range count, Regex.Found.group?, first, last,
    cut]

/-- The text of a group that took no part. -/
theorem groupText_toMatch_none {f : Regex.Found} {i : Nat} (count : i < p.groupCount)
    (first : f.marks.lookup (2 * (i + 1)) = none) : (p.toMatch f).groupText src (i + 1) = "" := by
  simp [Match.groupText, Match.group?, toMatch, List.getElem?_range count, Regex.Found.group?, first]

/-- A match from an offset on is one at the first spot after the offset at which the pattern matches. -/
theorem findFrom?_some (found : p.findFrom? src pos = some m) :
    ∃ s t marks, p.Occurs src m s t marks ∧ pos ≤ s.pos ∧
      ∀ u : Spot, u.In src.chars → pos ≤ u.pos → u.pos < s.pos → ¬ p.Starts u := by
  simp only [findFrom?, Option.bind_eq_some_iff, Option.map_eq_some_iff] at found
  obtain ⟨first, spot, ⟨m', t⟩, found, rfl⟩ := found
  obtain ⟨inside, above, least⟩ := Source.spotFrom?_some spot
  obtain ⟨s, w, marks, reads, reports, eq, before⟩ := findSpot?_some found
  have := reads.pos_le
  refine ⟨s, t, marks, ⟨inside.reads reads, reports, eq⟩, by omega, ?_⟩
  intro u insideU aboveU lt
  obtain ⟨v, readsU⟩ := inside.between insideU (least u insideU aboveU)
  exact before u v readsU lt

theorem findFrom?_none :
    p.findFrom? src pos = none ↔ ∀ u : Spot, u.In src.chars → pos ≤ u.pos → ¬ p.Starts u := by
  simp only [findFrom?]
  cases spot : src.spotFrom? pos with
  | none =>
    simp only [Option.bind_none, true_iff]
    intro u inside above
    have absent : ¬ pos ≤ src.size := by
      rw [← Source.spotFrom?_isSome, spot]
      simp
    have := Source.isBoundary_le (Source.isBoundary_of_in inside)
    omega
  | some first =>
    obtain ⟨inside, above, least⟩ := Source.spotFrom?_some spot
    simp only [Option.bind_some, Option.map_eq_none_iff, findSpot?_none]
    constructor
    · intro none_ u insideU aboveU
      obtain ⟨w, reads⟩ := inside.between insideU (least u insideU aboveU)
      exact none_ u w reads
    · intro none_ u w reads
      have := reads.pos_le
      exact none_ u (inside.reads reads) (by omega)

/-- Where a pattern matches, something is found from every offset before, and it does not start behind. -/
theorem findFrom?_before {u : Spot} (inside : u.In src.chars) (starts : p.Starts u) (le : pos ≤ u.pos) :
    ∃ m, p.findFrom? src pos = some m ∧ m.start ≤ u.pos := by
  cases found : p.findFrom? src pos with
  | none => exact absurd starts (findFrom?_none.mp found u inside le)
  | some m =>
    obtain ⟨s, t, marks, occurs, _, first⟩ := findFrom?_some found
    refine ⟨m, rfl, ?_⟩
    rw [occurs.start]
    by_cases before : u.pos < s.pos
    · exact absurd starts (first u inside le before)
    · omega

/-- What is reported at a spot is what a search from there finds. -/
theorem findFrom?_of_reports {marks : Regex.Marks} (inside : s.In src.chars) (reports : p.Reports s t marks) :
    ∃ m, p.findFrom? src s.pos = some m ∧ m.start = s.pos ∧ m.stop = t.pos := by
  obtain ⟨m, found, le⟩ := findFrom?_before inside ⟨_, _, reports.covers⟩ (Nat.le_refl _)
  obtain ⟨a, b, marks', occurs, above, _⟩ := findFrom?_some found
  have start := occurs.start
  obtain rfl := occurs.inside.eq_of_pos inside (by omega)
  have same := occurs.reports
  rw [Reports] at reports same
  cases reports.symm.trans same
  exact ⟨m, found, start, occurs.stop⟩

/-- A search from a later offset finds the same, unless the match is passed. -/
theorem findFrom?_restart {later : Nat} (le : pos ≤ later) :
    p.findFrom? src pos = p.findFrom? src later ∨
      ∃ m, p.findFrom? src pos = some m ∧ m.start < later := by
  cases spot : src.spotFrom? later with
  | none =>
    have beyond : ¬ later ≤ src.size := by
      rw [← Source.spotFrom?_isSome, spot]
      simp
    have nothing : p.findFrom? src later = none := by simp [findFrom?, spot]
    cases found : p.findFrom? src pos with
    | none => exact .inl nothing.symm
    | some m =>
      obtain ⟨s, t, marks, occurs, _, _⟩ := findFrom?_some found
      have := Source.isBoundary_le (Source.isBoundary_of_in occurs.inside)
      exact .inr ⟨m, rfl, by rw [occurs.start]; omega⟩
  | some t =>
    obtain ⟨insideT, aboveT, leastT⟩ := Source.spotFrom?_some spot
    have bound := Source.isBoundary_le (Source.isBoundary_of_in insideT)
    obtain ⟨s, spotS⟩ := Option.isSome_iff_exists.mp
      (Source.spotFrom?_isSome.mpr (show pos ≤ src.size by omega))
    obtain ⟨insideS, aboveS, leastS⟩ := Source.spotFrom?_some spotS
    obtain ⟨w, reads⟩ := insideS.between insideT (leastS t insideT (by omega))
    simp only [findFrom?, spot, spotS, Option.bind_some, findSpot?]
    rcases Regex.Program.search_restart (p := p.program) reads with same | ⟨f, found, before⟩
    · exact .inl (by rw [same])
    · refine .inr ⟨p.toMatch f, by simp [found], ?_⟩
      -- The match starts at a spot before `t`, which is the first one at or after the later offset.
      obtain ⟨o, v, readsO, here, _⟩ := Regex.Program.search_some found
      have start := (Regex.Program.matchAt_reached here).1
      by_cases above : later ≤ o.pos
      · have := leastT o (insideS.reads readsO) above
        omega
      · show f.start < later
        omega

end Pattern

end Gloss

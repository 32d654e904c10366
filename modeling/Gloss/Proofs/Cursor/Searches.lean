import Gloss.Pattern.Table
import Gloss.Proofs.Pattern.Finds

/-!
Results of searches that are kept. A cursor answers a search from what it found before where it can, and this
cannot be seen: after any operations, every search gives what the pattern finds from the position on in the
source there is. The invariant is that each result kept is the one that its search would give today.
-/
namespace Gloss

open Text (Source)

/-- The text of a pattern decides the pattern. -/
theorem Pattern.eq_of_text {p q : Pattern} (same : p.text = q.text) : p = q := by
  obtain ⟨text, parsed, reads, program, program_eq⟩ := p
  obtain ⟨text', parsed', reads', program', program_eq'⟩ := q
  simp only at same
  subst same
  rw [reads] at reads'
  cases reads'
  subst program_eq program_eq'
  rfl

namespace Cursor

/-- What a search finds that looks at nothing but the source and the position. -/
def fresh (c : Cursor) (p : Pattern) : Option Match := p.findFrom? c.source c.pos

/-- Every result that is kept is what its search finds in the source. -/
def Faithful (c : Cursor) : Prop :=
  ∀ f ∈ c.found, ∀ p : Pattern, p.text = f.pattern → f.result = p.findFrom? c.source f.start

/-- The cursor without the results it keeps. -/
def forget (c : Cursor) : Cursor := { c with found := [] }

section

variable {c : Cursor} {p : Pattern}

theorem faithful_of_found_nil (none_ : c.found = []) : c.Faithful := by
  intro f member
  rw [none_] at member
  cases member

/-- Moving and logging keep what is known. -/
theorem Faithful.of_eq {d : Cursor} (h : c.Faithful) (source : d.source = c.source) (found : d.found = c.found) :
    d.Faithful := by
  intro f member q text
  rw [found] at member
  rw [source]
  exact h f member q text

/-- What is known about a search is what it would find. -/
theorem Faithful.known? (h : c.Faithful) {result : Option Match} (known : c.known? p = some result) :
    result = c.fresh p := by
  simp only [Cursor.known?] at known
  split at known
  · cases known
  · next f entry =>
    have member := List.mem_of_find?_eq_some entry
    have text : p.text = f.pattern := by
      have same := List.find?_some entry
      simp only [beq_iff_eq] at same
      exact same.symm
    have kept := h f member p text
    split at known
    · next le =>
      rcases (Pattern.findFrom?_restart le : p.findFrom? c.source _ = _ ∨ _) with same | ⟨m, found, before⟩
      · rw [fresh, ← same, ← kept]
        split at known
        · next eq => simpa [eq] using known.symm
        · next m eq =>
          split at known
          · simpa [eq] using known.symm
          · cases known
      · rw [kept, found] at known
        simp only at known
        split at known
        · omega
        · cases known
    · cases known

theorem search_fst (h : c.Faithful) : (c.search p).1 = c.fresh p := by
  simp only [search]
  split
  · next result known => exact h.known? known
  · rfl

/-- A search moves nothing. -/
theorem search_same : (c.search p).2.source = c.source ∧ (c.search p).2.pos = c.pos ∧
    (c.search p).2.history = c.history := by
  simp only [search]
  split <;> exact ⟨rfl, rfl, rfl⟩

theorem Faithful.search (h : c.Faithful) : (c.search p).2.Faithful := by
  simp only [Cursor.search]
  split
  · exact h
  · intro f member q text
    simp only [remember, List.mem_cons, List.mem_filter] at member
    rcases member with rfl | ⟨member, _⟩
    · rw [Pattern.eq_of_text text]
      rfl
    · exact h f member q text

/-- A search, all in one. -/
theorem search_eq (h : c.Faithful) :
    ∃ d : Cursor, c.search p = (c.fresh p, d) ∧ d.Faithful ∧ d.source = c.source ∧ d.pos = c.pos ∧
      d.history = c.history := by
  obtain ⟨source, pos, history⟩ := search_same (c := c) (p := p)
  exact ⟨(c.search p).2, by rw [← search_fst h], h.search, source, pos, history⟩

theorem forget_eq {d : Cursor} (source : d.source = c.source) (pos : d.pos = c.pos)
    (history : d.history = c.history) : d.forget = c.forget := by
  cases c; cases d
  simp_all [forget]

theorem fresh_start_le {m : Match} (found : c.fresh p = some m) : c.pos ≤ m.start := by
  obtain ⟨s, t, marks, occurs, above, _⟩ := Pattern.findFrom?_some found
  rw [occurs.start]
  exact above

end

/-- The nearer of two matches; the first one if they are equally near. -/
def nearer {ι : Type} (best : Option (ι × Match)) (next : ι × Match) : Option (ι × Match) :=
  if startsBefore next.2 best then some next else best

/-- What searches for labelled patterns find, each from scratch. -/
def freshAll {ι : Type} (c : Cursor) (patterns : List (ι × Pattern)) : List (ι × Match) :=
  patterns.filterMap fun (i, p) => (c.fresh p).map fun m => (i, m)

theorem freshAll_congr {ι : Type} {c d : Cursor} (source : d.source = c.source) (pos : d.pos = c.pos)
    (patterns : List (ι × Pattern)) : d.freshAll patterns = c.freshAll patterns := by
  simp only [freshAll, fresh, source, pos]

theorem foldl_nearer_of_start_le {ι : Type} {best : ι × Match} {found : List (ι × Match)}
    (least : ∀ x ∈ found, best.2.start ≤ x.2.start) : found.foldl nearer (some best) = some best := by
  induction found with
  | nil => rfl
  | cons x found ih =>
    have here := least x (by simp)
    have kept : nearer (some best) x = some best := by
      simp only [nearer, startsBefore, decide_eq_true_eq]
      rw [if_neg (by omega)]
    rw [List.foldl_cons, kept]
    exact ih fun y member => least y (by simp [member])

theorem freshAll_start_le {ι : Type} {c : Cursor} {patterns : List (ι × Pattern)} {x : ι × Match}
    (member : x ∈ c.freshAll patterns) : c.pos ≤ x.2.start := by
  simp only [freshAll, List.mem_filterMap, Option.map_eq_some_iff] at member
  obtain ⟨⟨i, p⟩, _, m, found, rfl⟩ := member
  exact fresh_start_le found

/-- The nearest match is picked from searches made from scratch; that the search ends early where it can
makes no difference. -/
theorem nearestFrom_eq {ι : Type} {c : Cursor} (h : c.Faithful) (best : Option (ι × Match))
    (patterns : List (ι × Pattern)) :
    ∃ d : Cursor, nearestFrom best c patterns = ((c.freshAll patterns).foldl nearer best, d) ∧ d.Faithful ∧
      d.source = c.source ∧ d.pos = c.pos ∧ d.history = c.history := by
  induction patterns generalizing c best with
  | nil => exact ⟨c, rfl, h, rfl, rfl, rfl⟩
  | cons x patterns ih =>
    obtain ⟨i, p⟩ := x
    obtain ⟨d, eq, faithful, source, pos, history⟩ := search_eq (p := p) h
    have rest := freshAll_congr source pos patterns
    -- The other searches, from the cursor behind this one.
    have others : ∀ best : Option (ι × Match), ∃ e : Cursor,
        nearestFrom best d patterns = ((c.freshAll patterns).foldl nearer best, e) ∧ e.Faithful ∧
          e.source = c.source ∧ e.pos = c.pos ∧ e.history = c.history := by
      intro best
      obtain ⟨e, eq', faithful', source', pos', history'⟩ := ih faithful best
      rw [rest] at eq'
      exact ⟨e, eq', faithful', source'.trans source, pos'.trans pos, history'.trans history⟩
    have picked : ∀ m, c.fresh p = some m → (c.freshAll ((i, p) :: patterns)).foldl nearer best =
        (c.freshAll patterns).foldl nearer (nearer best (i, m)) := by
      intro m found
      simp [freshAll, found]
    simp only [nearestFrom, eq]
    cases found : c.fresh p with
    | none =>
      have none_ : c.freshAll ((i, p) :: patterns) = c.freshAll patterns := by simp [freshAll, found]
      rw [none_]
      exact others best
    | some m =>
      rw [picked m found]
      simp only [nearer]
      by_cases near : startsBefore m best
      · simp only [near, if_true]
        by_cases here : m.start = d.pos
        · simp only [here, beq_self_eq_true, if_true]
          refine ⟨d, ?_, faithful, source, pos, history⟩
          rw [foldl_nearer_of_start_le]
          intro y member
          have := freshAll_start_le member
          show m.start ≤ y.2.start
          omega
        · simp only [beq_iff_eq, here, if_false]
          exact others _
      · simp only [near, Bool.false_eq_true, if_false]
        exact others best

theorem nearest_eq {ι : Type} {c : Cursor} (h : c.Faithful) (patterns : List (ι × Pattern)) :
    ∃ d : Cursor, c.nearest patterns = ((c.freshAll patterns).foldl nearer none, d) ∧ d.Faithful ∧
      d.source = c.source ∧ d.pos = c.pos ∧ d.history = c.history :=
  nearestFrom_eq h none patterns

/-- An operation of a cursor. -/
inductive Op where
  | setPos (pos : Nat)
  | shift (bytes : Nat)
  | take (n : Nat)
  | search (p : Pattern)
  | index (p : Pattern)
  | check (p : Pattern)
  | scan (p : Pattern)
  | scanUntil (p : Pattern)
  | accept (m : Match)
  | unscan
  | nearestOf (patterns : List Pattern)
  | nextMatch (table : PatternTable)
  | terminate
  | reset
  | setSource (source : Source)

/-- What an operation answers. -/
inductive Answer where
  | done
  | text (taken : String)
  | found (result : Option Match)
  | offset (start : Option Nat)
  | undone (any : Bool)
  | nearest (result : Option (Nat × Match))
  | next (result : Option NextMatch)

namespace Op

/-- Carries out an operation. -/
def run (c : Cursor) : Op → Answer × Cursor
  | setPos pos => (.done, c.setPos pos)
  | shift bytes => (.done, c.shift bytes)
  | take n => let (s, c) := c.take n; (.text s, c)
  | search p => let (m, c) := c.search p; (.found m, c)
  | index p => let (i, c) := c.index p; (.offset i, c)
  | check p => let (m, c) := c.check p; (.found m, c)
  | scan p => let (m, c) := c.scan p; (.found m, c)
  | scanUntil p => let (m, c) := c.scanUntil p; (.found m, c)
  | accept m => (.done, c.accept m)
  | unscan => let (b, c) := c.unscan; (.undone b, c)
  | nearestOf patterns => let (m, c) := c.nearestOf patterns; (.nearest m, c)
  | nextMatch table => let (m, c) := table.nextMatch c; (.next m, c)
  | terminate => (.done, c.terminate)
  | reset => (.done, c.reset)
  | setSource source => (.done, c.setSource source)

/-- Carries out an operation with every search made from scratch and nothing kept. -/
def runFresh (c : Cursor) : Op → Answer × Cursor
  | search p => (.found (c.fresh p), c)
  | index p => (.offset ((c.fresh p).map (·.start)), c)
  | check p => (.found ((c.fresh p).filter (·.start == c.pos)), c)
  | scan p =>
    match (c.fresh p).filter (·.start == c.pos) with
    | some m => (.found (some m), c.accept m)
    | none => (.found none, c)
  | scanUntil p =>
    match c.fresh p with
    | some m =>
      let skipped := Match.ofRange c.pos m.start
      (.found (some skipped), { (c.log c.pos skipped) with pos := m.start })
    | none => (.found none, c)
  | nearestOf patterns =>
    (.nearest ((c.freshAll (patterns.zipIdx.map fun (p, i) => (i, p))).foldl nearer none), c)
  | nextMatch table =>
    let best := (c.freshAll (table.labelled fun _ => true)).foldl nearer none
    (.next (best.map fun ((kind, i), m) => ⟨kind, i, m⟩), c)
  | op => op.run c

/-- One operation: the answer is that of the operation without anything kept, so is the cursor but for what it
keeps, and what it keeps stays true to the source. -/
theorem run_eq {c : Cursor} (h : c.Faithful) (op : Op) :
    (op.run c).1 = (op.runFresh c.forget).1 ∧ (op.run c).2.forget = (op.runFresh c.forget).2 ∧
      (op.run c).2.Faithful := by
  cases op with
  | setPos pos => exact ⟨rfl, rfl, h.of_eq rfl rfl⟩
  | shift bytes => exact ⟨rfl, rfl, h.of_eq rfl rfl⟩
  | take n => exact ⟨rfl, rfl, h.of_eq rfl rfl⟩
  | accept m => exact ⟨rfl, rfl, h.of_eq rfl rfl⟩
  | terminate => exact ⟨rfl, rfl, faithful_of_found_nil rfl⟩
  | reset => exact ⟨rfl, rfl, faithful_of_found_nil rfl⟩
  | setSource source => exact ⟨rfl, rfl, faithful_of_found_nil rfl⟩
  | unscan =>
    simp only [run, runFresh, Cursor.unscan, forget]
    split <;> exact ⟨rfl, rfl, h.of_eq rfl rfl⟩
  | search p =>
    obtain ⟨d, eq, faithful, source, pos, history⟩ := search_eq (p := p) h
    simp only [run, eq]
    exact ⟨rfl, forget_eq source pos history, faithful⟩
  | index p =>
    obtain ⟨d, eq, faithful, source, pos, history⟩ := search_eq (p := p) h
    simp only [run, Cursor.index, eq]
    exact ⟨rfl, forget_eq source pos history, faithful⟩
  | check p =>
    obtain ⟨d, eq, faithful, source, pos, history⟩ := search_eq (p := p) h
    simp only [run, Cursor.check, eq, pos]
    exact ⟨rfl, forget_eq source pos history, faithful⟩
  | scan p =>
    obtain ⟨d, eq, faithful, source, pos, history⟩ := search_eq (p := p) h
    have forgotten := forget_eq source pos history
    have same : c.forget.fresh p = c.fresh p := rfl
    have here : c.forget.pos = c.pos := rfl
    simp only [run, runFresh, Cursor.scan, Cursor.check, eq, pos, same, here]
    cases (c.fresh p).filter (·.start == c.pos) with
    | none => exact ⟨rfl, forgotten, faithful⟩
    | some m =>
      refine ⟨rfl, ?_, faithful.of_eq rfl rfl⟩
      show d.forget.accept m = c.forget.accept m
      rw [forgotten]
  | scanUntil p =>
    obtain ⟨d, eq, faithful, source, pos, history⟩ := search_eq (p := p) h
    have forgotten := forget_eq source pos history
    have same : c.forget.fresh p = c.fresh p := rfl
    simp only [run, runFresh, Cursor.scanUntil, eq, same]
    cases c.fresh p with
    | none => exact ⟨rfl, forgotten, faithful⟩
    | some m =>
      simp only [pos]
      refine ⟨rfl, ?_, faithful.of_eq rfl rfl⟩
      simp only [forget, Cursor.log, source, history]
  | nearestOf patterns =>
    obtain ⟨d, eq, faithful, source, pos, history⟩ :=
      nearest_eq h (patterns.zipIdx.map fun (p, i) => (i, p))
    simp only [run, Cursor.nearestOf, eq]
    exact ⟨rfl, forget_eq source pos history, faithful⟩
  | nextMatch table =>
    obtain ⟨d, eq, faithful, source, pos, history⟩ := nearest_eq h (table.labelled fun _ => true)
    simp only [run, PatternTable.nextMatch, PatternTable.nextAllowed, eq]
    exact ⟨rfl, forget_eq source pos history, faithful⟩

/-- Carries out operations one after another, by `step`, and collects their answers. -/
def runAll (step : Cursor → Op → Answer × Cursor) : List Op → Cursor → List Answer × Cursor
  | [], c => ([], c)
  | op :: ops, c =>
    let (answer, c) := step c op
    let (answers, c) := runAll step ops c
    (answer :: answers, c)

theorem runAll_eq {c : Cursor} (h : c.Faithful) (ops : List Op) :
    (runAll run ops c).1 = (runAll runFresh ops c.forget).1 ∧
      (runAll run ops c).2.forget = (runAll runFresh ops c.forget).2 ∧ (runAll run ops c).2.Faithful := by
  induction ops generalizing c with
  | nil => exact ⟨rfl, rfl, h⟩
  | cons op ops ih =>
    obtain ⟨answer, cursor, faithful⟩ := run_eq h op
    obtain ⟨answers, last, kept⟩ := ih faithful
    simp only [runAll]
    rw [cursor] at answers last
    exact ⟨by rw [answer, answers], last, kept⟩

/-- The results that a cursor keeps cannot be seen. After any operations on any source, all answers are those
of a cursor that keeps nothing and makes every search from scratch, and so are position, source and logged
matches; and a search for any pattern gives what the pattern finds from the position on in the source. -/
theorem search_after_runAll (source : Source) (ops : List Op) (p : Pattern) :
    (runAll run ops (ofSource source)).1 = (runAll runFresh ops (ofSource source)).1 ∧
      (runAll run ops (ofSource source)).2.forget = (runAll runFresh ops (ofSource source)).2 ∧
      ((runAll run ops (ofSource source)).2.search p).1 =
        p.findFrom? (runAll run ops (ofSource source)).2.source (runAll run ops (ofSource source)).2.pos := by
  have start : (ofSource source).Faithful := faithful_of_found_nil rfl
  obtain ⟨answers, cursor, faithful⟩ := runAll_eq start ops
  exact ⟨answers, cursor, search_fst faithful⟩

end Op

end Cursor

end Gloss

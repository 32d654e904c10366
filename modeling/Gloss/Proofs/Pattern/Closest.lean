import Gloss.Grammar.Basic
import Gloss.Proofs.Pattern.Nearest
import Mathlib.Data.List.Basic

/-!
One specification of all searches for the nearest match. Of some patterns the one is taken whose match starts earliest,
and on a tie the first of them; nothing is found only if none of them matches at the cursor or behind it. Searches over a
list of patterns, over a table and over the entries that may occur in a state all answer so, whatever a cursor remembers
of earlier searches. They leave it where it is.
-/
namespace Gloss

open Text (Source)

/-- Of numbered patterns, some of which may be left out, the first of those whose matches from the position on start
earliest. The match is what that pattern finds by itself. -/
structure Closest (candidates : List (Option Pattern)) (src : Source) (pos i : Nat) (m : Match) : Prop where
  found : ∃ p, candidates[i]? = some (some p) ∧ p.findFrom? src pos = some m
  least : ∀ (j : Nat) (p : Pattern) (n : Match), candidates[j]? = some (some p) → p.findFrom? src pos = some n →
    m.start ≤ n.start
  first : ∀ (j : Nat) (p : Pattern) (n : Match), j < i → candidates[j]? = some (some p) →
    p.findFrom? src pos = some n → m.start < n.start

/-- What a search over such patterns has to answer. -/
structure Closest.IsAnswer (candidates : List (Option Pattern)) (src : Source) (pos : Nat)
    (answer : Option (Nat × Match)) : Prop where
  none_iff : answer = none ↔ ∀ p : Pattern, some p ∈ candidates → ∀ at_, pos ≤ at_ → ¬ p.StartsAt src at_
  some_iff : ∀ i m, answer = some (i, m) ↔ Closest candidates src pos i m

theorem Pattern.findFrom?_none_iff {p : Pattern} {src : Source} {pos : Nat} :
    p.findFrom? src pos = none ↔ ∀ at_, pos ≤ at_ → ¬ p.StartsAt src at_ := by
  rw [findFrom?_none]
  constructor
  · rintro absent _ le ⟨u, inside, rfl, starts⟩
    exact absent u inside le starts
  · intro absent u inside le starts
    exact absent u.pos le ⟨u, inside, rfl, starts⟩

/-- There is only one closest match. -/
theorem Closest.unique {candidates : List (Option Pattern)} {src : Source} {pos i j : Nat} {m n : Match}
    (one : Closest candidates src pos i m) (other : Closest candidates src pos j n) : i = j ∧ m = n := by
  obtain ⟨p, atI, foundI⟩ := one.found
  obtain ⟨q, atJ, foundJ⟩ := other.found
  have le := one.least j q n atJ foundJ
  have ge := other.least i p m atI foundI
  have same : i = j := by
    rcases Nat.lt_trichotomy i j with less | same | less
    · have := other.first i p m less atI foundI
      omega
    · exact same
    · have := one.first j q n less atJ foundJ
      omega
  subst same
  rw [atI] at atJ
  cases atJ
  rw [foundI] at foundJ
  exact ⟨rfl, Option.some.inj foundJ⟩

namespace Cursor

variable {ι : Type} {c : Cursor}

/-- The labelled patterns are the candidates, and their labels go by the numbers of these. -/
structure Labels (number : ι → Nat) (patterns : List (ι × Pattern)) (candidates : List (Option Pattern)) : Prop where
  mem : ∀ (i : Nat) (p : Pattern), candidates[i]? = some (some p) ↔ ∃ label, number label = i ∧ (label, p) ∈ patterns
  ordered : patterns.Pairwise fun a b => number a.1 < number b.1

/-- The nearest of labelled patterns is the closest of the candidates. -/
theorem Labels.isAnswer {number : ι → Nat} {patterns : List (ι × Pattern)} {candidates : List (Option Pattern)}
    (labels : Labels number patterns candidates) (h : c.Faithful) :
    Closest.IsAnswer candidates c.source c.pos ((c.nearest patterns).1.map fun x => (number x.1, x.2)) := by
  have closest : ∀ x, (c.nearest patterns).1 = some x → Closest candidates c.source c.pos (number x.1) x.2 := by
    intro x picked
    obtain ⟨⟨p, member, found⟩, others⟩ := nearest_some h labels.ordered picked
    refine ⟨⟨p, (labels.mem _ _).mpr ⟨x.1, rfl, member⟩, found⟩, ?_, ?_⟩
    · intro j q n at_ found'
      obtain ⟨label, rfl, member'⟩ := (labels.mem j q).mp at_
      exact (others label q n member' found').1
    · intro j q n less at_ found'
      obtain ⟨label, rfl, member'⟩ := (labels.mem j q).mp at_
      exact (others label q n member' found').2 less
  have absent : (c.nearest patterns).1 = none → ∀ (i : Nat) (p : Pattern), candidates[i]? = some (some p) →
      c.fresh p = none := by
    intro nothing i p at_
    obtain ⟨label, _, member⟩ := (labels.mem i p).mp at_
    exact nearest_none h nothing member
  constructor
  · rw [Option.map_eq_none_iff]
    constructor
    · intro nothing p member
      obtain ⟨i, at_⟩ := List.mem_iff_getElem?.mp member
      exact Pattern.findFrom?_none_iff.mp (absent nothing i p at_)
    · intro nowhere
      cases picked : (c.nearest patterns).1 with
      | none => rfl
      | some x =>
        obtain ⟨p, at_, found⟩ := (closest x picked).found
        rw [Pattern.findFrom?_none_iff.mpr (nowhere p (List.mem_of_getElem? at_))] at found
        cases found
  · intro i m
    constructor
    · intro result
      obtain ⟨x, picked, eq⟩ := Option.map_eq_some_iff.mp result
      cases eq
      exact closest x picked
    · intro least
      cases picked : (c.nearest patterns).1 with
      | none =>
        obtain ⟨p, at_, found⟩ := least.found
        have none_ : p.findFrom? c.source c.pos = none := absent picked i p at_
        rw [none_] at found
        cases found
      | some x =>
        obtain ⟨number_eq, rfl⟩ := (closest x picked).unique least
        rw [← number_eq]
        rfl

/-- A search for labelled patterns leaves the cursor where it is. -/
theorem forget_nearest (h : c.Faithful) (patterns : List (ι × Pattern)) : (c.nearest patterns).2.forget = c.forget := by
  obtain ⟨d, eq, _, source, pos, history⟩ := nearest_eq h patterns
  rw [eq]
  exact forget_eq source pos history

theorem labels_zipIdx (patterns : List Pattern) :
    Labels id (patterns.zipIdx.map fun (p, i) => (i, p)) (patterns.map some) := by
  constructor
  · intro i p
    simp only [List.getElem?_map, Option.map_eq_some_iff, Option.some.injEq, exists_eq_right, id_eq, List.mem_map,
      List.mem_zipIdx_iff_getElem?, Prod.exists, Prod.mk.injEq]
    constructor
    · exact fun at_ => ⟨i, rfl, p, i, at_, rfl, rfl⟩
    · rintro ⟨_, rfl, _, _, at_, rfl, rfl⟩
      exact at_
  · rw [List.pairwise_map]
    show patterns.zipIdx.Pairwise fun a b => a.2 < b.2
    rw [← List.pairwise_map (f := Prod.snd) (R := fun a b => a < b), List.zipIdx_map_snd]
    exact List.pairwise_lt_range'

/-- The search without the early end: every pattern is searched for, also behind a match at the position itself. -/
def nearestThrough (best : Option (ι × Match)) (c : Cursor) : List (ι × Pattern) → Option (ι × Match) × Cursor
  | [] => (best, c)
  | (i, p) :: rest =>
    match c.search p with
    | (none, c) => nearestThrough best c rest
    | (some m, c) => nearestThrough (nearer best (i, m)) c rest

theorem nearestThrough_eq (h : c.Faithful) (best : Option (ι × Match)) (patterns : List (ι × Pattern)) :
    ∃ d : Cursor, nearestThrough best c patterns = ((c.freshAll patterns).foldl nearer best, d) ∧ d.source = c.source ∧
      d.pos = c.pos ∧ d.history = c.history := by
  induction patterns generalizing c best with
  | nil => exact ⟨c, rfl, rfl, rfl, rfl⟩
  | cons x patterns ih =>
    obtain ⟨i, p⟩ := x
    obtain ⟨d, eq, faithful, source, pos, history⟩ := search_eq (p := p) h
    have rest := freshAll_congr source pos patterns
    simp only [nearestThrough, eq]
    cases found : c.fresh p with
    | none =>
      have same : c.freshAll ((i, p) :: patterns) = c.freshAll patterns := by simp [freshAll, found]
      obtain ⟨e, eq', source', pos', history'⟩ := ih faithful best
      rw [same, ← rest]
      exact ⟨e, eq', source'.trans source, pos'.trans pos, history'.trans history⟩
    | some m =>
      have same : c.freshAll ((i, p) :: patterns) = (i, m) :: c.freshAll patterns := by simp [freshAll, found]
      obtain ⟨e, eq', source', pos', history'⟩ := ih faithful (nearer best (i, m))
      rw [same, ← rest, List.foldl_cons]
      exact ⟨e, eq', source'.trans source, pos'.trans pos, history'.trans history⟩

/-- That the search ends early where it can cannot be seen. -/
theorem nearest_eq_through (h : c.Faithful) (patterns : List (ι × Pattern)) :
    (c.nearest patterns).1 = (nearestThrough none c patterns).1 ∧
      (c.nearest patterns).2.forget = (nearestThrough none c patterns).2.forget := by
  obtain ⟨d, eq, _, source, pos, history⟩ := nearest_eq h patterns
  obtain ⟨e, eq', source', pos', history'⟩ := nearestThrough_eq h none patterns
  rw [eq, eq']
  exact ⟨rfl, (forget_eq source pos history).trans (forget_eq source' pos' history').symm⟩

/-- What can be done with a cursor: an operation, or a search over the allowed entries of a table. -/
inductive Move where
  | op (operation : Op)
  | nextAllowed (t : PatternTable) (allowed : Kind → Bool)

/-- The cursor behind a move. -/
def Move.after (c : Cursor) : Move → Cursor
  | .op operation => (operation.run c).2
  | .nextAllowed t allowed => (t.nextAllowed allowed c).2

/-- A cursor over a source behind moves. -/
def afterMoves (source : Source) (moves : List Move) : Cursor := moves.foldl Move.after (ofSource source)

theorem Faithful.after (h : c.Faithful) (move : Move) : (move.after c).Faithful := by
  cases move with
  | op operation => exact (Op.run_eq h operation).2.2
  | nextAllowed t allowed =>
    obtain ⟨d, eq, faithful, _⟩ := nearest_eq h (t.labelled allowed)
    show (t.nextAllowed allowed c).2.Faithful
    rw [PatternTable.nextAllowed, eq]
    exact faithful

theorem faithful_afterMoves (source : Source) (moves : List Move) : (afterMoves source moves).Faithful := by
  have all : ∀ (moves : List Move) (c : Cursor), c.Faithful → (moves.foldl Move.after c).Faithful := by
    intro moves
    induction moves with
    | nil => exact fun _ h => h
    | cons move moves ih => exact fun c h => ih _ (h.after move)
  exact all moves _ (faithful_of_found_nil rfl)

end Cursor

namespace PatternTable

variable {t : PatternTable} {allowed : Kind → Bool} {c : Cursor}

/-- The patterns of the entries, those of kinds that are not allowed left out. -/
def candidates (t : PatternTable) (allowed : Kind → Bool) : List (Option Pattern) :=
  t.entries.map fun e => if allowed e.kind then some e.pattern else none

theorem labels_labelled (t : PatternTable) (allowed : Kind → Bool) :
    Cursor.Labels Prod.snd (t.labelled allowed) (t.candidates allowed) := by
  refine ⟨?_, labelled_pairwise t allowed⟩
  intro i p
  simp only [candidates, List.getElem?_map, Option.map_eq_some_iff, Option.ite_none_right_eq_some, Option.some.injEq]
  constructor
  · rintro ⟨e, at_, ok, rfl⟩
    exact ⟨(e.kind, i), rfl, mem_labelled.mpr ⟨e, at_, ok, rfl, rfl⟩⟩
  · rintro ⟨label, rfl, member⟩
    obtain ⟨e, at_, ok, _, rfl⟩ := mem_labelled.mp member
    exact ⟨e, at_, ok, rfl⟩

/-- The nearest match of the allowed entries is the closest. -/
theorem isAnswer_nextAllowed (h : c.Faithful) (t : PatternTable) (allowed : Kind → Bool) :
    Closest.IsAnswer (t.candidates allowed) c.source c.pos
      ((t.nextAllowed allowed c).1.map fun next => (next.entry, next.data)) := by
  have answer := (labels_labelled t allowed).isAnswer h
  rw [nextAllowed, Option.map_map]
  exact answer

/-- Its kind is that of its entry. -/
theorem kind_nextAllowed (h : c.Faithful) {next : NextMatch} (found : (t.nextAllowed allowed c).1 = some next) :
    ∃ e, t.entries[next.entry]? = some e ∧ e.kind = next.kind ∧ allowed e.kind := by
  obtain ⟨⟨label, m⟩, picked, rfl⟩ := Option.map_eq_some_iff.mp found
  obtain ⟨⟨p, member, _⟩, _⟩ := Cursor.nearest_some h (labelled_pairwise t allowed) picked
  obtain ⟨e, at_, ok, same, _⟩ := mem_labelled.mp member
  exact ⟨e, at_, same.symm, ok⟩

/-- Where all entries are allowed nothing is left out. -/
theorem nextAllowed_eq_nextMatch (all : ∀ e ∈ t.entries, allowed e.kind) (c : Cursor) :
    t.nextAllowed allowed c = t.nextMatch c := by
  have same : t.labelled allowed = t.labelled fun _ => true := by
    refine List.filterMap_congr fun (e, i) member => ?_
    simp [all e (List.mem_of_getElem? (List.mem_zipIdx_iff_getElem?.mp member))]
  rw [nextMatch, nextAllowed, same]
  rfl

end PatternTable

/-- All searches for the nearest match answer by one specification and leave the cursor where it is, with the matches
that it has logged. -/
structure Cursor.SearchesAgree (c : Cursor) : Prop where
  /-- A search over a list of patterns. -/
  ofList : ∀ patterns : List Pattern,
    Closest.IsAnswer (patterns.map some) c.source c.pos (c.nearestOf patterns).1 ∧
      (c.nearestOf patterns).2.forget = c.forget
  /-- A search over a table; the kind is that of the entry. -/
  ofTable : ∀ t : PatternTable,
    Closest.IsAnswer (t.entries.map fun e => some e.pattern) c.source c.pos
        ((t.nextMatch c).1.map fun next => (next.entry, next.data)) ∧
      (∀ next, (t.nextMatch c).1 = some next → (t.entries[next.entry]?).map (·.kind) = some next.kind) ∧
      (t.nextMatch c).2.forget = c.forget
  /-- A search over the entries that may occur in a state. -/
  ofState : ∀ (g : Grammar) (state : Kind),
    Closest.IsAnswer (g.patterns.entries.map fun e => if g.allows state e.kind then some e.pattern else none)
        c.source c.pos ((g.patterns.nextAllowed (g.allows state) c).1.map fun next => (next.entry, next.data)) ∧
      (∀ next, (g.patterns.nextAllowed (g.allows state) c).1 = some next →
        (g.patterns.entries[next.entry]?).map (·.kind) = some next.kind) ∧
      (g.patterns.nextAllowed (g.allows state) c).2.forget = c.forget ∧
      ((∀ e ∈ g.patterns.entries, g.allows state e.kind) →
        g.patterns.nextAllowed (g.allows state) c = g.patterns.nextMatch c)
  /-- That a search ends at a match at the cursor changes nothing. -/
  throughout : ∀ {ι : Type} (patterns : List (ι × Pattern)),
    (c.nearest patterns).1 = (Cursor.nearestThrough none c patterns).1 ∧
      (c.nearest patterns).2.forget = (Cursor.nearestThrough none c patterns).2.forget

/-- Whatever was done with a cursor before, all its searches for the nearest match agree. -/
theorem Cursor.searches_agree (source : Source) (moves : List Cursor.Move) :
    (Cursor.afterMoves source moves).SearchesAgree := by
  have h := Cursor.faithful_afterMoves source moves
  generalize Cursor.afterMoves source moves = c at h
  have table : ∀ (t : PatternTable) (allowed : Kind → Bool),
      (∀ next, (t.nextAllowed allowed c).1 = some next → (t.entries[next.entry]?).map (·.kind) = some next.kind) ∧
        (t.nextAllowed allowed c).2.forget = c.forget := by
    intro t allowed
    refine ⟨?_, Cursor.forget_nearest h (t.labelled allowed)⟩
    intro next found
    obtain ⟨e, at_, kind, _⟩ := PatternTable.kind_nextAllowed h found
    rw [at_, ← kind]
    rfl
  refine ⟨?_, ?_, ?_, Cursor.nearest_eq_through h⟩
  · intro patterns
    have answer := (Cursor.labels_zipIdx patterns).isAnswer h
    rw [show (fun x : Nat × Match => (id x.1, x.2)) = id from rfl, Option.map_id] at answer
    exact ⟨answer, Cursor.forget_nearest h _⟩
  · intro t
    obtain ⟨kinds, stays⟩ := table t fun _ => true
    exact ⟨PatternTable.isAnswer_nextAllowed h t fun _ => true, kinds, stays⟩
  · intro g state
    obtain ⟨kinds, stays⟩ := table g.patterns (g.allows state)
    exact ⟨PatternTable.isAnswer_nextAllowed h g.patterns (g.allows state), kinds, stays,
      fun all => PatternTable.nextAllowed_eq_nextMatch all c⟩

end Gloss

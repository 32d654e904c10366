import Gloss.Proofs.Cursor.Moves

/-!
The nearest match of a table. It belongs to an entry whose pattern finds it from the position on, no entry
finds one before it, and entries that come first in the table find theirs behind it.
-/
namespace Gloss

open Text (Source)

namespace Cursor

variable {ι : Type} {found : List (ι × Match)} {best x : ι × Match}

/-- The match that is kept is the best so far, or one that starts earlier and is the first to start there. -/
theorem foldl_nearer_cases (picked : found.foldl nearer (some best) = some x) :
    (x = best ∧ ∀ y ∈ found, best.2.start ≤ y.2.start) ∨
      ∃ front back, found = front ++ x :: back ∧ x.2.start < best.2.start ∧
        (∀ y ∈ front, x.2.start < y.2.start) ∧ ∀ y ∈ back, x.2.start ≤ y.2.start := by
  induction found generalizing best with
  | nil =>
    cases picked
    exact .inl ⟨rfl, by simp⟩
  | cons z found ih =>
    rw [List.foldl_cons] at picked
    by_cases before : z.2.start < best.2.start
    · have taken : nearer (some best) z = some z := by simp [nearer, startsBefore, before]
      rw [taken] at picked
      rcases ih picked with ⟨rfl, behind⟩ | ⟨front, back, rfl, less, later, behind⟩
      · exact .inr ⟨[], found, rfl, before, by simp, behind⟩
      · refine .inr ⟨z :: front, back, rfl, by omega, ?_, behind⟩
        intro y member
        rcases List.mem_cons.mp member with rfl | member
        · exact less
        · exact later y member
    · have kept : nearer (some best) z = some best := by simp [nearer, startsBefore, before]
      rw [kept] at picked
      rcases ih picked with ⟨rfl, behind⟩ | ⟨front, back, rfl, less, later, behind⟩
      · refine .inl ⟨rfl, ?_⟩
        intro y member
        rcases List.mem_cons.mp member with rfl | member
        · omega
        · exact behind y member
      · refine .inr ⟨z :: front, back, rfl, less, ?_, behind⟩
        intro y member
        rcases List.mem_cons.mp member with rfl | member
        · omega
        · exact later y member

theorem foldl_nearer_isSome : (found.foldl nearer (some best)).isSome := by
  induction found generalizing best with
  | nil => rfl
  | cons z found ih =>
    rw [List.foldl_cons]
    by_cases before : z.2.start < best.2.start
    · have taken : nearer (some best) z = some z := by simp [nearer, startsBefore, before]
      rw [taken]
      exact ih
    · have kept : nearer (some best) z = some best := by simp [nearer, startsBefore, before]
      rw [kept]
      exact ih

/-- The match that is picked stands behind matches that start later and before matches that start no earlier. -/
theorem foldl_nearer_some (picked : found.foldl nearer none = some x) :
    ∃ front back, found = front ++ x :: back ∧ (∀ y ∈ front, x.2.start < y.2.start) ∧
      ∀ y ∈ back, x.2.start ≤ y.2.start := by
  cases found with
  | nil => cases picked
  | cons z found =>
    have first : nearer none z = some z := rfl
    rw [List.foldl_cons, first] at picked
    rcases foldl_nearer_cases picked with ⟨rfl, behind⟩ | ⟨front, back, rfl, less, later, behind⟩
    · exact ⟨[], found, rfl, by simp, behind⟩
    · refine ⟨z :: front, back, rfl, ?_, behind⟩
      intro y member
      rcases List.mem_cons.mp member with rfl | member
      · exact less
      · exact later y member

theorem foldl_nearer_none (picked : found.foldl nearer none = none) : found = [] := by
  cases found with
  | nil => rfl
  | cons z found =>
    have kept : (found.foldl nearer (some z)).isSome := foldl_nearer_isSome
    rw [List.foldl_cons] at picked
    have first : nearer none z = some z := rfl
    rw [first] at picked
    rw [picked] at kept
    cases kept

section

variable {c : Cursor} {patterns : List (ι × Pattern)}

theorem mem_freshAll {i : ι} {m : Match} : (i, m) ∈ c.freshAll patterns ↔ ∃ p, (i, p) ∈ patterns ∧ c.fresh p = some m := by
  simp only [freshAll, List.mem_filterMap, Option.map_eq_some_iff]
  constructor
  · rintro ⟨⟨j, p⟩, member, n, found, eq⟩
    cases eq
    exact ⟨p, member, found⟩
  · rintro ⟨p, member, found⟩
    exact ⟨(i, p), member, m, found, rfl⟩

/-- The match that is picked is one that is found, and those of lesser labels start behind it. -/
theorem nearest_some (h : c.Faithful) {number : ι → Nat} (ordered : patterns.Pairwise fun a b => number a.1 < number b.1)
    (picked : (c.nearest patterns).1 = some x) :
    (∃ p, (x.1, p) ∈ patterns ∧ c.fresh p = some x.2) ∧
      ∀ i p m, (i, p) ∈ patterns → c.fresh p = some m →
        x.2.start ≤ m.start ∧ (number i < number x.1 → x.2.start < m.start) := by
  obtain ⟨d, eq, _⟩ := nearest_eq h patterns
  rw [eq] at picked
  obtain ⟨front, back, split, later, behind⟩ := foldl_nearer_some picked
  have order : (c.freshAll patterns).Pairwise fun a b => number a.1 < number b.1 := by
    refine ordered.filterMap _ ?_
    intro a b less y memberY z memberZ
    simp only [Option.map_eq_some_iff] at memberY memberZ
    obtain ⟨_, _, rfl⟩ := memberY
    obtain ⟨_, _, rfl⟩ := memberZ
    exact less
  rw [split] at order
  refine ⟨mem_freshAll.mp (split ▸ List.mem_append_right front List.mem_cons_self), ?_⟩
  intro i p m member found
  have member' : (i, m) ∈ front ++ x :: back := split ▸ mem_freshAll.mpr ⟨p, member, found⟩
  rcases List.mem_append.mp member' with inFront | inBack
  · have less := later _ inFront
    exact ⟨Nat.le_of_lt less, fun _ => less⟩
  · -- Labels behind the one picked are greater.
    rcases List.mem_cons.mp inBack with rfl | inBack
    · exact ⟨Nat.le_refl _, fun less => absurd less (Nat.lt_irrefl _)⟩
    · have greater := (List.pairwise_cons.mp (List.pairwise_append.mp order).2.1).1 _ inBack
      exact ⟨behind _ inBack, fun less => absurd less (Nat.lt_asymm greater)⟩

theorem nearest_none (h : c.Faithful) (nothing : (c.nearest patterns).1 = none) {i : ι} {p : Pattern}
    (member : (i, p) ∈ patterns) : c.fresh p = none := by
  obtain ⟨d, eq, _⟩ := nearest_eq h patterns
  rw [eq] at nothing
  have empty := foldl_nearer_none nothing
  cases found : c.fresh p with
  | none => rfl
  | some m =>
    have absent := mem_freshAll.mpr ⟨p, member, found⟩
    rw [empty] at absent
    cases absent

end

end Cursor

namespace PatternTable

variable {t : PatternTable} {src : Source} {pos : Nat} {allowed : Kind → Bool}

/-- The match is that of an entry, and of the allowed entries the first of those whose matches start
earliest. -/
structure Nearest (t : PatternTable) (allowed : Kind → Bool) (src : Source) (pos : Nat) (next : NextMatch) : Prop where
  entry : ∃ e, t.entries[next.entry]? = some e ∧ e.kind = next.kind ∧ allowed e.kind ∧
    e.pattern.findFrom? src pos = some next.data
  earlier : ∀ i e m, i < next.entry → t.entries[i]? = some e → allowed e.kind →
    e.pattern.findFrom? src pos = some m → next.data.start < m.start
  least : ∀ e ∈ t.entries, allowed e.kind → ∀ m, e.pattern.findFrom? src pos = some m →
    next.data.start ≤ m.start

/-- There is only one nearest match. -/
theorem Nearest.unique {a b : NextMatch} (first : t.Nearest allowed src pos a) (second : t.Nearest allowed src pos b) :
    a = b := by
  obtain ⟨e, atA, kindA, okA, foundA⟩ := first.entry
  obtain ⟨f, atB, kindB, okB, foundB⟩ := second.entry
  have leastA := first.least f (List.mem_of_getElem? atB) okB _ foundB
  have leastB := second.least e (List.mem_of_getElem? atA) okA _ foundA
  have entry : a.entry = b.entry := by
    rcases Nat.lt_trichotomy a.entry b.entry with less | same | less
    · have := second.earlier a.entry e a.data less atA okA foundA
      omega
    · exact same
    · have := first.earlier b.entry f b.data less atB okB foundB
      omega
  rw [entry, atB] at atA
  obtain rfl := Option.some.inj atA
  rw [foundB] at foundA
  have data := Option.some.inj foundA
  have kind := kindA.symm.trans kindB
  cases a
  cases b
  simp only at entry data kind
  rw [entry, ← data, kind]

theorem mem_labelled {label : Kind × Nat} {p : Pattern} :
    (label, p) ∈ t.labelled allowed ↔
      ∃ e, t.entries[label.2]? = some e ∧ allowed e.kind ∧ label.1 = e.kind ∧ p = e.pattern := by
  obtain ⟨kind, i⟩ := label
  simp only [labelled, List.mem_filterMap, Prod.exists, List.mem_zipIdx_iff_getElem?]
  constructor
  · rintro ⟨e, j, at_, eq⟩
    split at eq
    · next ok =>
      simp only [Option.some.injEq, Prod.mk.injEq] at eq
      obtain ⟨⟨rfl, rfl⟩, rfl⟩ := eq
      exact ⟨e, at_, ok, rfl, rfl⟩
    · cases eq
  · rintro ⟨e, at_, ok, rfl, rfl⟩
    exact ⟨e, i, at_, by simp [ok]⟩

/-- Labels are in the order of the entries. -/
theorem labelled_pairwise (t : PatternTable) (allowed : Kind → Bool) :
    (t.labelled allowed).Pairwise fun a b => a.1.2 < b.1.2 := by
  have numbers : t.entries.zipIdx.Pairwise fun a b => a.2 < b.2 := by
    rw [← List.pairwise_map (f := Prod.snd) (R := fun a b => a < b), List.zipIdx_map_snd]
    exact List.pairwise_lt_range'
  refine numbers.filterMap _ ?_
  intro a b less x memberX y memberY
  simp only [Option.ite_none_right_eq_some, Option.some.injEq] at memberX memberY
  obtain ⟨_, rfl⟩ := memberX
  obtain ⟨_, rfl⟩ := memberY
  exact less

/-- What the table finds is nearest; it finds nothing only if no entry does. -/
theorem nextAllowed_eq {c : Cursor} (t : PatternTable) (allowed : Kind → Bool) (sound : c.Sound src) :
    ∃ next d, t.nextAllowed allowed c = (next, d) ∧ d.Sound src ∧ d.pos = c.pos ∧ d.history = c.history ∧
      (∀ n, next = some n → t.Nearest allowed src c.pos n) ∧
      (next = none → ∀ e ∈ t.entries, allowed e.kind → e.pattern.findFrom? src c.pos = none) := by
  obtain ⟨d, eq, soundD, pos, history⟩ := sound.nearest (t.labelled allowed)
  have result := congrArg Prod.fst eq
  have fresh : ∀ p : Pattern, c.fresh p = p.findFrom? src c.pos := fun p => by rw [Cursor.fresh, sound.source]
  refine ⟨_, d, by rw [nextAllowed, eq], soundD, pos, history, ?_, ?_⟩
  · intro n found
    simp only [Option.map_eq_some_iff, Prod.exists] at found
    obtain ⟨kind, i, m, picked, rfl⟩ := found
    obtain ⟨⟨p, member, here⟩, others⟩ :=
      Cursor.nearest_some sound.faithful (labelled_pairwise t allowed) (result.trans picked)
    obtain ⟨e, at_, ok, same, rfl⟩ := mem_labelled.mp member
    rw [fresh] at here
    refine ⟨⟨e, at_, same.symm, ok, here⟩, ?_, ?_⟩
    · intro j e' m' less at' ok' found'
      rw [← fresh] at found'
      exact (others (e'.kind, j) _ m' (mem_labelled.mpr ⟨e', at', ok', rfl, rfl⟩) found').2 less
    · intro e' member' ok' m' found'
      rw [← fresh] at found'
      obtain ⟨j, at'⟩ := List.mem_iff_getElem?.mp member'
      exact (others (e'.kind, j) _ m' (mem_labelled.mpr ⟨e', at', ok', rfl, rfl⟩) found').1
  · intro none_ e member ok
    simp only [Option.map_eq_none_iff] at none_
    obtain ⟨i, at_⟩ := List.mem_iff_getElem?.mp member
    have label : ((e.kind, i), e.pattern) ∈ t.labelled allowed := mem_labelled.mpr ⟨e, at_, ok, rfl, rfl⟩
    rw [← fresh]
    exact Cursor.nearest_none sound.faithful (result.trans none_) label

end PatternTable

end Gloss

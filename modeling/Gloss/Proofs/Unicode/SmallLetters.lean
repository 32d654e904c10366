import Gloss.Unicode.Lowercase

/-!
A text in small letters stays as it is when it is brought to small letters again. The small letters of a run of capitals
are no capitals of any run, which is a fact about the table and is decided there run by run; a sigma takes its form from
its place, and both forms are small.
-/
namespace Gloss.Unicode

/-- A run of capitals: every so many code points from the first one to the last one, and how far off their small letters
are. -/
abbrev CapitalRun := Nat × Nat × Nat × Int

/-- Is no capital of the runs among `first`, `first + step` and so on up to `last`? Of a run that overlaps with them it is
asked that its capitals stand between them. -/
def spares (first last step : Nat) : List CapitalRun → Bool
  | [] => true
  | (lo, hi, stride, _) :: rest =>
    if last < lo then true
    else
      (decide (hi < first) ||
        decide (lo ≤ first) && (first - lo) % stride != 0 && (first == last || step % stride == 0)) &&
      spares first last step rest

/-- Are the small letters of a run no capitals themselves? The dotted capital I is in no run. -/
def landsSmall : CapitalRun → Bool
  | (lo, hi, step, delta) =>
    let first := (lo + delta).toNat
    let last := (hi + delta).toNat
    decide (0 ≤ lo + delta) && (decide (last < 'İ'.toNat) || decide ('İ'.toNat < first)) &&
      spares first last step capitalRuns

theorem capitalRuns_landSmall : ∀ run ∈ capitalRuns, landsSmall run := by decide +kernel

section Runs

variable {n first last step : Nat} {runs : List CapitalRun}

/-- A code point is a capital of some run, or it has no small letter. -/
theorem smallOf_cases (n : Nat) (runs : List CapitalRun) : smallOf n runs = n ∨
    ∃ lo hi step delta, (lo, hi, step, delta) ∈ runs ∧ lo ≤ n ∧ n ≤ hi ∧ (n - lo) % step = 0 ∧
      smallOf n runs = (n + delta).toNat := by
  induction runs with
  | nil => exact .inl rfl
  | cons run rest ih =>
    obtain ⟨lo, hi, step, delta⟩ := run
    rw [smallOf]
    split
    · exact .inl rfl
    · next within =>
      split
      · next hit =>
        simp only [Bool.and_eq_true, decide_eq_true_eq, beq_iff_eq] at hit
        exact .inr ⟨lo, hi, step, delta, List.mem_cons_self, Nat.le_of_not_lt within, hit.1, hit.2, rfl⟩
      · rcases ih with same | ⟨lo', hi', step', delta', member, hit⟩
        · exact .inl same
        · exact .inr ⟨lo', hi', step', delta', List.mem_cons_of_mem _ member, hit⟩

/-- Code points that the runs spare have no small letters. -/
theorem smallOf_of_spares (spared : spares first last step runs) (above : first ≤ n) (below : n ≤ last)
    (inStep : (n - first) % step = 0) : smallOf n runs = n := by
  induction runs with
  | nil => rfl
  | cons run rest ih =>
    obtain ⟨lo, hi, stride, delta⟩ := run
    rw [spares] at spared
    rw [smallOf]
    by_cases before : n < lo
    · rw [if_pos before]
    have reached : ¬ last < lo := by omega
    rw [if_neg reached, Bool.and_eq_true] at spared
    have apart : ¬ (n ≤ hi ∧ (n - lo) % stride = 0) := by
      rintro ⟨le, hit⟩
      have between := spared.1
      simp only [Bool.or_eq_true, Bool.and_eq_true, decide_eq_true_eq, beq_iff_eq, bne_iff_ne] at between
      rcases between with past | ⟨⟨from_, off⟩, alone | divides⟩
      · omega
      · obtain rfl : n = first := by omega
        exact off hit
      · have whole : stride ∣ n - first :=
          Nat.dvd_trans (Nat.dvd_of_mod_eq_zero divides) (Nat.dvd_of_mod_eq_zero inStep)
        have sum : n - lo = (first - lo) + (n - first) := by omega
        rw [sum] at hit
        exact off (Nat.mod_eq_zero_of_dvd ((Nat.dvd_add_left whole).mp (Nat.dvd_of_mod_eq_zero hit)))
    rw [if_neg before, if_neg (by simpa using apart)]
    exact ih spared.2

/-- What a code point is moved to is not moved further, and it is the dotted capital I only if it was before. -/
theorem smallOf_lands (n : Nat) : smallOf (smallOf n capitalRuns) capitalRuns = smallOf n capitalRuns ∧
    (n ≠ 'İ'.toNat → smallOf n capitalRuns ≠ 'İ'.toNat) := by
  rcases smallOf_cases n capitalRuns with same | ⟨lo, hi, step, delta, member, above, below, inStep, moved⟩
  · rw [same, same]
    exact ⟨rfl, id⟩
  · have lands := capitalRuns_landSmall _ member
    simp only [landsSmall, Bool.and_eq_true, Bool.or_eq_true, decide_eq_true_eq] at lands
    obtain ⟨⟨positive, undotted⟩, spared⟩ := lands
    have offset : (n + delta).toNat - (lo + delta).toNat = n - lo := by omega
    rw [moved]
    exact ⟨smallOf_of_spares spared (by omega) (by omega) (by rw [offset, inStep]), fun _ => by omega⟩

end Runs

/-- A character that stays as it is wherever it stands. -/
structure Small (c : Char) : Prop where
  sigma : c ≠ 'Σ'
  dotted : c ≠ 'İ'
  code : smallOf c.toNat capitalRuns = c.toNat

section Characters

variable {c d : Char} {before after text : List Char}

theorem small_of_code (dotted : c ≠ 'İ') (code : smallOf c.toNat capitalRuns = c.toNat) : Small c := by
  refine ⟨?_, dotted, code⟩
  rintro rfl
  exact absurd code (by decide +kernel)

theorem ofNat_cases (n : Nat) : (Char.ofNat n).toNat = n ∨ Char.ofNat n = Char.ofNat 0 := by
  by_cases valid : n.isValidChar
  · refine .inl ?_
    rw [Char.ofNat, dif_pos valid]
    rfl
  · refine .inr ?_
    rw [Char.ofNat, dif_neg valid]
    rfl

/-- The small letter of a character is small. A number that is no code point would stand for the null character. -/
theorem small_ofNat_smallOf (dotted : c ≠ 'İ') : Small (Char.ofNat (smallOf c.toNat capitalRuns)) := by
  obtain ⟨lands, undotted⟩ := smallOf_lands c.toNat
  rcases ofNat_cases (smallOf c.toNat capitalRuns) with code | null
  · refine small_of_code ?_ (by rw [code, lands])
    intro same
    rw [same] at code
    exact undotted (fun eq => dotted (Char.toNat_inj.mp eq)) code.symm
  · rw [null]
    exact ⟨by decide, by decide, by decide +kernel⟩

theorem small_of_mem_lowerChar (member : d ∈ lowerChar before c after) : Small d := by
  simp only [lowerChar, beq_iff_eq] at member
  split at member
  · split at member
    · obtain rfl := List.mem_singleton.mp member
      exact ⟨by decide, by decide, by decide +kernel⟩
    · obtain rfl := List.mem_singleton.mp member
      exact ⟨by decide, by decide, by decide +kernel⟩
  · split at member
    · simp only [List.mem_cons, List.not_mem_nil, or_false] at member
      rcases member with rfl | rfl
      · exact ⟨by decide, by decide, by decide +kernel⟩
      · exact ⟨by decide, by decide, by decide +kernel⟩
    · next dotted =>
      obtain rfl := List.mem_singleton.mp member
      exact small_ofNat_smallOf dotted

theorem small_of_mem_lowerFrom (member : d ∈ lowerFrom before text) : Small d := by
  induction text generalizing before with
  | nil => cases member
  | cons c text ih =>
    rw [lowerFrom, List.mem_append] at member
    rcases member with here | later
    · exact small_of_mem_lowerChar here
    · exact ih later

theorem Small.lowerChar_eq (small : Small c) (before after : List Char) : lowerChar before c after = [c] := by
  simp only [lowerChar, beq_iff_eq, small.sigma, small.dotted, if_false, small.code, Char.ofNat_toNat]

theorem lowerFrom_of_small (small : ∀ c ∈ text, Small c) (before : List Char) : lowerFrom before text = text := by
  induction text generalizing before with
  | nil => rfl
  | cons c text ih =>
    obtain ⟨here, later⟩ := List.forall_mem_cons.mp small
    rw [lowerFrom, here.lowerChar_eq, ih later, List.singleton_append]

end Characters

/-- Small letters are small already. -/
@[simp] theorem lowercase_lowercase (s : String) : lowercase (lowercase s) = lowercase s := by
  have small : ∀ c ∈ lowerFrom [] s.toList, Small c := fun _ => small_of_mem_lowerFrom
  rw [lowercase, lowercase, String.toList_ofList, lowerFrom_of_small small]

end Gloss.Unicode

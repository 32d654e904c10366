import Gloss.Proofs.Regex.Words

/-!
Expressions that match at every spot. The patterns that take a token up again are of three forms: parts that
may all be left out, anything up to a mark or the end of the text, and a quoted text up to its closing quote
in which a backslash takes the character behind it along.
-/
namespace Gloss.Regex

open Text (Spot)
open Unicode (RangeTable)

/-- A code point that no range holds is in a gap. -/
theorem holds_or_gap (ranges : RangeTable) {first n : Nat} (low : first ≤ n) (high : n ≤ RangeTable.lastCode) :
    ranges.holds n ∨ ∃ gap ∈ ranges.gapsFrom first, gap.1 ≤ n ∧ n ≤ gap.2 := by
  induction ranges generalizing first with
  | nil => exact .inr ⟨(first, RangeTable.lastCode), by simp [RangeTable.gapsFrom]; omega, low, high⟩
  | cons range ranges ih =>
    obtain ⟨lo, hi⟩ := range
    simp only [RangeTable.holds, RangeTable.gapsFrom]
    by_cases below : n < lo
    · have before : first < lo := by omega
      rw [if_pos before]
      exact .inr ⟨(first, lo - 1), List.mem_cons_self, low, by simp only; omega⟩
    · by_cases within : n ≤ hi
      · exact .inl (by simp [below, within])
      · rw [if_neg below, if_neg within]
        have behind : hi + 1 ≤ n := by omega
        rcases ih behind with held | ⟨gap, member, inside⟩
        · exact .inl held
        · refine .inr ⟨gap, ?_, inside⟩
          split
          · exact List.mem_cons_of_mem _ member
          · exact member

/-- Are all characters in the set, except those of a list? -/
def CharSet.allBut (members : CharSet) (others : List Char) : Bool :=
  members.negate.ranges.all fun (lo, hi) =>
    (List.range' lo (hi + 1 - lo)).all fun n => others.contains (Char.ofNat n)

theorem CharSet.mem_of_allBut {members : CharSet} {others : List Char} (all : members.allBut others) {c : Char}
    (other : c ∉ others) : members.mem c := by
  have valid := c.valid
  have last : c.toNat ≤ RangeTable.lastCode := by
    simp only [UInt32.isValidChar, Nat.isValidChar] at valid
    show c.val.toNat ≤ 0x10FFFF
    omega
  rcases holds_or_gap members.ranges (Nat.zero_le c.toNat) last with held | ⟨⟨lo, hi⟩, member, low, high⟩
  · exact held
  · exfalso
    simp only [allBut, negate, RangeTable.complement, List.all_eq_true, List.mem_range'_1] at all
    have listed := all (lo, hi) member c.toNat (by simp only at low high ⊢; omega)
    rw [Char.ofNat_toNat] at listed
    exact other (by simpa using listed)

variable {s : Spot} {m : Marks}

theorem matches_set_of_rest {members : CharSet} {c : Char} {rest : List Char} (eq : s.rest = c :: rest)
    (mem : members.mem c) : ∃ u, Spot.Reads s [c] u ∧ Matches (.set members) s m u m := by
  have reads : Spot.Reads s [c] (s.step c rest) := Spot.Reads.step eq
  exact ⟨_, reads, c, mem, reads, rfl⟩

/-- Anything up to a mark or the end of the text. -/
theorem anythingUntil_starts {members : CharSet} {greedy : Bool} {mark : Regex} (all : members.allBut []) :
    ∃ t mt, Matches (.seq (.times 0 none greedy (.set members)) (.alt mark (.look .textEnd))) s m t mt := by
  refine star_starts ?_ s m
  intro s m
  cases eq : s.rest with
  | nil => exact .inl ⟨s, m, .inr ⟨by simp [Assertion.holds, eq], rfl, rfl⟩⟩
  | cons c rest =>
    obtain ⟨u, reads, matched⟩ := matches_set_of_rest (m := m) eq (CharSet.mem_of_allBut all (by simp))
    exact .inr ⟨c, [], u, m, reads, matched⟩

/-- A quoted text up to its closing quote, or to where it ends without one: at the end of the text, or of the
line. -/
theorem quotedUntil_starts (others : List Char) {plain escaped : CharSet} {close : Regex} {stop : Assertion}
    (atEnd : ∀ s : Spot, s.rest = [] → stop.holds s)
    (plainAll : plain.allBut ('\\' :: others))
    (closes : ∀ (s : Spot) (m : Marks) c rest, s.rest = c :: rest → c ∈ others →
      stop.holds s ∨ ∃ t mt, close.Matches s m t mt)
    (escapes : ∀ (s : Spot) c rest, s.rest = c :: rest → stop.holds s ∨ escaped.mem c) :
    ∃ t mt, Matches (.seq (.times 0 none true (.alt (.set plain) (.seq (.text ['\\']) (.set escaped))))
      (.alt close (.seq (.times 0 (some 1) true (.text ['\\'])) (.look stop)))) s m t mt := by
  refine star_starts ?_ s m
  intro s m
  have here : stop.holds s → ∃ t mt, Matches (.alt close (.seq (.times 0 (some 1) true (.text ['\\'])) (.look stop)))
      s m t mt :=
    fun holds => ⟨s, m, .inr ⟨s, m, matches_optional.mpr (.inl ⟨rfl, rfl⟩), holds, rfl, rfl⟩⟩
  cases eq : s.rest with
  | nil => exact .inl (here (atEnd s eq))
  | cons c rest =>
    by_cases backslash : c = '\\'
    · subst backslash
      have first : Spot.Reads s ['\\'] (s.step '\\' rest) := Spot.Reads.step eq
      -- The backslash takes the next character along, or the text ends behind it.
      have ends : stop.holds (s.step '\\' rest) → ∃ t mt,
          Matches (.alt close (.seq (.times 0 (some 1) true (.text ['\\'])) (.look stop))) s m t mt :=
        fun holds => ⟨_, m, .inr ⟨_, m, matches_optional.mpr (.inr ⟨first, rfl⟩), holds, rfl, rfl⟩⟩
      cases rest with
      | nil => exact .inl (ends (atEnd _ rfl))
      | cons d rest =>
        rcases escapes (s.step '\\' (d :: rest)) d rest rfl with holds | mem
        · exact .inl (ends holds)
        · obtain ⟨u, second, matched⟩ := matches_set_of_rest (m := m) (s := s.step '\\' (d :: rest)) rfl mem
          exact .inr ⟨'\\', [d], u, m, first.trans second, .inr ⟨_, m, ⟨first, rfl⟩, matched⟩⟩
    · by_cases listed : c ∈ others
      · rcases closes s m c rest eq listed with holds | ⟨t, mt, matched⟩
        · exact .inl (here holds)
        · exact .inl ⟨t, mt, .inl matched⟩
      · have mem := CharSet.mem_of_allBut plainAll (c := c) (by simp [backslash, listed])
        obtain ⟨u, reads, matched⟩ := matches_set_of_rest (m := m) eq mem
        exact .inr ⟨c, [], u, m, reads, .inl matched⟩

end Gloss.Regex

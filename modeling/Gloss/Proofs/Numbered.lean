import Mathlib.Data.Nat.Find

/-!
Histories whose members go by their numbers: what one more member adds, and the last number of a kind.
-/
namespace Gloss

theorem getElem?_append_single {α : Type} {history : List α} {c d : α} {m : Nat} :
    (history ++ [c])[m]? = some d ↔ history[m]? = some d ∨ m = history.length ∧ c = d := by
  rcases Nat.lt_trichotomy m history.length with less | rfl | more
  · rw [List.getElem?_append_left less]
    exact ⟨.inl, fun h => h.resolve_right fun no => by omega⟩
  · simp
  · rw [List.getElem?_eq_none (by simp; omega), List.getElem?_eq_none (by omega)]
    exact ⟨.inl, fun h => h.resolve_right fun no => by omega⟩

/-- Of numbers below a bound one is the last. -/
theorem exists_last {P : Nat → Prop} {bound n : Nat} (below : ∀ m, P m → m < bound) (holds : P n) :
    ∃ last, P last ∧ ∀ m, P m → m ≤ last := by
  classical
  refine ⟨Nat.findGreatest P bound, Nat.findGreatest_spec (Nat.le_of_lt (below n holds)) holds, ?_⟩
  intro m holds'
  exact Nat.le_findGreatest (Nat.le_of_lt (below m holds')) holds'

end Gloss

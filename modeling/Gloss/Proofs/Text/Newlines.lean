import Gloss.Text.Newlines

/-!
Line ends. Normalization can be done part by part, unless a carriage return and its line feed are parted. So each pair
of the two and each lone carriage return becomes one line feed, wherever it stands, and all else stays as it is.
-/
namespace Gloss.Text

section Chars

variable {a b : List Char}

/-- Parts are normalized on their own, unless the cut between them parts a carriage return and its line feed. -/
theorem unifyLines_append (whole : a.getLast? = some '\r' → b.head? ≠ some '\n') :
    unifyLines (a ++ b) = unifyLines a ++ unifyLines b := by
  fun_induction unifyLines a with
  | case1 => rfl
  | case2 rest ih =>
    have ih := ih fun last => whole (by simp [List.getLast?_cons, last])
    rw [List.cons_append, List.cons_append, unifyLines, ih, List.cons_append]
  | case3 rest other ih =>
    have ih := ih fun last => whole (by simp [List.getLast?_cons, last])
    rw [List.cons_append, unifyLines, ih, List.cons_append]
    intro more eq
    cases rest with
    | nil => exact whole rfl (by simp [show b = _ from eq])
    | cons c rest =>
      obtain ⟨rfl, _⟩ := List.cons.inj eq
      exact other rest rfl
  | case4 c rest pair lone ih =>
    have ih := ih fun last => whole (by simp [List.getLast?_cons, last])
    have plain : c ≠ '\r' := fun eq => lone eq
    rw [List.cons_append, unifyLines, ih, List.cons_append]
    · exact fun _ eq _ => plain eq
    · exact plain

theorem unifyLines_pair (a b : List Char) :
    unifyLines (a ++ '\r' :: '\n' :: b) = unifyLines a ++ '\n' :: unifyLines b := by
  rw [unifyLines_append fun _ => by simp, unifyLines]

theorem unifyLines_lone (a : List Char) (lone : b.head? ≠ some '\n') :
    unifyLines (a ++ '\r' :: b) = unifyLines a ++ '\n' :: unifyLines b := by
  rw [unifyLines_append fun _ => by simp, unifyLines]
  rintro more rfl
  exact lone rfl

theorem unifyLines_of_not_mem (none_ : '\r' ∉ a) : unifyLines a = a := by
  fun_induction unifyLines a with
  | case1 => rfl
  | case2 => simp at none_
  | case3 => simp at none_
  | case4 c rest _ _ ih => rw [ih fun member => none_ (List.mem_cons_of_mem _ member)]

theorem not_mem_unifyLines (a : List Char) : '\r' ∉ unifyLines a := by
  fun_induction unifyLines a with
  | case1 => simp
  | case2 rest ih => simpa using ih
  | case3 rest _ ih => simpa using ih
  | case4 c rest _ lone ih =>
    have plain : c ≠ '\r' := fun eq => lone eq
    simpa [ih] using plain.symm

end Chars

/-- Line ends become line feeds: a pair of carriage return and line feed, and a carriage return without a line feed
behind it, each become one. Nothing else changes, and no carriage return is left. -/
structure UnifiesLines (normal : String → String) : Prop where
  pair : ∀ s t, normal (s ++ "\r\n" ++ t) = normal s ++ "\n" ++ normal t
  lone : ∀ s t, t.toList.head? ≠ some '\n' → normal (s ++ "\r" ++ t) = normal s ++ "\n" ++ normal t
  others : ∀ s, '\r' ∉ s.toList → normal s = s
  gone : ∀ s, '\r' ∉ (normal s).toList
  again : ∀ s, normal (normal s) = normal s

theorem toList_normalizeNewlines (s : String) : (normalizeNewlines s).toList = unifyLines s.toList := by
  rw [normalizeNewlines, String.toList_ofList]

theorem normalizeNewlines_unifies : UnifiesLines normalizeNewlines where
  pair s t := by
    apply String.toList_injective
    simp [toList_normalizeNewlines, unifyLines_pair]
  lone s t lone := by
    apply String.toList_injective
    simp [toList_normalizeNewlines, unifyLines_lone _ lone]
  others s none_ := by
    apply String.toList_injective
    rw [toList_normalizeNewlines, unifyLines_of_not_mem none_]
  gone s := by
    rw [toList_normalizeNewlines]
    exact not_mem_unifyLines _
  again s := by
    apply String.toList_injective
    simp only [toList_normalizeNewlines]
    exact unifyLines_of_not_mem (not_mem_unifyLines _)

example : normalizeNewlines "a\r\r\nb\n\r" = "a\n\nb\n\n" := by decide

end Gloss.Text

import Gloss.Keyed

/-!
Values by key. A look-up finds the value that was put last; a map into which each key is put once more stays one with
each key once, and then a look-up finds every pair.
-/
namespace Gloss.Keyed

variable {κ α : Type} [BEq κ]

theorem mem_put {m : Keyed κ α} {k : κ} {a : α} {e : κ × α} (member : e ∈ m.put k a) : e = (k, a) ∨ e ∈ m := by
  rcases List.mem_cons.mp member with same | member
  · exact .inl same
  · exact .inr (List.mem_filter.mp member).1

/-- What several puts of one value leave. -/
theorem mem_foldl_put {β : Type} {f : β → κ} {a : α} {bs : List β} {m : Keyed κ α} {e : κ × α}
    (member : e ∈ bs.foldl (fun m b => m.put (f b) a) m) : (∃ b ∈ bs, e = (f b, a)) ∨ e ∈ m := by
  induction bs generalizing m with
  | nil => exact .inr member
  | cons b bs ih =>
    rcases ih member with ⟨b', listed, eq⟩ | member
    · exact .inl ⟨b', List.mem_cons_of_mem _ listed, eq⟩
    · rcases mem_put member with eq | member
      · exact .inl ⟨b, List.mem_cons_self, eq⟩
      · exact .inr member

/-- The pairs of a map under other keys. -/
theorem mem_foldr_put {f : κ → κ} {m : Keyed κ α} {e : κ × α}
    (member : e ∈ m.foldr (fun e m => Keyed.put m (f e.1) e.2) []) : ∃ k, e.1 = f k := by
  induction m with
  | nil => cases member
  | cons e' m ih =>
    rcases mem_put member with rfl | member
    · exact ⟨e'.1, rfl⟩
    · exact ih member

variable [LawfulBEq κ]

theorem mem_of_get? {m : Keyed κ α} {k : κ} {a : α} (found : m.get? k = some a) : (k, a) ∈ m := by
  simp only [get?, Option.map_eq_some_iff] at found
  obtain ⟨⟨k', a'⟩, found, rfl⟩ := found
  have same : k' = k := by simpa using List.find?_some found
  subst same
  exact List.mem_of_find?_eq_some found

section Lookup

variable (m : Keyed κ α) (k k' : κ) (a : α)

theorem get?_erase_eq : (m.erase k).get? k' = if k' == k then none else m.get? k' := by
  simp only [get?, erase, List.find?_filter]
  by_cases same : k' = k
  · simp [same]
  · have other : ∀ e : κ × α, (e.1 != k && e.1 == k') = (e.1 == k') := by
      intro e
      by_cases eq : e.1 = k'
      · simp [eq, same]
      · simp [eq]
    simp [same, other]

theorem get?_put_eq : (m.put k a).get? k' = if k' == k then some a else m.get? k' := by
  by_cases same : k' = k
  · subst same
    simp [get?, put]
  · have behind : (m.put k a).get? k' = (m.erase k).get? k' := by
      simp [get?, put, erase, Ne.symm same]
    rw [behind, get?_erase_eq]
    simp [same]

/-- Several puts of one value. -/
theorem get?_foldl_put {β : Type} (f : β → κ) (bs : List β) :
    (bs.foldl (fun m b => m.put (f b) a) m).get? k = if k ∈ bs.map f then some a else m.get? k := by
  induction bs generalizing m with
  | nil => simp
  | cons b bs ih =>
    rw [List.foldl_cons, ih, get?_put_eq]
    by_cases later : k ∈ bs.map f
    · simp [later]
    · by_cases here : k = f b
      · simp [here]
      · simp [here, later]

/-- Of the pairs that come under one key the first one is found. -/
theorem get?_foldr_put (f : κ → κ) :
    (m.foldr (fun e m => Keyed.put m (f e.1) e.2) []).get? k = (m.find? (f ·.1 == k)).map (·.2) := by
  induction m with
  | nil => rfl
  | cons e m ih =>
    rw [List.foldr_cons, get?_put_eq, ih, List.find?_cons]
    by_cases here : k = f e.1
    · simp [here]
    · have other : (f e.1 == k) = false := beq_eq_false_iff_ne.mpr (Ne.symm here)
      simp [here, other]

end Lookup

/-- A value is the one that was put, or it was there before. -/
theorem get?_put {m : Keyed κ α} {k k' : κ} {a b : α} (found : (m.put k a).get? k' = some b) :
    b = a ∨ m.get? k' = some b := by
  rw [get?_put_eq] at found
  split at found
  · exact .inl (Option.some.inj found).symm
  · exact .inr found

/-- Each key stands once. -/
def Once (m : Keyed κ α) : Prop := (m.map (·.1)).Nodup

namespace Once

variable {m : Keyed κ α} {k : κ} {a : α}

omit [LawfulBEq κ] in
theorem erase (once : m.Once) (k : κ) : (m.erase k).Once :=
  once.sublist (List.filter_sublist.map _)

theorem put (once : m.Once) (k : κ) (a : α) : (m.put k a).Once := by
  refine List.nodup_cons.mpr ⟨?_, once.erase k⟩
  rintro member
  obtain ⟨e, kept, eq⟩ := List.mem_map.mp member
  simpa [eq] using (List.mem_filter.mp kept).2

theorem foldl_put {β : Type} (once : m.Once) (f : β → κ) (a : α) (bs : List β) :
    (bs.foldl (fun m b => m.put (f b) a) m).Once := by
  induction bs generalizing m with
  | nil => exact once
  | cons b bs ih => exact ih (once.put (f b) a)

theorem foldr_put (m : Keyed κ α) (f : κ → κ) : (m.foldr (fun e m => Keyed.put m (f e.1) e.2) []).Once := by
  induction m with
  | nil => exact List.nodup_nil
  | cons e m ih => exact ih.put (f e.1) e.2

theorem get?_of_mem (once : m.Once) (member : (k, a) ∈ m) : m.get? k = some a := by
  induction m with
  | nil => cases member
  | cons e m ih =>
    obtain ⟨fresh, once⟩ := List.nodup_cons.mp once
    rcases List.mem_cons.mp member with rfl | member
    · simp [get?]
    · have differs : e.1 ≠ k := by
        rintro rfl
        exact fresh (List.mem_map.mpr ⟨_, member, rfl⟩)
      simpa [get?, differs] using ih once member

end Once

end Gloss.Keyed

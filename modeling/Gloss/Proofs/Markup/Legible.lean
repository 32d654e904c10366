import Gloss.Proofs.Markup.Shows

/-!
Markup that loses no line. A line feed inside of a tag is taken out with the tag, so markup shows as many lines as it
has just if none of its line feeds stands in a tag. Such markup can be cut at its line ends, and the tags around it
can be closed and opened again there, whatever the names of the tags are.
-/
namespace Gloss.Markup

/-- Does text end inside of a tag, if it begins inside or outside of one? -/
def endsInTag (inTag : Bool) : List Char → Bool
  | [] => inTag
  | c :: rest => if inTag then endsInTag (c != '>') rest else endsInTag (c == '<') rest

section

variable {inTag : Bool} {a b shown x y : List Char}

theorem endsInTag_append : endsInTag inTag (a ++ b) = endsInTag (endsInTag inTag a) b := by
  induction a generalizing inTag with
  | nil => rfl
  | cons c a ih =>
    simp only [List.cons_append, endsInTag, ih]
    split <;> rfl

theorem dropTags_append : dropTags inTag (a ++ b) = dropTags inTag a ++ dropTags (endsInTag inTag a) b := by
  induction a generalizing inTag with
  | nil => rfl
  | cons c a ih =>
    simp only [List.cons_append, dropTags, endsInTag]
    by_cases inside : inTag
    · simp only [inside, if_true]
      exact ih
    · by_cases bracket : c = '<'
      · simp [inside, bracket, ih]
      · have outside : (c == '<') = false := by simp [bracket]
        simp [inside, bracket, outside, ih]

theorem count_dropTags_le (inTag : Bool) (a : List Char) (c : Char) : (dropTags inTag a).count c ≤ a.count c := by
  induction a generalizing inTag with
  | nil => exact Nat.le_refl _
  | cons d a ih =>
    simp only [dropTags]
    split
    · exact Nat.le_trans (ih _) (List.count_le_count_cons ..)
    · split
      · exact Nat.le_trans (ih _) (List.count_le_count_cons ..)
      · simp only [List.count_cons]
        exact Nat.add_le_add_right (ih _) _

/-- Where no line feed is lost, none stands in a tag, and none is lost on either side of it. -/
theorem endsInTag_of_count (kept : (dropTags inTag (a ++ '\n' :: b)).count '\n' = (a ++ '\n' :: b).count '\n') :
    endsInTag inTag a = false ∧ (dropTags inTag a).count '\n' = a.count '\n' ∧
      (dropTags false b).count '\n' = b.count '\n' := by
  have first := count_dropTags_le inTag a '\n'
  rw [dropTags_append, List.count_append, List.count_append, List.count_cons_self] at kept
  cases inside : endsInTag inTag a with
  | true =>
    have second := count_dropTags_le true b '\n'
    simp only [inside, dropTags, if_true, show ('\n' != '>') = true from rfl] at kept
    omega
  | false =>
    have second := count_dropTags_le false b '\n'
    simp only [inside, dropTags, Bool.false_eq_true, if_false, show ¬ ('\n' = '<') from by decide,
      List.count_cons_self] at kept
    exact ⟨rfl, by omega, by omega⟩

/-- Markup that ends outside of tags and has no line feed in a tag, with the characters that it shows. -/
structure Legible (markup shown : List Char) : Prop where
  outside : endsInTag false markup = false
  shows : dropTags false markup = shown
  newlines : shown.count '\n' = markup.count '\n'

namespace Legible

theorem nil : Legible [] [] := ⟨rfl, rfl, rfl⟩

theorem append (front : Legible a x) (back : Legible b y) : Legible (a ++ b) (x ++ y) := by
  refine ⟨?_, ?_, ?_⟩
  · rw [endsInTag_append, front.outside, back.outside]
  · rw [dropTags_append, front.outside, front.shows, back.shows]
  · rw [List.count_append, List.count_append, front.newlines, back.newlines]

/-- Text without opening angle brackets shows itself. -/
theorem of_plain (plain : '<' ∉ a) : Legible a a := by
  induction a with
  | nil => exact nil
  | cons c a ih =>
    simp only [List.mem_cons, not_or] at plain
    obtain ⟨outside, shows, _⟩ := ih plain.2
    have other : c ≠ '<' := fun eq => plain.1 eq.symm
    refine ⟨?_, ?_, rfl⟩
    · simpa [endsInTag, show (c == '<') = false by simp [other]] using outside
    · simp [dropTags, other, shows]

/-- A tag shows nothing. -/
theorem tag (closed : '>' ∉ a) (line : '\n' ∉ a) : Legible ('<' :: (a ++ ['>'])) [] := by
  have inside : endsInTag true a = true ∧ dropTags true a = [] := by
    induction a with
    | nil => exact ⟨rfl, rfl⟩
    | cons c a ih =>
      simp only [List.mem_cons, not_or] at closed line
      have other : c ≠ '>' := fun eq => closed.1 eq.symm
      simpa [endsInTag, dropTags, show (c != '>') = true by simp [other]] using ih closed.2 line.2
  refine ⟨?_, ?_, ?_⟩
  · simp [endsInTag, endsInTag_append, inside.1]
  · simp [dropTags, dropTags_append, inside]
  · simp [List.count_eq_zero_of_not_mem line]

theorem stripChars (h : Legible a shown) : stripChars a = unescapeChars shown := by
  rw [Markup.stripChars, h.shows]

/-- Markup can be cut at its line ends. -/
theorem cut (h : Legible (a ++ '\n' :: b) shown) : ∃ x y, shown = x ++ '\n' :: y ∧ Legible a x ∧ Legible b y := by
  have kept := h.newlines
  rw [← h.shows] at kept
  obtain ⟨outside, front, back⟩ := endsInTag_of_count kept
  have ended := h.outside
  rw [endsInTag_append, outside] at ended
  refine ⟨_, _, ?_, ⟨outside, rfl, front⟩, ⟨ended, rfl, back⟩⟩
  rw [← h.shows, dropTags_append, outside]
  rfl

/-- Tags may be closed before and opened again behind every line end. -/
theorem breakLines {sep : List Char} (h : Legible a shown) (breaks : Legible sep ['\n']) :
    Legible (breakLines sep a) shown := by
  -- The induction is on the lines of the markup.
  induction len : a.count '\n' using Nat.strongRecOn generalizing a shown with
  | ind n ih =>
    by_cases some_ : '\n' ∈ a
    · obtain ⟨front, back, rfl⟩ := List.append_of_mem some_
      obtain ⟨x, y, rfl, first, second⟩ := h.cut
      rw [List.count_append, List.count_cons_self] at len
      have whole : Markup.breakLines sep (front ++ '\n' :: back) =
          Markup.breakLines sep front ++ (sep ++ Markup.breakLines sep back) := by simp [Markup.breakLines]
      rw [whole]
      exact (ih _ (by omega) first rfl).append (breaks.append (ih _ (by omega) second rfl))
    · rw [breakLines_of_not_mem some_]
      exact h

end Legible

/-- A name that stands in a tag as a whole, on one line. -/
def Tidy (kind : Kind) : Prop := '>' ∉ kind.name.toList ∧ '\n' ∉ kind.name.toList

instance (kind : Kind) : Decidable (Tidy kind) := inferInstanceAs (Decidable (_ ∧ _))

/-- A tag around markup shows the same. -/
theorem Legible.tagBlock {kind : Kind} {block : String} (h : Legible block.toList shown) (tidy : Tidy kind) :
    Legible (tagBlock kind block true).toList shown := by
  have open_ : Legible (openTag kind.name).toList [] := by
    simpa [openTag] using Legible.tag tidy.1 tidy.2
  have close : Legible (closeTag kind.name).toList [] := by
    have whole := Legible.tag (a := '/' :: kind.name.toList) (by simpa using tidy.1) (by simpa using tidy.2)
    simpa [closeTag] using whole
  have newline : Legible ['\n'] ['\n'] := .of_plain (by decide)
  rw [toList_tagBlock]
  simpa using (open_.append (h.breakLines (close.append (newline.append open_)))).append close

end

end Gloss.Markup

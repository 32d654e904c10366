import Gloss.Markup
import Gloss.Unicode.Alphanumeric

/-!
What markup shows. Markup is text with tags in it, and it shows the text without them. The relation is closed
under putting markup together, and a place in markup is either outside of all tags, where it can be cut, or
inside of one, which the characters around it tell.
-/
namespace Gloss.Markup

/-- May the character stand in the name of a tag? Letters, digits and underscores may. -/
def isNameChar (c : Char) : Bool := Unicode.isAlphanumeric c || c == '_'

/-- May the character stand in a tag? -/
def isTagChar (c : Char) : Bool := isNameChar c || c == '/' || c == '<'

theorem isTagChar_of_isNameChar {c : Char} (named : isNameChar c) : isTagChar c := by simp [isTagChar, named]

/-- Markup, with the characters that are left when its tags are taken out. -/
inductive Shows : List Char → List Char → Prop where
  | nil : Shows [] []
  | char {c : Char} {markup shown : List Char} (plain : c ≠ '<') (more : Shows markup shown) :
      Shows (c :: markup) (c :: shown)
  | tag {name markup shown : List Char} (named : ∀ c ∈ name, isTagChar c) (more : Shows markup shown) :
      Shows ('<' :: (name ++ '>' :: markup)) shown

section Shows

variable {a b x y markup shown : List Char}

theorem Shows.append (front : Shows a x) (back : Shows b y) : Shows (a ++ b) (x ++ y) := by
  induction front with
  | nil => exact back
  | char plain _ ih => exact .char plain ih
  | tag named _ ih =>
    simp only [List.cons_append, List.append_assoc]
    exact .tag named ih

/-- Text without opening angle brackets shows itself. -/
theorem Shows.of_plain (plain : '<' ∉ a) : Shows a a := by
  induction a with
  | nil => exact .nil
  | cons c a ih =>
    simp only [List.mem_cons, not_or] at plain
    exact .char (fun eq => plain.1 eq.symm) (ih plain.2)

private theorem dropTags_inside {name rest : List Char} (named : ∀ c ∈ name, c ≠ '>') :
    dropTags true (name ++ '>' :: rest) = dropTags false rest := by
  induction name with
  | nil => simp [dropTags]
  | cons c name ih =>
    have other : c ≠ '>' := named c (by simp)
    simp only [List.cons_append, dropTags, if_true]
    rw [show (c != '>') = true by simp [other]]
    exact ih fun d member => named d (by simp [member])

theorem ne_close_of_isTagChar {c : Char} (named : isTagChar c) : c ≠ '>' := by
  rintro rfl
  revert named
  decide

/-- Taking the tags out of markup leaves what it shows. -/
theorem Shows.dropTags (h : Shows markup shown) (rest : List Char) :
    dropTags false (markup ++ rest) = shown ++ Markup.dropTags false rest := by
  induction h with
  | nil => rfl
  | char plain _ ih => simp [Markup.dropTags, plain, ih]
  | tag named _ ih =>
    simp only [List.cons_append, List.append_assoc, Markup.dropTags, Bool.false_eq_true, if_false, if_true]
    rw [dropTags_inside fun c member => ne_close_of_isTagChar (named c member), ih]

theorem Shows.stripChars (h : Shows markup shown) : stripChars markup = unescapeChars shown := by
  have eq := h.dropTags []
  simp only [List.append_nil, Markup.dropTags] at eq
  rw [Markup.stripChars, eq]

/-- What is shown stands in the markup. -/
theorem Shows.mem {markup shown : List Char} (h : Shows markup shown) {c : Char} (member : c ∈ shown) : c ∈ markup := by
  induction h with
  | nil => exact member
  | char plain more ih =>
    rcases List.mem_cons.mp member with rfl | member
    · exact List.mem_cons_self
    · exact List.mem_cons_of_mem _ (ih member)
  | tag named more ih => exact List.mem_cons_of_mem _ (List.mem_append_right _ (List.mem_cons_of_mem _ (ih member)))

/-- No tag opens in what is shown. -/
theorem Shows.no_opening (h : Shows markup shown) : '<' ∉ shown := by
  induction h with
  | nil => simp
  | char plain _ ih => simp [Ne.symm plain, ih]
  | tag _ _ ih => exact ih

/-- A place in markup is outside of all tags, or there is a tag around it. -/
theorem Shows.cut_or_inside (h : Shows (a ++ b) shown) :
    (∃ x y, shown = x ++ y ∧ Shows a x ∧ Shows b y) ∨
      ∃ front left right back, a = front ++ '<' :: left ∧ b = right ++ '>' :: back ∧
        ∀ c ∈ left ++ right, isTagChar c := by
  generalize whole : a ++ b = markup at h
  induction h generalizing a with
  | nil =>
    obtain ⟨rfl, rfl⟩ := List.append_eq_nil_iff.mp whole
    exact .inl ⟨[], [], rfl, .nil, .nil⟩
  | @char c markup shown plain more ih =>
    cases a with
    | nil =>
      rw [List.nil_append] at whole
      exact .inl ⟨[], c :: shown, rfl, .nil, whole ▸ .char plain more⟩
    | cons d a =>
      simp only [List.cons_append, List.cons.injEq] at whole
      obtain ⟨rfl, whole⟩ := whole
      rcases ih whole with ⟨x, y, rfl, first, second⟩ | ⟨front, left, right, back, rfl, rfl, named⟩
      · exact .inl ⟨d :: x, y, rfl, .char plain first, second⟩
      · exact .inr ⟨d :: front, left, right, back, rfl, rfl, named⟩
  | @tag name markup shown named more ih =>
    cases a with
    | nil =>
      rw [List.nil_append] at whole
      exact .inl ⟨[], shown, rfl, .nil, whole ▸ .tag named more⟩
    | cons d a =>
      simp only [List.cons_append, List.cons.injEq] at whole
      obtain ⟨rfl, whole⟩ := whole
      rcases List.append_eq_append_iff.mp whole with ⟨left, rfl, rest⟩ | ⟨left, rfl, rest⟩
      · -- The place is in the name of this tag.
        exact .inr ⟨[], a, left, markup, rfl, rest, named⟩
      · cases left with
        | nil =>
          simp only [List.nil_append] at rest
          exact .inr ⟨[], name, [], markup, by simp, by simp [← rest], by simpa using named⟩
        | cons e left =>
          simp only [List.cons_append, List.cons.injEq] at rest
          obtain ⟨rfl, rest⟩ := rest
          rcases ih rest.symm with ⟨x, y, rfl, first, second⟩ | ⟨front, left', right, back, rfl, rfl, named'⟩
          · exact .inl ⟨x, y, rfl, .tag named first, second⟩
          · exact .inr ⟨'<' :: (name ++ '>' :: front), left', right, back, by simp, rfl, named'⟩

/-- Can the character stand at no place inside of a tag? -/
def isOutside (c : Char) : Bool := !isTagChar c && c != '>'

/-- Markup can be cut in front of a character that stands in no tag. -/
theorem Shows.cut_before {c : Char} (h : Shows (a ++ c :: b) shown) (outside : isOutside c) :
    ∃ x y, shown = x ++ y ∧ Shows a x ∧ Shows (c :: b) y := by
  simp only [isOutside, Bool.and_eq_true, Bool.not_eq_true', bne_iff_ne] at outside
  rcases h.cut_or_inside with cut | ⟨front, left, right, back, _, rest, named⟩
  · exact cut
  · cases right with
    | nil =>
      simp only [List.nil_append, List.cons.injEq] at rest
      exact absurd rest.1 outside.2
    | cons d right =>
      simp only [List.cons_append, List.cons.injEq] at rest
      have member := named d (by simp)
      rw [← rest.1, outside.1] at member
      cases member

theorem ne_open_of_isOutside {c : Char} (outside : isOutside c) : c ≠ '<' := by
  rintro rfl
  revert outside
  decide

theorem Shows.char_inv {c : Char} (h : Shows (c :: b) shown) (plain : c ≠ '<') :
    ∃ y, shown = c :: y ∧ Shows b y := by
  cases h with
  | char _ more => exact ⟨_, rfl, more⟩
  | tag => exact absurd rfl plain

/-- Markup can be cut behind a character that stands in no tag. -/
theorem Shows.cut_after {c : Char} (h : Shows (a ++ c :: b) shown) (outside : isOutside c) :
    ∃ x y, shown = x ++ y ∧ Shows (a ++ [c]) x ∧ Shows b y := by
  obtain ⟨x, y, rfl, first, second⟩ := h.cut_before outside
  obtain ⟨z, rfl, more⟩ := second.char_inv (ne_open_of_isOutside outside)
  exact ⟨x ++ [c], z, by simp, first.append (.char (ne_open_of_isOutside outside) .nil), more⟩

/-- Text without opening angle brackets at the front of markup can be cut off. -/
theorem Shows.cut_plain (h : Shows (a ++ b) shown) (plain : '<' ∉ a) :
    ∃ y, shown = a ++ y ∧ Shows b y := by
  induction a generalizing shown with
  | nil => exact ⟨shown, rfl, h⟩
  | cons c a ih =>
    simp only [List.mem_cons, not_or] at plain
    obtain ⟨y, rfl, more⟩ := Shows.char_inv h (fun eq => plain.1 eq.symm)
    obtain ⟨z, rfl, rest⟩ := ih more plain.2
    exact ⟨z, rfl, rest⟩

/-- What shows nothing but the text around can be put in anywhere outside of tags. -/
theorem Shows.wrap {before after : List Char} (h : Shows a x) (open_ : Shows before [])
    (close : Shows after []) : Shows (before ++ a ++ after) x := by
  simpa using (open_.append h).append close

end Shows

section Escape

@[simp] theorem escapeChars_nil : escapeChars [] = [] := rfl

@[simp] theorem escapeChars_append (a b : List Char) :
    escapeChars (a ++ b) = escapeChars a ++ escapeChars b := by
  simp [escapeChars]

theorem escapeChars_cons (c : Char) (s : List Char) :
    escapeChars (c :: s) = escapeChar c ++ escapeChars s := rfl

theorem not_mem_escapeChars {c : Char} (bracket : c = '<' ∨ c = '>') (s : List Char) : c ∉ escapeChars s := by
  simp only [escapeChars, List.mem_flatMap, not_exists, not_and]
  intro d _ member
  simp only [escapeChar] at member
  split at member
  · rcases bracket with rfl | rfl <;> simp at member
  · split at member
    · rcases bracket with rfl | rfl <;> simp at member
    · split at member
      · rcases bracket with rfl | rfl <;> simp at member
      · obtain rfl := List.mem_singleton.mp member
        rcases bracket with rfl | rfl <;> contradiction

/-- A character is markup for itself, or an entity. -/
theorem escapeChar_cases (c : Char) :
    escapeChar c = [c] ∨ c ∈ ['&', '<', '>'] ∧ ∃ rest, escapeChar c = '&' :: rest ∧ '\\' ∉ rest := by
  by_cases amp : c = '&'
  · exact .inr ⟨by simp [amp], ['a', 'm', 'p', ';'], by simp [amp, escapeChar], by decide⟩
  by_cases opens : c = '<'
  · exact .inr ⟨by simp [opens], ['l', 't', ';'], by simp [opens, escapeChar], by decide⟩
  by_cases closes : c = '>'
  · exact .inr ⟨by simp [closes], ['g', 't', ';'], by simp [closes, escapeChar], by decide⟩
  exact .inl (by simp [escapeChar, amp, opens, closes])

theorem backslash_not_mem_escapeChar {c : Char} (other : c ≠ '\\') : '\\' ∉ escapeChar c := by
  rcases escapeChar_cases c with single | ⟨_, rest, entity, absent⟩
  · simp [single, Ne.symm other]
  · simp [entity, absent]

theorem shows_escapeChars (s : List Char) : Shows (escapeChars s) (escapeChars s) :=
  .of_plain (not_mem_escapeChars (.inl rfl) s)

theorem unescapeChars_cons {c : Char} {s : List Char} (plain : c ≠ '&') :
    unescapeChars (c :: s) = c :: unescapeChars s := by
  rw [unescapeChars.eq_def]
  split <;> simp_all

/-- Escaping a text is undone, whatever follows it. -/
theorem unescapeChars_escapeChars_append (s rest : List Char) :
    unescapeChars (escapeChars s ++ rest) = s ++ unescapeChars rest := by
  induction s with
  | nil => rfl
  | cons c s ih =>
    rw [escapeChars_cons, List.append_assoc]
    by_cases amp : c = '&'
    · subst amp
      simp [escapeChar, unescapeChars, ih]
    · by_cases open_ : c = '<'
      · subst open_
        simp [escapeChar, unescapeChars, ih]
      · by_cases close : c = '>'
        · subst close
          simp [escapeChar, unescapeChars, ih]
        · simp only [escapeChar, amp, open_, close, if_false, List.cons_append, List.nil_append]
          rw [unescapeChars_cons amp, ih]

theorem unescapeChars_escapeChars (s : List Char) : unescapeChars (escapeChars s) = s := by
  simpa [unescapeChars] using unescapeChars_escapeChars_append s []

end Escape

/-- A name that can stand in a tag. -/
def WellNamed (kind : Kind) : Prop := ∀ c ∈ kind.name.toList, isNameChar c

instance (kind : Kind) : Decidable (WellNamed kind) :=
  decidable_of_iff (kind.name.toList.all isNameChar = true) List.all_eq_true

section Tags

variable {kind : Kind} {markup shown : List Char}

theorem shows_openTag (named : WellNamed kind) : Shows (openTag kind.name).toList [] := by
  simpa [openTag] using Shows.tag (fun c member => isTagChar_of_isNameChar (named c member)) .nil

theorem shows_closeTag (named : WellNamed kind) : Shows (closeTag kind.name).toList [] := by
  have slashed : ∀ c ∈ '/' :: kind.name.toList, isTagChar c := by
    intro c member
    rcases List.mem_cons.mp member with rfl | member
    · decide
    · exact isTagChar_of_isNameChar (named c member)
  simpa [closeTag] using Shows.tag slashed .nil

/-- Each line feed replaced by a text. -/
def breakLines (sep : List Char) (s : List Char) : List Char :=
  s.flatMap fun c => if c = '\n' then sep else [c]

theorem breakLines_of_not_mem {sep s : List Char} (none_ : '\n' ∉ s) : breakLines sep s = s := by
  induction s with
  | nil => rfl
  | cons c s ih =>
    simp only [List.mem_cons, not_or] at none_
    have other : c ≠ '\n' := fun eq => none_.1 eq.symm
    have rest := ih none_.2
    simp only [breakLines] at rest
    simp [breakLines, other, rest]

theorem breakLines_append (sep a b : List Char) : breakLines sep (a ++ b) = breakLines sep a ++ breakLines sep b := by
  simp [breakLines]

theorem splitLines_ne_nil (s : List Char) : Text.splitLines s ≠ [] := by
  cases s with
  | nil => simp [Text.splitLines]
  | cons c s =>
    simp only [Text.splitLines]
    split
    · simp
    · split <;> simp

theorem intercalate_splitLines (sep : List Char) (s : List Char) :
    sep.intercalate (Text.splitLines s) = breakLines sep s := by
  induction s with
  | nil => simp [Text.splitLines, breakLines]
  | cons c s ih =>
    simp only [Text.splitLines]
    by_cases newline : c = '\n'
    · rw [if_pos newline, List.intercalate_cons_of_ne_nil (splitLines_ne_nil s), ih]
      simp [breakLines, newline]
    · rw [if_neg newline]
      cases lines : Text.splitLines s with
      | nil => exact absurd lines (splitLines_ne_nil s)
      | cons line lines' =>
        rw [lines] at ih
        have here : breakLines sep (c :: s) = c :: breakLines sep s := by simp [breakLines, newline]
        rw [here, ← ih]
        cases lines' with
        | nil => simp
        | cons second more => simp [List.intercalate_cons_cons]

/-- Tags may be closed before and opened again behind every line end. -/
theorem Shows.breakLines {sep : List Char} (h : Shows markup shown) (breaks : Shows sep ['\n']) :
    Shows (breakLines sep markup) shown := by
  induction h with
  | nil => exact .nil
  | @char c markup shown plain _ ih =>
    by_cases newline : c = '\n'
    · subst newline
      exact breaks.append ih
    · simp only [Markup.breakLines, List.flatMap_cons, newline, if_false]
      exact .char plain ih
  | @tag name markup shown named _ ih =>
    have none_ : '\n' ∉ name := by
      intro member
      have := named _ member
      revert this
      decide
    have whole : Markup.breakLines sep ('<' :: (name ++ '>' :: markup)) =
        '<' :: (Markup.breakLines sep name ++ '>' :: Markup.breakLines sep markup) := by
      simp [Markup.breakLines]
    rw [whole, breakLines_of_not_mem none_]
    exact .tag named ih

/-- With a split, the tags are closed and opened again at every line end. -/
theorem toList_tagBlock (kind : Kind) (block : String) : (tagBlock kind block true).toList =
    (openTag kind.name).toList ++
      breakLines ((closeTag kind.name).toList ++ '\n' :: (openTag kind.name).toList) block.toList ++
      (closeTag kind.name).toList := by
  have lines : ((Text.splitLines block.toList).map String.ofList).map String.toList = Text.splitLines block.toList := by
    simp
  rw [← intercalate_splitLines]
  simp [tagBlock, String.toList_intercalate, lines]

/-- A tag around markup shows the same. -/
theorem Shows.tagBlock {block : String} (h : Shows block.toList shown) (named : WellNamed kind)
    (split : Bool) : Shows (tagBlock kind block split).toList shown := by
  have open_ := shows_openTag named
  have close := shows_closeTag named
  cases split with
  | false => simpa [Markup.tagBlock] using h.wrap open_ close
  | true =>
    have newline : Shows ['\n'] ['\n'] := .char (by decide) .nil
    have breaks := close.append (newline.append open_)
    rw [toList_tagBlock]
    exact (h.breakLines breaks).wrap open_ close

end Tags

end Gloss.Markup

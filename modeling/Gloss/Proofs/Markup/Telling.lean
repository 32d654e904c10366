import Gloss.Proofs.Markup.Legible
import Gloss.Proofs.Markup.Nested

/-!
Markup put together from lines. Markup tells a text if it shows the text whatever follows it. Any line of markup tells
one between tags, as long as the line ends behind them: the closing tag ends a tag that the line leaves open, and a
line feed ends an entity. So markup may be taken apart at its line ends and put together again if it has as many lines
as the text that it shows.
-/
namespace Gloss.Markup

open Text (splitLines)

section Lines

variable {a b : List Char}

/-- The lines of a text, from those in front of a line end and those behind it. -/
theorem splitLines_append_newline : splitLines (a ++ '\n' :: b) = splitLines a ++ splitLines b := by
  induction a with
  | nil => simp [splitLines]
  | cons c a ih =>
    simp only [List.cons_append, splitLines]
    by_cases newline : c = '\n'
    · simp [newline, ih]
    · simp only [newline, if_false, ih]
      cases lines : splitLines a with
      | nil => exact absurd lines (splitLines_ne_nil a)
      | cons line more => rfl

theorem length_splitLines (s : List Char) : (splitLines s).length = s.count '\n' + 1 := by
  induction s with
  | nil => rfl
  | cons c s ih =>
    simp only [splitLines]
    by_cases newline : c = '\n'
    · simp [newline, ih]
    · simp only [newline, if_false]
      rw [List.count_cons_of_ne newline, ← ih]
      cases lines : splitLines s with
      | nil => exact absurd lines (splitLines_ne_nil s)
      | cons line more => rfl

theorem oneLine_of_mem_splitLines {s line : List Char} (member : line ∈ splitLines s) : OneLine line := by
  induction s generalizing line with
  | nil =>
    obtain rfl := List.mem_singleton.mp member
    simp [OneLine]
  | cons c s ih =>
    simp only [splitLines] at member
    by_cases newline : c = '\n'
    · simp only [newline, if_true, List.mem_cons] at member
      rcases member with rfl | member
      · simp [OneLine]
      · exact ih member
    · simp only [newline, if_false] at member
      cases lines : splitLines s with
      | nil => exact absurd lines (splitLines_ne_nil s)
      | cons first more =>
        rw [lines] at member ih
        rcases List.mem_cons.mp member with rfl | member
        · have inner := ih List.mem_cons_self
          simpa [OneLine, Ne.symm newline] using inner
        · exact ih (List.mem_cons_of_mem _ member)

/-- Lines put together are the lines of the text. -/
theorem splitLines_intercalate {lines : List (List Char)} (some_ : lines ≠ []) (each : ∀ line ∈ lines, OneLine line) :
    splitLines (['\n'].intercalate lines) = lines := by
  induction lines with
  | nil => exact absurd rfl some_
  | cons line lines ih =>
    have here := each line List.mem_cons_self
    by_cases last : lines = []
    · simp [last, splitLines_of_oneLine here]
    · rw [List.intercalate_cons_of_ne_nil last, List.append_assoc, List.singleton_append, splitLines_append_newline,
        splitLines_of_oneLine here, ih last fun l member => each l (List.mem_cons_of_mem _ member)]
      rfl

theorem intercalate_splitLines_self (s : List Char) : ['\n'].intercalate (splitLines s) = s := by
  rw [intercalate_splitLines]
  induction s with
  | nil => rfl
  | cons c s ih =>
    by_cases newline : c = '\n'
    · simpa [breakLines, newline] using ih
    · simpa [breakLines, newline] using ih

end Lines

section Entities

variable {a b : List Char}

/-- Does the character stand in an entity, or does an entity stand for it? -/
def isEntityChar (c : Char) : Bool := "&amp;&lt;&gt;<>".toList.contains c

variable {c : Char}

theorem ne_of_isEntityChar {d : Char} (other : isEntityChar c = false) (entity : isEntityChar d) : d ≠ c := by
  rintro rfl
  rw [entity] at other
  cases other

/-- No entity goes over a character that stands in none. -/
theorem unescapeChars_append_char (other : isEntityChar c = false) :
    unescapeChars (a ++ c :: b) = unescapeChars a ++ c :: unescapeChars b := by
  have absent : ∀ word : List Char, word.all isEntityChar → c ∉ word := by
    intro word entities member
    exact ne_of_isEntityChar other (List.all_eq_true.mp entities c member) rfl
  induction a using unescapeChars.induct with
  | case1 => exact unescapeChars_cons (ne_of_isEntityChar other (by decide)).symm
  | case2 rest ih => simp [unescapeChars, ih]
  | case3 rest ih => simp [unescapeChars, ih]
  | case4 rest ih => simp [unescapeChars, ih]
  | case5 d rest amp lt gt ih =>
    have longer : unescapeChars (d :: (rest ++ c :: b)) = d :: unescapeChars (rest ++ c :: b) := by
      refine unescapeChars.eq_5 d _ ?_ ?_ ?_
      · intro r isAmp eq
        obtain ⟨more, whole, _⟩ := past_word (absent ['a', 'm', 'p', ';'] (by decide)) eq
        exact amp more isAmp whole
      · intro r isAmp eq
        obtain ⟨more, whole, _⟩ := past_word (absent ['l', 't', ';'] (by decide)) eq
        exact lt more isAmp whole
      · intro r isAmp eq
        obtain ⟨more, whole, _⟩ := past_word (absent ['g', 't', ';'] (by decide)) eq
        exact gt more isAmp whole
    rw [List.cons_append, longer, ih, unescapeChars.eq_5 d rest amp lt gt, List.cons_append]

theorem count_unescapeChars (other : isEntityChar c = false) (s : List Char) :
    (unescapeChars s).count c = s.count c := by
  have drop : ∀ d s, isEntityChar d → (d :: s).count c = s.count c := fun d s entity =>
    List.count_cons_of_ne (ne_of_isEntityChar other entity)
  induction s using unescapeChars.induct with
  | case1 => rfl
  | case2 rest ih => simp [unescapeChars, drop, isEntityChar, ih]
  | case3 rest ih => simp [unescapeChars, drop, isEntityChar, ih]
  | case4 rest ih => simp [unescapeChars, drop, isEntityChar, ih]
  | case5 d rest amp lt gt ih => rw [unescapeChars.eq_5 d rest amp lt gt, List.count_cons, List.count_cons, ih]

theorem count_escapeChars (s : List Char) : (escapeChars s).count '\n' = s.count '\n' := by
  rw [← count_unescapeChars (by decide), unescapeChars_escapeChars]

/-- The lines that markup shows are shown by its lines, if it has as many. -/
theorem splitLines_stripChars {s : List Char} (same : (splitLines s).length = (splitLines (stripChars s)).length) :
    splitLines (stripChars s) = (splitLines s).map stripChars := by
  rw [length_splitLines, length_splitLines, stripChars, count_unescapeChars (by decide)] at same
  -- The induction is on the lines of the markup.
  induction lines : s.count '\n' using Nat.strongRecOn generalizing s with
  | ind n ih =>
    by_cases some_ : '\n' ∈ s
    · obtain ⟨front, back, rfl⟩ := List.append_of_mem some_
      have kept : (dropTags false (front ++ '\n' :: back)).count '\n' = (front ++ '\n' :: back).count '\n' := by omega
      obtain ⟨outside, keptFront, keptBack⟩ := endsInTag_of_count kept
      have newline : dropTags false ('\n' :: back) = '\n' :: dropTags false back := by simp [dropTags]
      have shown : stripChars (front ++ '\n' :: back) = stripChars front ++ '\n' :: stripChars back := by
        rw [stripChars, dropTags_append, outside, newline, unescapeChars_append_char (by decide)]
        rfl
      rw [List.count_append, List.count_cons_self] at lines
      rw [shown, splitLines_append_newline, splitLines_append_newline, List.map_append,
        ih _ (by omega) (by omega) rfl, ih _ (by omega) (by omega) rfl]
    · have alone : '\n' ∉ stripChars s := by
        rw [← List.count_eq_zero] at some_ ⊢
        rw [stripChars, count_unescapeChars (by decide)]
        omega
      rw [splitLines_of_oneLine alone, splitLines_of_oneLine some_]
      rfl

end Entities

/-- The markup shows the text, whatever follows. -/
def Telling (markup text : List Char) : Prop := ∀ rest, stripChars (markup ++ rest) = text ++ stripChars rest

/-- The markup shows the text, if the line ends behind it. -/
def LineTelling (markup text : List Char) : Prop :=
  ∀ rest, (rest = [] ∨ rest.head? = some '\n') → stripChars (markup ++ rest) = text ++ stripChars rest

section Telling

variable {a b v w : List Char}

theorem Telling.nil : Telling [] [] := fun _ => rfl

theorem Telling.append (first : Telling a v) (second : Telling b w) : Telling (a ++ b) (v ++ w) := by
  intro rest
  rw [List.append_assoc, first, second, List.append_assoc]

theorem Telling.append_line (first : Telling a v) (second : LineTelling b w) : LineTelling (a ++ b) (v ++ w) := by
  intro rest ends
  rw [List.append_assoc, first, second rest ends, List.append_assoc]

theorem Telling.line (h : Telling a w) : LineTelling a w := fun rest _ => h rest

/-- A line feed ends the line. -/
theorem LineTelling.newline (h : LineTelling a w) : Telling (a ++ ['\n']) (w ++ ['\n']) := by
  intro rest
  rw [List.append_assoc, h _ (.inr rfl), List.append_assoc]
  have here : stripChars ('\n' :: rest) = '\n' :: stripChars rest := by
    have newline : dropTags false ('\n' :: rest) = '\n' :: dropTags false rest := by simp [dropTags]
    rw [Markup.stripChars, newline]
    exact unescapeChars_cons (by decide)
  rw [List.singleton_append, here]
  rfl

theorem LineTelling.stripChars (h : LineTelling a w) : stripChars a = w := by
  simpa [Markup.stripChars, dropTags, unescapeChars] using h [] (.inl rfl)

/-- Markup that shows escaped text tells the text. -/
theorem Legible.telling (h : Legible a (escapeChars w)) : Telling a w := by
  intro rest
  rw [Markup.stripChars, dropTags_append, h.outside, h.shows, unescapeChars_escapeChars_append]
  rfl

/-- Markup tells what the characters that it shows tell. -/
theorem Shows.telling {x : List Char} (h : Shows a x) (told : Telling x w) : Telling a w := by
  intro rest
  rw [← told rest, Markup.stripChars, Markup.stripChars, h.dropTags, (Shows.of_plain h.no_opening).dropTags]

theorem telling_escapeChars (s : List Char) : Telling (escapeChars s) s :=
  (Legible.of_plain (not_mem_escapeChars (.inl rfl) s)).telling

theorem telling_plain {s : List Char} (plain : '&' ∉ s ∧ '<' ∉ s) : Telling s s := by
  intro rest
  induction s with
  | nil => rfl
  | cons c s ih =>
    simp only [List.mem_cons, not_or] at plain
    obtain ⟨⟨amp, plainAmp⟩, tag, plainTag⟩ := plain
    have step : stripChars (c :: (s ++ rest)) = c :: stripChars (s ++ rest) := by
      rw [stripChars, dropTags, if_neg Bool.false_ne_true, if_neg (Ne.symm tag),
        unescapeChars_cons (Ne.symm amp)]
      rfl
    rw [List.cons_append, step, ih ⟨plainAmp, plainTag⟩]
    rfl

/-- A closing tag ends the tag that is open in front of it. -/
theorem dropTags_closeTag {kind : Kind} (tidy : Tidy kind) (inTag : Bool) (rest : List Char) :
    dropTags inTag ((closeTag kind.name).toList ++ rest) = dropTags false rest := by
  have inside : ∀ name : List Char, '>' ∉ name → dropTags true (name ++ '>' :: rest) = dropTags false rest := by
    intro name
    induction name with
    | nil => intro _; simp [dropTags]
    | cons c name ih =>
      intro closed
      simp only [List.mem_cons, not_or] at closed
      have other : (c != '>') = true := by simpa using fun eq => closed.1 eq.symm
      simpa [dropTags, other] using ih closed.2
  have whole : (closeTag kind.name).toList ++ rest = '<' :: ('/' :: kind.name.toList ++ '>' :: rest) := by
    simp [closeTag]
  rw [whole]
  cases inTag with
  | true =>
    have first : dropTags true ('<' :: ('/' :: kind.name.toList ++ '>' :: rest)) =
        dropTags true ('/' :: kind.name.toList ++ '>' :: rest) := by simp [dropTags]
    rw [first]
    exact inside _ (by simpa using tidy.1)
  | false =>
    have first : dropTags false ('<' :: ('/' :: kind.name.toList ++ '>' :: rest)) =
        dropTags true ('/' :: kind.name.toList ++ '>' :: rest) := by simp [dropTags]
    rw [first]
    exact inside _ (by simpa using tidy.1)

/-- Any line of markup tells what it shows, between tags and behind a text. -/
theorem lineTelling_tagBlock {kind : Kind} (tidy : Tidy kind) {mark line : List Char} (single : OneLine mark)
    (alone : OneLine line) :
    LineTelling (tagBlock kind (String.ofList (escapeChars mark ++ line)) true).toList (mark ++ stripChars line) := by
  have block : OneLine (escapeChars mark ++ line) := by
    simp only [OneLine, List.mem_append, not_or]
    refine ⟨?_, alone⟩
    rw [← List.count_eq_zero, count_escapeChars]
    exact List.count_eq_zero.mpr single
  have open_ : Legible (openTag kind.name).toList [] := by
    simpa [openTag] using Legible.tag tidy.1 tidy.2
  have marked : Legible (escapeChars mark) (escapeChars mark) := .of_plain (not_mem_escapeChars (.inl rfl) mark)
  intro rest ends
  rw [toList_tagBlock, String.toList_ofList, breakLines_of_not_mem block]
  simp only [List.append_assoc]
  rw [Markup.stripChars, dropTags_append, open_.outside, open_.shows, dropTags_append, marked.outside, marked.shows,
    dropTags_append, dropTags_closeTag tidy, List.nil_append, unescapeChars_escapeChars_append]
  congr 1
  rcases ends with rfl | newline
  · simp [Markup.stripChars, dropTags, unescapeChars]
  · obtain ⟨more, rfl⟩ := List.head?_eq_some_iff.mp newline
    have here : dropTags false ('\n' :: more) = '\n' :: dropTags false more := by simp [dropTags]
    rw [Markup.stripChars, Markup.stripChars, here, unescapeChars_append_char (by decide)]
    exact congrArg _ (unescapeChars_cons (by decide)).symm

end Telling

end Gloss.Markup

import Gloss.Proofs.Markup.Shows

/-!
Markup whose tags are nested. What stands between an opening tag and its closing one is an element. Elements may be
put into each other, and a property of the text inside of them tells where markup can be cut: behind and in front of
every character that stands in no element. Markup whose elements stay on one line is nested line by line.
-/
namespace Gloss.Markup

/-- Markup in which each tag that is opened is closed in its turn, and with no angle bracket besides. -/
inductive Nested : List Char → Prop where
  | nil : Nested []
  | char {c : Char} {markup : List Char} (plain : c ≠ '<' ∧ c ≠ '>') (more : Nested markup) : Nested (c :: markup)
  | element {name inner markup : List Char} (named : ∀ c ∈ name, isNameChar c) (inside : Nested inner)
      (more : Nested markup) : Nested ('<' :: (name ++ '>' :: (inner ++ '<' :: '/' :: (name ++ '>' :: markup))))

/-- The tag that opens an element, and the one that closes it. -/
def opening (name : List Char) : List Char := '<' :: (name ++ ['>'])

def closing (name : List Char) : List Char := '<' :: '/' :: (name ++ ['>'])

/-- An element: some markup in tags. -/
def element (name inner : List Char) : List Char := opening name ++ inner ++ closing name

theorem toList_openTag (name : String) : (openTag name).toList = opening name.toList := by simp [openTag, opening]

theorem toList_closeTag (name : String) : (closeTag name).toList = closing name.toList := by simp [closeTag, closing]

theorem toList_block (kind : Kind) (block : String) :
    (tagBlock kind block false).toList = element kind.name.toList block.toList := by
  simp [tagBlock, element, toList_openTag, toList_closeTag]

theorem element_append (name inner markup : List Char) :
    element name inner ++ markup = '<' :: (name ++ '>' :: (inner ++ '<' :: '/' :: (name ++ '>' :: markup))) := by
  simp [element, opening, closing]

/-- Nested markup with the characters that it shows, where the markup inside of each element is fit. -/
inductive Nests (Fit : List Char → Prop) : List Char → List Char → Prop where
  | nil : Nests Fit [] []
  | char {c : Char} {markup shown : List Char} (plain : c ≠ '<' ∧ c ≠ '>') (more : Nests Fit markup shown) :
      Nests Fit (c :: markup) (c :: shown)
  | element {name inner x markup shown : List Char} (named : ∀ c ∈ name, isNameChar c) (inside : Nests Fit inner x)
      (fit : Fit inner) (more : Nests Fit markup shown) : Nests Fit (element name inner ++ markup) (x ++ shown)

/-- The markup is on one line. -/
def OneLine (markup : List Char) : Prop := '\n' ∉ markup

instance (markup : List Char) : Decidable (OneLine markup) := inferInstanceAs (Decidable ('\n' ∉ markup))

theorem not_mem_of_isNameChar {c : Char} {name : List Char} (named : ∀ c ∈ name, isNameChar c)
    (other : isNameChar c = false) : c ∉ name := by
  intro member
  have := named c member
  rw [other] at this
  cases this

/-- A text that goes on to a character has a word at its front that the character is not in. -/
theorem past_word {word rest a b : List Char} {c : Char} (absent : c ∉ word) (eq : a ++ c :: b = word ++ rest) :
    ∃ more, a = word ++ more ∧ rest = more ++ c :: b := by
  rcases List.append_eq_append_iff.mp eq with ⟨more, rfl, behind⟩ | ⟨more, rfl, rest_⟩
  · cases more with
    | nil => exact ⟨[], by simp, by simpa using behind.symm⟩
    | cons d more =>
      obtain rfl : c = d := by simpa using congrArg List.head? behind
      simp at absent
  · exact ⟨more, rfl, rest_⟩

/-- A text that comes up to a character has a word at its back that the character is not in. -/
theorem before_word {word rest a b : List Char} {c : Char} (absent : c ∉ word) (eq : a ++ c :: b = rest ++ word) :
    ∃ more, b = more ++ word ∧ rest = a ++ c :: more := by
  have flipped : b.reverse ++ c :: a.reverse = word.reverse ++ rest.reverse := by
    simpa using congrArg List.reverse eq
  obtain ⟨more, back, front⟩ := past_word (by simpa using absent) flipped
  refine ⟨more.reverse, ?_, ?_⟩
  · simpa using congrArg List.reverse back
  · simpa using congrArg List.reverse front

/-- The character stands in no element. -/
structure Apart (Fit : List Char → Prop) (c : Char) : Prop where
  outside : isOutside c
  absent : ∀ inner, Fit inner → c ∉ inner

namespace Nests

variable {Fit Fit' : List Char → Prop} {a b x y markup shown : List Char} {c : Char}

theorem mono (h : Nests Fit a x) (weaken : ∀ inner, Fit inner → Fit' inner) : Nests Fit' a x := by
  induction h with
  | nil => exact .nil
  | char plain _ ih => exact .char plain ih
  | element named _ fit _ ihInside ih => exact .element named ihInside (weaken _ fit) ih

theorem append (front : Nests Fit a x) (back : Nests Fit b y) : Nests Fit (a ++ b) (x ++ y) := by
  induction front with
  | nil => exact back
  | char plain _ ih => exact .char plain ih
  | element named inside fit _ _ ih =>
    rw [List.append_assoc, List.append_assoc]
    exact .element named inside fit ih

/-- Text without angle brackets shows itself. -/
theorem of_plain (opens : '<' ∉ a) (closes : '>' ∉ a) : Nests Fit a a := by
  induction a with
  | nil => exact .nil
  | cons c a ih =>
    simp only [List.mem_cons, not_or] at opens closes
    exact .char ⟨Ne.symm opens.1, Ne.symm closes.1⟩ (ih opens.2 closes.2)

theorem escapeChars (s : List Char) : Nests Fit (escapeChars s) (escapeChars s) :=
  .of_plain (not_mem_escapeChars (.inl rfl) s) (not_mem_escapeChars (.inr rfl) s)

theorem wrap {name : List Char} (h : Nests Fit a x) (named : ∀ c ∈ name, isNameChar c) (fit : Fit a) :
    Nests Fit (Markup.element name a) x := by
  simpa using Nests.element named h fit .nil

theorem shows (h : Nests Fit markup shown) : Shows markup shown := by
  induction h with
  | nil => exact .nil
  | char plain _ ih => exact .char plain.1 ih
  | @element name inner x markup shown named _ _ _ ihInside ih =>
    rw [element_append]
    refine .tag (fun c member => isTagChar_of_isNameChar (named c member)) (ihInside.append ?_)
    have slashed : ∀ c ∈ '/' :: name, isTagChar c := by
      intro c member
      rcases List.mem_cons.mp member with rfl | member
      · decide
      · exact isTagChar_of_isNameChar (named c member)
    exact .tag slashed ih

section Cuts

theorem char_inv (h : Nests Fit (c :: b) shown) (plain : c ≠ '<') : ∃ y, shown = c :: y ∧ Nests Fit [c] [c] ∧ Nests Fit b y := by
  generalize whole : c :: b = markup at h
  cases h with
  | nil => cases whole
  | char plain more =>
    cases whole
    exact ⟨_, rfl, .char plain .nil, more⟩
  | element =>
    rw [element_append] at whole
    cases whole
    exact absurd rfl plain

theorem open_inv (h : Nests Fit ('<' :: b) shown) : ∃ name inner x markup y, '<' :: b = Markup.element name inner ++ markup ∧
    shown = x ++ y ∧ (∀ c ∈ name, isNameChar c) ∧ Nests Fit inner x ∧ Fit inner ∧ Nests Fit markup y := by
  generalize whole : '<' :: b = markup at h
  cases h with
  | nil => cases whole
  | char plain more =>
    cases whole
    exact absurd rfl plain.1
  | element named inside fit more => exact ⟨_, _, _, _, _, rfl, rfl, named, inside, fit, more⟩

/-- Text without opening angle brackets at the front of markup can be cut off. -/
theorem cut_plain (h : Nests Fit (a ++ b) shown) (plain : '<' ∉ a) :
    ∃ y, shown = a ++ y ∧ Nests Fit a a ∧ Nests Fit b y := by
  induction a generalizing shown with
  | nil => exact ⟨shown, rfl, .nil, h⟩
  | cons c a ih =>
    simp only [List.mem_cons, not_or] at plain
    obtain ⟨y, rfl, single, more⟩ := h.char_inv (Ne.symm plain.1)
    obtain ⟨z, rfl, front, rest⟩ := ih more plain.2
    exact ⟨z, rfl, single.append front, rest⟩

theorem not_mem_tags {name : List Char} (outside : isOutside c) (named : ∀ c ∈ name, isNameChar c) :
    c ∉ opening name ∧ c ∉ closing name := by
  simp only [isOutside, isTagChar, Bool.and_eq_true, Bool.not_eq_true', Bool.or_eq_false_iff, beq_eq_false_iff_ne,
    bne_iff_ne] at outside
  obtain ⟨⟨⟨other, slash⟩, opens⟩, closes⟩ := outside
  have inName := not_mem_of_isNameChar named other
  simp [opening, closing, opens, closes, slash, inName]

theorem Apart.not_mem_element {name inner : List Char} (apart : Apart Fit c) (named : ∀ c ∈ name, isNameChar c)
    (fit : Fit inner) : c ∉ Markup.element name inner := by
  have tags := not_mem_tags apart.outside named
  simp [Markup.element, tags, apart.absent inner fit]

/-- Markup can be cut at a place that is inside of no element. -/
theorem cut (h : Nests Fit (a ++ b) shown)
    (clear : ∀ {name inner left right : List Char}, (∀ c ∈ name, isNameChar c) → Fit inner →
      Markup.element name inner = left ++ right → right ≠ [] → right <+: b → left = []) :
    ∃ x y, shown = x ++ y ∧ Nests Fit a x ∧ Nests Fit b y := by
  generalize whole : a ++ b = markup at h
  induction h generalizing a with
  | nil =>
    obtain ⟨rfl, rfl⟩ := List.append_eq_nil_iff.mp whole
    exact ⟨[], [], rfl, .nil, .nil⟩
  | @char d markup shown plain more ih =>
    cases a with
    | nil =>
      rw [List.nil_append] at whole
      exact ⟨[], d :: shown, rfl, .nil, whole ▸ .char plain more⟩
    | cons e a =>
      simp only [List.cons_append, List.cons.injEq] at whole
      obtain ⟨rfl, whole⟩ := whole
      obtain ⟨x, y, rfl, first, second⟩ := ih whole
      exact ⟨e :: x, y, rfl, .char plain first, second⟩
  | @element name inner x markup shown named inside fit more _ ih =>
    rcases List.append_eq_append_iff.mp whole with ⟨right, eq, rest⟩ | ⟨left, rfl, rest⟩
    · by_cases none_ : right = []
      · subst none_
        rw [List.append_nil] at eq
        rw [List.nil_append] at rest
        exact ⟨x, shown, rfl, eq ▸ inside.wrap named fit, rest ▸ more⟩
      · obtain rfl := clear named fit eq none_ ⟨markup, rest.symm⟩
        exact ⟨[], x ++ shown, rfl, .nil, by rw [rest, ← List.nil_append right, ← eq]; exact .element named inside fit more⟩
    · obtain ⟨u, v, rfl, first, second⟩ := ih rest.symm
      exact ⟨x ++ u, v, by simp, .element named inside fit first, second⟩

/-- Markup can be cut in front of a character that stands in no element. -/
theorem cut_before (h : Nests Fit (a ++ c :: b) shown) (apart : Apart Fit c) :
    ∃ x y, shown = x ++ y ∧ Nests Fit a x ∧ Nests Fit (c :: b) y := by
  refine h.cut ?_
  intro name inner left right named fit eq some_ front
  cases right with
  | nil => exact absurd rfl some_
  | cons d right =>
    obtain rfl : d = c := by simpa using front.head some_
    have absent := Apart.not_mem_element apart named fit
    rw [eq] at absent
    simp at absent

/-- Markup can be cut where no closing angle bracket follows. -/
theorem cut_of_no_close (h : Nests Fit (a ++ b) shown) (none_ : '>' ∉ b) :
    ∃ x y, shown = x ++ y ∧ Nests Fit a x ∧ Nests Fit b y := by
  refine h.cut ?_
  intro name inner left right named fit eq some_ front
  obtain ⟨c, last⟩ := Option.ne_none_iff_exists'.mp (mt List.getLast?_eq_none_iff.mp some_)
  have same := congrArg List.getLast? eq
  have close : (Markup.element name inner).getLast? = some '>' := by
    rw [Markup.element, closing, ← List.cons_append, ← List.cons_append, ← List.append_assoc, List.getLast?_concat]
  rw [close, List.getLast?_append, last, Option.some_or, Option.some.injEq] at same
  exact absurd (front.subset (List.mem_of_getLast? (same ▸ last))) none_

/-- Markup can be cut behind a character that stands in no element. -/
theorem cut_after (h : Nests Fit (a ++ c :: b) shown) (apart : Apart Fit c) :
    ∃ x y, shown = x ++ y ∧ Nests Fit (a ++ [c]) x ∧ Nests Fit b y := by
  obtain ⟨x, y, rfl, first, second⟩ := h.cut_before apart
  obtain ⟨z, rfl, single, more⟩ := second.char_inv (ne_open_of_isOutside apart.outside)
  exact ⟨x ++ [c], z, by simp, first.append single, more⟩

end Cuts

section Places

/-- A character that stands in no tag is shown. -/
theorem mem_shown (h : Nests Fit markup shown) (outside : isOutside c) (member : c ∈ markup) : c ∈ shown := by
  induction h with
  | nil => exact member
  | char _ _ ih =>
    rcases List.mem_cons.mp member with rfl | member
    · exact List.mem_cons_self
    · exact List.mem_cons_of_mem _ (ih member)
  | @element name inner x markup shown named _ _ _ ihInside ih =>
    rcases List.mem_append.mp member with member | member
    · refine List.mem_append_left _ (ihInside ?_)
      have tags := not_mem_tags outside named
      simpa [Markup.element, tags] using member
    · exact List.mem_append_right _ (ih member)

/-- The character between two parts of the markup stands in an outermost element. -/
inductive Within (Fit : List Char → Prop) (c : Char) : List Char → List Char → List Char → Prop where
  | mk {front name left right markup x y z : List Char} (before : Nests Fit front x)
      (named : ∀ d ∈ name, isNameChar d) (inside : Nests Fit (left ++ c :: right) y) (fit : Fit (left ++ c :: right))
      (behind : Nests Fit markup z) :
      Within Fit c (front ++ opening name ++ left) (right ++ closing name ++ markup) (x ++ y ++ z)

/-- A character that stands in no tag stands between elements or within one. -/
theorem place (h : Nests Fit (a ++ c :: b) shown) (outside : isOutside c) :
    (∃ x y, shown = x ++ c :: y ∧ Nests Fit a x ∧ Nests Fit b y) ∨ Within Fit c a b shown := by
  generalize whole : a ++ c :: b = markup at h
  induction h generalizing a with
  | nil => simp at whole
  | @char d markup shown plain more ih =>
    cases a with
    | nil =>
      obtain ⟨rfl, rfl⟩ := List.cons.inj whole
      exact .inl ⟨[], shown, rfl, .nil, more⟩
    | cons e a =>
      simp only [List.cons_append, List.cons.injEq] at whole
      obtain ⟨rfl, whole⟩ := whole
      rcases ih whole with ⟨x, y, rfl, before, behind⟩ | ⟨before, named, inside, fit, behind⟩
      · exact .inl ⟨e :: x, y, rfl, .char plain before, behind⟩
      · exact .inr (.mk (.char plain before) named inside fit behind)
  | @element name inner x markup shown named inside fit more _ ih =>
    have onward : ∀ left, left ++ c :: b = markup → a = Markup.element name inner ++ left →
        (∃ x' y, x ++ shown = x' ++ c :: y ∧ Nests Fit a x' ∧ Nests Fit b y) ∨ Within Fit c a b (x ++ shown) := by
      rintro left rest rfl
      rcases ih rest with ⟨u, v, rfl, before, behind⟩ | ⟨before, named', inside', fit', behind⟩
      · exact .inl ⟨x ++ u, v, by simp, .element named inside fit before, behind⟩
      · right
        simpa using Within.mk (.element named inside fit before) named' inside' fit' behind
    rcases List.append_eq_append_iff.mp whole with ⟨right, eq, rest⟩ | ⟨left, rfl, rest⟩
    · cases right with
      | nil => exact onward [] rest (by simpa using eq.symm)
      | cons d right =>
        simp only [List.cons_append, List.cons.injEq] at rest
        obtain ⟨rfl, rfl⟩ := rest
        -- The character is in none of the two tags.
        obtain ⟨absent, absent'⟩ := not_mem_tags outside named
        rw [Markup.element, List.append_assoc] at eq
        obtain ⟨left, rfl, eq'⟩ := past_word absent eq.symm
        obtain ⟨right, rfl, rfl⟩ := before_word absent' eq'.symm
        right
        simpa using Within.mk .nil named inside fit more
    · exact onward left rest.symm rfl

end Places

end Nests

section Lines

variable {name inner markup shown : List Char}

/-- A name stands on one line. -/
theorem newline_not_mem_name (named : ∀ c ∈ name, isNameChar c) : '\n' ∉ name :=
  not_mem_of_isNameChar named (by decide)

theorem oneLine_element (named : ∀ c ∈ name, isNameChar c) (line : OneLine inner) : OneLine (element name inner) := by
  have inName := newline_not_mem_name named
  simp only [OneLine] at line ⊢
  simp [element, opening, closing, inName, line]

theorem splitLines_append {front line : List Char} {lines : List (List Char)} (single : OneLine front)
    (eq : Text.splitLines markup = line :: lines) : Text.splitLines (front ++ markup) = (front ++ line) :: lines := by
  induction front with
  | nil => exact eq
  | cons c front ih =>
    simp only [OneLine, List.mem_cons, not_or] at single
    simp only [List.cons_append, Text.splitLines, ih single.2]
    rw [if_neg (Ne.symm single.1)]

theorem splitLines_of_oneLine (single : OneLine markup) : Text.splitLines markup = [markup] := by
  have whole : Text.splitLines (markup ++ []) = (markup ++ []) :: [] := splitLines_append single rfl
  simpa using whole

/-- If each element is on one line, the lines are nested one by one. -/
theorem Nests.lines (h : Nests OneLine markup shown) : ∃ line lines, Text.splitLines markup = line :: lines ∧
    ∀ l ∈ line :: lines, Nested l := by
  induction h with
  | nil => exact ⟨[], [], rfl, by simp [Nested.nil]⟩
  | @char c markup shown plain _ ih =>
    obtain ⟨line, lines, eq, nested⟩ := ih
    by_cases newline : c = '\n'
    · refine ⟨[], line :: lines, by simp [Text.splitLines, newline, eq], ?_⟩
      intro l member
      rcases List.mem_cons.mp member with rfl | member
      · exact .nil
      · exact nested l member
    · refine ⟨c :: line, lines, by simp [Text.splitLines, newline, eq], ?_⟩
      intro l member
      rcases List.mem_cons.mp member with rfl | member
      · exact .char plain (nested line List.mem_cons_self)
      · exact nested l (List.mem_cons_of_mem _ member)
  | @element name inner x markup shown named _ single _ ihInside ih =>
    obtain ⟨line, lines, eq, nested⟩ := ih
    obtain ⟨_, _, eqInside, nestedInside⟩ := ihInside
    rw [splitLines_of_oneLine single] at eqInside
    obtain ⟨rfl, rfl⟩ := List.cons.inj eqInside
    refine ⟨Markup.element name inner ++ line, lines, splitLines_append (oneLine_element named single) eq, ?_⟩
    intro l member
    rcases List.mem_cons.mp member with rfl | member
    · rw [element_append]
      exact .element named (nestedInside inner List.mem_cons_self) (nested line List.mem_cons_self)
    · exact nested l (List.mem_cons_of_mem _ member)

/-- Markup in a tag that is closed before every line end and opened again behind it. -/
theorem Nests.broken {front w : List Char} (h : Nests OneLine markup shown) (named : ∀ c ∈ name, isNameChar c)
    (before : Nests OneLine front w) (single : OneLine front) :
    Nests OneLine (opening name ++ front ++ breakLines (closing name ++ '\n' :: opening name) markup ++ closing name)
      (w ++ shown) := by
  induction h generalizing front w with
  | nil =>
    have whole := before.wrap named single
    simpa [breakLines, Markup.element] using whole
  | @char c markup shown plain _ ih =>
    by_cases newline : c = '\n'
    · -- The line so far is an element; the next one begins behind the line end.
      subst newline
      have next := Nests.char plain (ih .nil (by simp [OneLine]))
      have whole := (before.wrap named single).append next
      rw [show '\n' :: markup = ['\n'] ++ markup from rfl, breakLines_append]
      simpa [breakLines, Markup.element] using whole
    · have longer : OneLine (front ++ [c]) := by simpa [OneLine, Ne.symm newline] using single
      simpa [breakLines, newline] using ih (before.append (.char plain .nil)) longer
  | @element name' inner x markup shown named' inside fit _ _ ih =>
    have inner_ := oneLine_element named' fit
    have longer : OneLine (front ++ Markup.element name' inner) := by
      simp only [OneLine, List.mem_append, not_or] at single inner_ ⊢
      exact ⟨single, inner_⟩
    have whole := ih (before.append (inside.wrap named' fit)) longer
    rw [breakLines_append, breakLines_of_not_mem inner_]
    simpa using whole

/-- A token's tag around markup, on each line. -/
theorem Nests.tagBlock {kind : Kind} {block : String} (h : Nests OneLine block.toList shown) (named : WellNamed kind) :
    Nests OneLine (tagBlock kind block true).toList shown := by
  have whole := h.broken named .nil (by simp [OneLine])
  rw [toList_tagBlock, toList_openTag, toList_closeTag]
  simpa using whole

end Lines

end Gloss.Markup

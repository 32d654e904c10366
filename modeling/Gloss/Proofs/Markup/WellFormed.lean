import Gloss.Proofs.Markup.Nested
import Gloss.Proofs.Markup.Telling

/-!
Markup that is put together from whole pieces: characters, entities and tags. Taking the tags out and reading the
entities back happens piece by piece then, so nothing can form across the place where two of them meet, and tags may be
put around such markup, on each of its lines too, without changing what it shows.
-/
namespace Gloss.Markup

/-- What stands between the ampersand and the semicolon of an entity. -/
def entityNames : List (List Char) := [['a', 'm', 'p'], ['l', 't'], ['g', 't']]

/-- Markup of characters that it does not use itself, of entities and of tags whose names are fit. The name of a closing
tag begins with the slash. -/
inductive Formed (Fit : List Char → Prop) : List Char → Prop where
  | nil : Formed Fit []
  | char {c : Char} {markup : List Char} (plain : c ≠ '&' ∧ c ≠ '<' ∧ c ≠ '>') (more : Formed Fit markup) :
      Formed Fit (c :: markup)
  | entity (name : List Char) {markup : List Char} (known : name ∈ entityNames) (more : Formed Fit markup) :
      Formed Fit ('&' :: (name ++ [';']) ++ markup)
  | tag (name : List Char) {markup : List Char} (free : '<' ∉ name ∧ '>' ∉ name) (fit : Fit name)
      (more : Formed Fit markup) : Formed Fit (opening name ++ markup)

/-- Markup with any names in its tags. -/
def WellFormed (markup : List Char) : Prop := Formed (fun _ => True) markup

/-- Markup in which every tag that is opened is closed in its turn. -/
inductive WellNested : List Char → Prop where
  | nil : WellNested []
  | char {c : Char} {markup : List Char} (plain : c ≠ '<' ∧ c ≠ '>') (more : WellNested markup) :
      WellNested (c :: markup)
  | element {name inner markup : List Char} (free : '<' ∉ name ∧ '>' ∉ name) (inside : WellNested inner)
      (more : WellNested markup) : WellNested (element name inner ++ markup)

section Pieces

variable {c : Char} {a b v name sep : List Char}

theorem telling_char (plain : c ≠ '&' ∧ c ≠ '<' ∧ c ≠ '>') : Telling [c] [c] := by
  intro rest
  have kept : dropTags false ([c] ++ rest) = c :: dropTags false rest := by simp [dropTags, plain.2.1]
  rw [Markup.stripChars, kept, unescapeChars_cons plain.1]
  rfl

theorem telling_entity (known : name ∈ entityNames) : ∃ d, Telling ('&' :: (name ++ [';'])) [d] := by
  simp only [entityNames, List.mem_cons, List.not_mem_nil, or_false] at known
  rcases known with rfl | rfl | rfl
  · exact ⟨'&', fun rest => by simp [Markup.stripChars, dropTags, unescapeChars]⟩
  · exact ⟨'<', fun rest => by simp [Markup.stripChars, dropTags, unescapeChars]⟩
  · exact ⟨'>', fun rest => by simp [Markup.stripChars, dropTags, unescapeChars]⟩

/-- A tag shows nothing, up to its own closing bracket. -/
theorem telling_opening (closed : '>' ∉ name) : Telling (opening name) [] := by
  intro rest
  have inside : dropTags true (name ++ '>' :: rest) = dropTags false rest := by
    induction name with
    | nil => simp [dropTags]
    | cons d name ih =>
      simp only [List.mem_cons, not_or] at closed
      have other : (d != '>') = true := by simpa using fun eq => closed.1 eq.symm
      simpa [dropTags, other] using ih closed.2
  have whole : dropTags false (opening name ++ rest) = dropTags true (name ++ '>' :: rest) := by
    simp [opening, dropTags]
  rw [Markup.stripChars, whole, inside]
  rfl

theorem telling_closing (closed : '>' ∉ name) : Telling (closing name) [] :=
  telling_opening (by simpa using closed)

/-- A piece in front, with line ends broken in it or not. -/
theorem Telling.append_strip (piece : Telling a v) {a' b' : List Char} (front : Telling a' v)
    (more : Telling b' (stripChars b)) : Telling (a' ++ b') (stripChars (a ++ b)) := by
  rw [piece b]
  exact front.append more

theorem strip_of_telling {s : String} (h : Telling s.toList v) : strip s = String.ofList v := by
  rw [strip, h.line.stripChars]

theorem oneLine_entity (known : name ∈ entityNames) : '\n' ∉ '&' :: (name ++ [';']) := by
  revert name
  decide

theorem oneLine_opening (line : OneLine name) : '\n' ∉ opening name := by
  simpa [opening, OneLine] using line

end Pieces

namespace Formed

variable {Fit Fit' : List Char → Prop} {markup a b name sep : List Char}

theorem mono (h : Formed Fit markup) (weaken : ∀ name, Fit name → Fit' name) : Formed Fit' markup := by
  induction h with
  | nil => exact .nil
  | char plain _ ih => exact .char plain ih
  | entity _ known _ ih => exact .entity _ known ih
  | tag _ free fit _ ih => exact .tag _ free (weaken _ fit) ih

theorem wellFormed (h : Formed Fit markup) : WellFormed markup := h.mono fun _ _ => trivial

theorem append (front : Formed Fit a) (back : Formed Fit b) : Formed Fit (a ++ b) := by
  induction front with
  | nil => exact back
  | char plain _ ih => exact .char plain ih
  | entity _ known _ ih =>
    rw [List.append_assoc]
    exact .entity _ known ih
  | tag _ free fit _ ih =>
    rw [List.append_assoc]
    exact .tag _ free fit ih

theorem opening (free : '<' ∉ name ∧ '>' ∉ name) (fit : Fit name) : Formed Fit (opening name) := by
  simpa using Formed.tag name free fit .nil

/-- Text as markup has no tags. -/
theorem escapeChars (text : List Char) : Formed Fit (escapeChars text) := by
  induction text with
  | nil => exact .nil
  | cons c text ih =>
    rw [escapeChars_cons, escapeChar]
    split
    · exact .entity ['a', 'm', 'p'] (by decide) ih
    · split
      · exact .entity ['l', 't'] (by decide) ih
      · split
        · exact .entity ['g', 't'] (by decide) ih
        · exact .char ⟨‹_›, ‹_›, ‹_›⟩ ih

/-- Well-formed markup shows the same whatever follows. -/
theorem telling (h : Formed Fit markup) : Telling markup (stripChars markup) := by
  induction h with
  | nil => exact .nil
  | char plain _ ih => exact (telling_char plain).append_strip (telling_char plain) ih
  | entity _ known _ ih =>
    obtain ⟨d, piece⟩ := telling_entity known
    exact piece.append_strip piece ih
  | tag _ free _ _ ih => exact (telling_opening free.2).append_strip (telling_opening free.2) ih

/-- Other markup may stand for the line ends if no tag goes on over one. -/
theorem breakLines (h : Formed OneLine markup) (sepFormed : Formed OneLine sep) :
    Formed OneLine (breakLines sep markup) := by
  induction h with
  | nil => exact .nil
  | @char c markup plain _ ih =>
    by_cases newline : c = '\n'
    · simpa [Markup.breakLines, newline] using sepFormed.append ih
    · simpa [Markup.breakLines, newline] using Formed.char plain ih
  | entity _ known _ ih =>
    rw [breakLines_append, breakLines_of_not_mem (oneLine_entity known)]
    exact .entity _ known ih
  | tag _ free line _ ih =>
    rw [breakLines_append, breakLines_of_not_mem (oneLine_opening line)]
    exact .tag _ free line ih

/-- If that markup shows a line end, the whole shows the same. -/
theorem telling_breakLines (h : Formed OneLine markup) (breaks : Telling sep ['\n']) :
    Telling (Markup.breakLines sep markup) (stripChars markup) := by
  induction h with
  | nil => exact .nil
  | @char c markup plain _ ih =>
    by_cases newline : c = '\n'
    · subst newline
      simpa [Markup.breakLines] using (telling_char plain).append_strip breaks ih
    · simpa [Markup.breakLines, newline] using (telling_char plain).append_strip (telling_char plain) ih
  | entity _ known _ ih =>
    obtain ⟨d, piece⟩ := telling_entity known
    rw [breakLines_append, breakLines_of_not_mem (oneLine_entity known)]
    exact piece.append_strip piece ih
  | tag _ free line _ ih =>
    have piece := telling_opening free.2
    rw [breakLines_append, breakLines_of_not_mem (oneLine_opening line)]
    exact piece.append_strip piece ih

end Formed

section TagBlock

variable {kind : Kind} {block : String}

/-- A closing tag, a line end and an opening tag show the line end. -/
theorem telling_break {name : List Char} (closed : '>' ∉ name) :
    Telling (closing name ++ '\n' :: opening name) ['\n'] :=
  (telling_closing closed).append ((telling_char (by decide)).append (telling_opening closed))

/-- Tags around markup show the same. -/
theorem telling_tagBlock (closed : '>' ∉ kind.name.toList) (h : Formed OneLine block.toList) (split : Bool) :
    Telling (tagBlock kind block split).toList (stripChars block.toList) := by
  have wrap {inner : List Char} (inside : Telling inner (stripChars block.toList)) :
      Telling (opening kind.name.toList ++ inner ++ closing kind.name.toList) (stripChars block.toList) := by
    simpa using ((telling_opening closed).append inside).append (telling_closing closed)
  cases split with
  | false =>
    rw [toList_block]
    exact wrap h.telling
  | true =>
    rw [toList_tagBlock, toList_openTag, toList_closeTag]
    exact wrap (h.telling_breakLines (telling_break closed))

theorem free_of_wellNamed (named : WellNamed kind) : '<' ∉ kind.name.toList ∧ '>' ∉ kind.name.toList :=
  ⟨not_mem_of_isNameChar named (by decide), not_mem_of_isNameChar named (by decide)⟩

theorem formed_tagBlock (named : WellNamed kind) (h : Formed OneLine block.toList) (split : Bool) :
    Formed OneLine (tagBlock kind block split).toList := by
  have free := free_of_wellNamed named
  have line : OneLine kind.name.toList := newline_not_mem_name named
  have open_ : Formed OneLine (opening kind.name.toList) := .opening free line
  have slashed : OneLine ('/' :: kind.name.toList) := by simpa [OneLine] using line
  have close : Formed OneLine (closing kind.name.toList) := .opening (by simpa using free) slashed
  cases split with
  | false =>
    rw [toList_block]
    exact (open_.append h).append close
  | true =>
    rw [toList_tagBlock, toList_openTag, toList_closeTag]
    exact (open_.append (h.breakLines (close.append (.char (by decide) open_)))).append close

theorem intercalate_elements (name : List Char) {lines : List (List Char)} (some_ : lines ≠ []) :
    ['\n'].intercalate (lines.map (element name)) =
      opening name ++ (closing name ++ '\n' :: opening name).intercalate lines ++ closing name := by
  induction lines with
  | nil => exact absurd rfl some_
  | cons line lines ih =>
    cases lines with
    | nil => simp [element]
    | cons next lines =>
      have more := ih (by simp)
      rw [List.map_cons] at more
      rw [List.map_cons, List.map_cons, List.intercalate_cons_cons, more, List.intercalate_cons_cons]
      simp [element]

/-- With a split, each line of the output is a line of the markup in its own tags. -/
theorem splitLines_tagBlock (line : OneLine kind.name.toList) (block : String) :
    Text.splitLines (tagBlock kind block true).toList =
      (Text.splitLines block.toList).map (element kind.name.toList) := by
  have whole : (tagBlock kind block true).toList =
      ['\n'].intercalate ((Text.splitLines block.toList).map (element kind.name.toList)) := by
    rw [intercalate_elements _ (splitLines_ne_nil _), toList_tagBlock, toList_openTag, toList_closeTag,
      intercalate_splitLines]
  rw [whole]
  refine splitLines_intercalate (by simpa using splitLines_ne_nil _) fun l member => ?_
  obtain ⟨inner, inside, rfl⟩ := List.mem_map.mp member
  have single := oneLine_of_mem_splitLines inside
  simp only [OneLine] at line single ⊢
  simp [element, opening, closing, line, single]

theorem wellNested_lines (named : WellNamed kind) (lines : ∀ l ∈ Text.splitLines block.toList, WellNested l) :
    ∀ l ∈ Text.splitLines (tagBlock kind block true).toList, WellNested l := by
  intro l member
  rw [splitLines_tagBlock (newline_not_mem_name named)] at member
  obtain ⟨inner, inside, rfl⟩ := List.mem_map.mp member
  simpa using WellNested.element (free_of_wellNamed named) (lines inner inside) .nil

end TagBlock

end Gloss.Markup

import Gloss.Proofs.Markup.Nested
import Gloss.Proofs.Pattern.Finds

/-!
Replacing matches in markup. The matches in a text follow each other, so the text is a sequence of stretches
between matches and of matches. If markup can be cut at the ends of the matches and each match is replaced by
markup that shows the same, then so does the whole. If no match is empty, none begins in the stretches either.
-/
namespace Gloss

open Text (Spot Source)

/-- Matches one after another from a spot on, each with the spot behind it. -/
inductive Pattern.Tiles (p : Pattern) : Spot → List (Match × Spot) → Prop where
  | nil {s : Spot} : Tiles p s []
  | cons {s o t : Spot} {w : List Char} {marks : Regex.Marks} {more : List (Match × Spot)}
      (reads : Spot.Reads s w o) (covers : p.Covers o t marks) (rest : Tiles p t more) :
      Tiles p s ((p.toMatch ⟨o.pos, t, marks⟩, t) :: more)

/-- All matches from a spot on: each is the first one behind the one before it, and behind the last one there is none. -/
inductive Pattern.Sweeps (p : Pattern) : Spot → List (Match × Spot) → Prop where
  | nil {s : Spot} (none_ : ∀ u w, Spot.Reads s w u → ¬ p.Starts u) : Sweeps p s []
  | cons {s o t : Spot} {w : List Char} {marks : Regex.Marks} {more : List (Match × Spot)} (reads : Spot.Reads s w o)
      (before : ∀ u v, Spot.Reads s v u → u.pos < o.pos → ¬ p.Starts u) (covers : p.Covers o t marks)
      (rest : Sweeps p t more) : Sweeps p s ((p.toMatch ⟨o.pos, t, marks⟩, t) :: more)

namespace Pattern

variable {p : Pattern} {s t : Spot}

theorem Covers.reads {marks : Regex.Marks} (h : p.Covers s t marks) : ∃ w, Spot.Reads s w t :=
  Regex.Matches.reads h

theorem matchesFrom_tiles (p : Pattern) (fuel : Nat) (lastStop : Option Nat) (s : Spot) :
    p.Tiles s (p.matchesFrom fuel lastStop s) := by
  induction fuel generalizing lastStop s with
  | zero => exact .nil
  | succ fuel ih =>
    simp only [matchesFrom]
    split
    · exact .nil
    · next m behind found =>
      obtain ⟨o, w, marks, reads, reports, rfl, _⟩ := findSpot?_some found
      split
      · split
        · exact .nil
        · next m' behind' found' =>
          -- The empty match is passed over: the next one starts behind one more character.
          simp only [Option.bind_eq_some_iff, pastNext?] at found'
          obtain ⟨next, step, found'⟩ := found'
          split at step
          · cases step
          · next c rest text =>
            cases step
            obtain ⟨o', w', marks', reads', reports', rfl, _⟩ := findSpot?_some found'
            exact .cons ((Spot.Reads.step text).trans reads') reports'.covers (ih _ _)
      · exact .cons reads reports.covers (ih _ _)

theorem matches_tiles (p : Pattern) (text : String) :
    p.Tiles (Spot.start text.toList) (p.matches_ text) :=
  matchesFrom_tiles p _ _ _

theorem matchesFrom_sweeps (consumes : p.parsed.regex.consumes) {fuel : Nat} (lastStop : Option Nat)
    (enough : s.rest.length < fuel) : p.Sweeps s (p.matchesFrom fuel lastStop s) := by
  induction fuel generalizing lastStop s with
  | zero => omega
  | succ fuel ih =>
    simp only [matchesFrom]
    split
    · next none_ => exact .nil (findSpot?_none.mp none_)
    · next m behind found =>
      obtain ⟨o, w, marks, reads, reports, rfl, before⟩ := findSpot?_some found
      have some_ : o.pos < behind.pos := Regex.Matches.consumes consumes reports.covers
      have filled : (p.toMatch ⟨o.pos, behind, marks⟩).span.isEmpty = false := by
        have size : behind.pos - o.pos ≠ 0 := by omega
        simpa [toMatch, Span.isEmpty, Span.size] using size
      obtain ⟨v, matched⟩ := reports.covers.reads
      have shorter : behind.rest.length < s.rest.length :=
        Nat.lt_of_lt_of_le (matched.length_lt some_) reads.length_le
      rw [filled, Bool.false_and, if_neg Bool.false_ne_true]
      exact .cons reads before reports.covers (ih _ (by omega))

/-- Nothing is left out between the matches of a pattern that consumes something. -/
theorem matches_sweeps (consumes : p.parsed.regex.consumes) (text : String) :
    p.Sweeps (Spot.start text.toList) (p.matches_ text) :=
  matchesFrom_sweeps consumes none (by rw [Spot.start_rest]; omega)

/-- At no place in front of the end of the first part of a text does what follows begin so. -/
def Never (Begins : List Char → Prop) (w rest : List Char) : Prop :=
  ∀ front behind, w = front ++ behind → behind ≠ [] → ¬ Begins (behind ++ rest)

section Never

variable {Begins : List Char → Prop} {v w rest : List Char}

theorem Never.here {c : Char} (h : Never Begins (c :: w) rest) : ¬ Begins (c :: (w ++ rest)) :=
  h [] (c :: w) rfl (by simp)

theorem Never.behind (h : Never Begins (v ++ w) rest) : Never Begins w rest := by
  intro front behind eq
  exact h (v ++ front) behind (by rw [eq, List.append_assoc])

theorem Never.of_before (starts : ∀ u : Spot, Begins u.rest → p.Starts u) {o : Spot} (reads : Spot.Reads s w o)
    (before : ∀ u v, Spot.Reads s v u → u.pos < o.pos → ¬ p.Starts u) : Never Begins w o.rest := by
  rintro front behind rfl some_ begins
  obtain ⟨u, first, second⟩ := reads.split
  have less : u.pos < o.pos := by
    have size := second.pos
    have := mt Text.byteSize_eq_zero.mp some_
    omega
  rw [← second.rest] at begins
  exact before u front first less (starts u begins)

theorem Never.of_none (starts : ∀ u : Spot, Begins u.rest → p.Starts u)
    (none_ : ∀ u w, Spot.Reads s w u → ¬ p.Starts u) : Never Begins s.rest [] := by
  intro front behind eq _ begins
  obtain ⟨u, reads⟩ : ∃ u, Spot.Reads s front u := ⟨_, .of_rest eq⟩
  have rest := List.append_cancel_left (reads.rest.symm.trans eq)
  rw [List.append_nil, ← rest] at begins
  exact none_ u front reads (starts u begins)

end Never

theorem replaceFrom_cons {o : Spot} {w : List Char} {marks : Regex.Marks} {more : List (Match × Spot)}
    {replacement : Match → String} (reads : Spot.Reads s w o) :
    replaceFrom replacement s ((p.toMatch ⟨o.pos, t, marks⟩, t) :: more) =
      w ++ (replacement (p.toMatch ⟨o.pos, t, marks⟩)).toList ++ replaceFrom replacement t more := by
  have skipped : Text.takeBytes (o.pos - s.pos) s.rest = w := by
    have size : o.pos - s.pos = Text.byteSize w := by
      have := reads.pos
      omega
    rw [size, reads.rest, Text.takeBytes_append]
  have start : (p.toMatch ⟨o.pos, t, marks⟩).start = o.pos := rfl
  rw [replaceFrom, start, skipped]

/-- Markup of a text can be cut at the ends of all matches. The relation says what the parts show. -/
def Cuts (p : Pattern) (R : List Char → List Char → Prop) (text : List Char) : Prop :=
  ∀ {s o t : Spot} {w v shown : List Char} {marks : Regex.Marks}, s.In text → Spot.Reads s w o →
    p.Covers o t marks → Spot.Reads o v t → R s.rest shown →
    ∃ x y z, shown = x ++ y ++ z ∧ R w x ∧ R v y ∧ R t.rest z

section Relations

variable {R S : List Char → List Char → Prop} (joins : ∀ {a b x y}, S a x → S b y → S (a ++ b) (x ++ y))
  (weaken : ∀ {a x}, R a x → S a x)

include joins weaken

/-- Replacing each match by markup that shows the same does not change what a text shows. -/
theorem Tiles.replaceFrom_keeps {text shown : List Char} {ms : List (Match × Spot)} {replacement : Match → String}
    (tiles : p.Tiles s ms) (cuts : p.Cuts R text)
    (each : ∀ {o t : Spot} {v y : List Char} {marks : Regex.Marks}, o.In text → p.Covers o t marks →
      Spot.Reads o v t → R v y → S (replacement (p.toMatch ⟨o.pos, t, marks⟩)).toList y)
    (inside : s.In text) (shows : R s.rest shown) : S (replaceFrom replacement s ms) shown := by
  induction tiles generalizing shown with
  | nil => exact weaken shows
  | @cons s o t w marks more reads covers rest ih =>
    obtain ⟨v, readsMatch⟩ := covers.reads
    obtain ⟨x, y, z, rfl, before, matched, after⟩ := cuts inside reads covers readsMatch shows
    rw [replaceFrom_cons reads]
    have insideMatch := inside.reads reads
    exact joins (joins (weaken before) (each insideMatch covers readsMatch matched))
      (ih (insideMatch.reads readsMatch) after)

theorem replaceWith_keeps {text : String} {shown : List Char} {replacement : Match → String}
    (cuts : p.Cuts R text.toList)
    (each : ∀ {o t : Spot} {v y : List Char} {marks : Regex.Marks}, o.In text.toList → p.Covers o t marks →
      Spot.Reads o v t → R v y → S (replacement (p.toMatch ⟨o.pos, t, marks⟩)).toList y)
    (shows : R text.toList shown) : S (p.replaceWith text replacement).toList shown := by
  rw [replaceWith, String.toList_ofList]
  exact Tiles.replaceFrom_keeps (R := R) (S := S) joins weaken (matches_tiles p text) cuts each (Spot.In.start _) shows

end Relations

/-- Nested text without tags can be cut anywhere. -/
theorem cuts_of_plain {Fit : List Char → Prop} {text : List Char} (plain : '<' ∉ text) :
    p.Cuts (Markup.Nests Fit) text := by
  intro s o t w v shown marks inside reads covers readsMatch nests
  obtain ⟨u, whole⟩ := inside
  have rest : s.rest = w ++ (v ++ t.rest) := by rw [reads.rest, readsMatch.rest]
  have absent : '<' ∉ w ++ (v ++ t.rest) := by
    intro member
    refine plain ?_
    have text : text = u ++ s.rest := whole.rest
    rw [text, rest]
    exact List.mem_append_right _ member
  rw [rest] at nests
  simp only [List.mem_append, not_or] at absent
  obtain ⟨y, rfl, before, more⟩ := nests.cut_plain absent.1
  obtain ⟨z, rfl, matched, after⟩ := more.cut_plain absent.2.1
  exact ⟨w, v, z, by simp, before, matched, after⟩

/-- A pattern whose matches begin with a character that stands in no tag, and end with one or do not open a
tag at all. -/
structure Clean (p : Pattern) : Prop where
  head : ∀ {o t : Spot} {v : List Char} {marks : Regex.Marks}, p.Covers o t marks → Spot.Reads o v t →
    ∃ c rest, v = c :: rest ∧ Markup.isOutside c
  last : ∀ {o t : Spot} {v : List Char} {marks : Regex.Marks}, p.Covers o t marks → Spot.Reads o v t →
    '<' ∉ v ∨ ∃ front c, v = front ++ [c] ∧ Markup.isOutside c

theorem Clean.cuts (clean : p.Clean) (text : List Char) : p.Cuts Markup.Shows text := by
  intro s o t w v shown marks inside reads covers readsMatch shows
  obtain ⟨c, rest, first, outside⟩ := clean.head covers readsMatch
  rw [reads.rest, readsMatch.rest, first, List.cons_append] at shows
  obtain ⟨x, y, rfl, before, onward⟩ := shows.cut_before outside
  rw [← List.cons_append, ← first] at onward
  rcases clean.last covers readsMatch with plain | ⟨front, d, eq, outside⟩
  · obtain ⟨z, rfl, after⟩ := onward.cut_plain plain
    exact ⟨x, v, z, by simp, before, .of_plain plain, after⟩
  · rw [eq, List.append_assoc, List.singleton_append] at onward
    obtain ⟨y', z, rfl, matched, after⟩ := onward.cut_after outside
    exact ⟨x, y', z, by simp, before, eq ▸ matched, after⟩

/-- The text of a match is what lies between its spots. -/
theorem text_toMatch {text : String} {o : Spot} {v : List Char} {marks : Regex.Marks}
    (inside : o.In text.toList) (reads : Spot.Reads o v t) :
    (p.toMatch ⟨o.pos, t, marks⟩).groupText (Source.ofString text) 0 = String.ofList v := by
  have cut : (Source.ofString text).cut? o.pos t.pos = _ := Source.cut?_reads inside reads
  simp only [Match.groupText, Match.group?, toMatch]
  rw [cut, Option.getD_some]

end Pattern

namespace Replacement

/-- Text without a dollar sign stands for itself. -/
theorem partsFrom_plain {front rest : List Char} {fuel : Nat} (plain : '$' ∉ front) :
    partsFrom (front.length + fuel) (front ++ rest) =
      front.map (fun c => .text [c]) ++ partsFrom fuel rest := by
  induction front with
  | nil => simp
  | cons c front ih =>
    simp only [List.mem_cons, not_or] at plain
    have other : c ≠ '$' := fun eq => plain.1 eq.symm
    have fuels : (c :: front).length + fuel = (front.length + fuel) + 1 := by
      simp only [List.length_cons]
      omega
    rw [fuels, List.cons_append, partsFrom]
    · rw [ih plain.2]
      rfl
    · intro rest' eq
      exact absurd eq other
    · intro eq
      exact absurd eq other

theorem expand_append (a b : Replacement) (p : Pattern) (src : Source) (m : Match) :
    (expand (a ++ b) p src m).toList = (expand a p src m).toList ++ (expand b p src m).toList := by
  simp [expand, String.toList_join]

theorem expand_texts (s : List Char) (p : Pattern) (src : Source) (m : Match) :
    (expand (s.map fun c => .text [c]) p src m).toList = s := by
  induction s with
  | nil => rfl
  | cons c s ih =>
    have first : (expand [.text [c]] p src m).toList = [c] := by simp [expand]
    rw [List.map_cons, ← List.singleton_append, expand_append, first, ih, List.singleton_append]

theorem expand_whole (p : Pattern) (src : Source) (m : Match) :
    expand [.group ['0']] p src m = m.groupText src 0 := by
  have index : groupIndex? p ['0'] = some 0 := rfl
  simp [expand, index]

/-- Expanding the replacement with the whole match in a tag. -/
theorem expand_tag {kind : Kind} (named : Markup.WellNamed kind) (p : Pattern) (src : Source) (m : Match) :
    (expand (ofString (Markup.openTag kind.name ++ "$\x7b0\x7d" ++ Markup.closeTag kind.name)) p src m).toList =
      (Markup.openTag kind.name).toList ++ (m.groupText src 0).toList ++
        (Markup.closeTag kind.name).toList := by
  have plainOf : ∀ c, Markup.isNameChar c → c ≠ '$' := by
    rintro c tag rfl
    revert tag
    decide
  have plainOpen : '$' ∉ (Markup.openTag kind.name).toList := by
    simp only [Markup.openTag, String.toList_append, List.mem_append, not_or]
    exact ⟨⟨by decide, fun member => plainOf _ (named _ member) rfl⟩, by decide⟩
  have plainClose : '$' ∉ (Markup.closeTag kind.name).toList := by
    simp only [Markup.closeTag, String.toList_append, List.mem_append, not_or]
    exact ⟨⟨by decide, fun member => plainOf _ (named _ member) rfl⟩, by decide⟩
  have group : ∀ (fuel : Nat) (rest : List Char),
      partsFrom (fuel + 1) ("$\x7b0\x7d".toList ++ rest) = .group ['0'] :: partsFrom fuel rest := by
    intro fuel rest
    rfl
  have parts : ofString (Markup.openTag kind.name ++ "$\x7b0\x7d" ++ Markup.closeTag kind.name) =
      (Markup.openTag kind.name).toList.map (fun c => .text [c]) ++
        ([.group ['0']] ++ (Markup.closeTag kind.name).toList.map (fun c => .text [c])) := by
    simp only [ofString, String.toList_append, List.length_append, List.append_assoc]
    have fuels : (Markup.openTag kind.name).toList.length + ("$\x7b0\x7d".toList.length +
        (Markup.closeTag kind.name).toList.length) =
        (Markup.openTag kind.name).toList.length +
          (((Markup.closeTag kind.name).toList.length + 3) + 1) := by
      have : "$\x7b0\x7d".toList.length = 4 := rfl
      omega
    rw [fuels, partsFrom_plain plainOpen, group]
    have last : partsFrom ((Markup.closeTag kind.name).toList.length + 3) ((Markup.closeTag kind.name).toList ++ []) = _ :=
      partsFrom_plain plainClose
    rw [List.append_nil] at last
    rw [last]
    simp [partsFrom]
  rw [parts, expand_append, expand_append, expand_texts, expand_texts, expand_whole, List.append_assoc]

end Replacement

namespace Markup

variable {p : Pattern} {text : String} {kind : Kind} {shown : List Char}

/-- The markup that a match is replaced by when matches are marked. -/
theorem toList_tagged {o t : Spot} {v : List Char} {marks : Regex.Marks} (named : WellNamed kind)
    (inside : o.In text.toList) (reads : Spot.Reads o v t) :
    (Replacement.expand (.ofString (openTag kind.name ++ "$\x7b0\x7d" ++ closeTag kind.name)) p (Source.ofString text)
      (p.toMatch ⟨o.pos, t, marks⟩)).toList = (openTag kind.name).toList ++ v ++ (closeTag kind.name).toList := by
  rw [Replacement.expand_tag named, Pattern.text_toMatch inside reads, String.toList_ofList]

/-- Where matches are marked there is a first one, and nothing changes in front of it. -/
theorem tagMatches_cases (p : Pattern) (text : String) (named : WellNamed kind) : tagMatches p text kind = text ∨
    ∃ front o t v marks more, Spot.Reads (.start text.toList) front o ∧ p.Covers o t marks ∧ Spot.Reads o v t ∧
      (tagMatches p text kind).toList = front ++ (openTag kind.name).toList ++ v ++ more := by
  have tiles := p.matches_tiles text
  have whole : (tagMatches p text kind).toList = Pattern.replaceFrom (Replacement.expand
      (.ofString (openTag kind.name ++ "$\x7b0\x7d" ++ closeTag kind.name)) p (Source.ofString text))
      (.start text.toList) (p.matches_ text) := String.toList_ofList
  generalize p.matches_ text = ms at tiles whole
  cases tiles with
  | nil => exact .inl (String.toList_injective whole)
  | cons reads covers rest =>
    obtain ⟨v, matched⟩ := covers.reads
    rw [Pattern.replaceFrom_cons reads, toList_tagged named ⟨_, reads⟩ matched] at whole
    exact .inr ⟨_, _, _, v, _, _, reads, covers, matched, by rw [whole]; simp only [List.append_assoc]; rfl⟩

/-- Marking matches is an induction from the back: behind the last match there is none, and in front of each match the
text in which none begins stays as it is. -/
theorem tagMatches_induction {B : List Char → Prop} {P : List Char → List Char → Prop}
    (consumes : p.parsed.regex.consumes) (named : WellNamed kind) (starts : ∀ s : Spot, B s.rest → p.Starts s)
    (last : ∀ rest, Pattern.Never B rest [] → P rest rest)
    (step : ∀ {o t : Spot} {w v marked : List Char} {marks : Regex.Marks}, Pattern.Never B w (v ++ t.rest) →
      p.Covers o t marks → Spot.Reads o v t → P t.rest marked →
      P (w ++ (v ++ t.rest)) (w ++ ((openTag kind.name).toList ++ v ++ (closeTag kind.name).toList ++ marked)))
    (text : String) : P text.toList (tagMatches p text kind).toList := by
  have sweeps := p.matches_sweeps consumes text
  have inside := Spot.In.start text.toList
  rw [tagMatches, Pattern.replaceAll, Pattern.replaceWith, String.toList_ofList]
  show P (Spot.start text.toList).rest _
  generalize p.matches_ text = ms at sweeps
  generalize Spot.start text.toList = s at sweeps inside
  induction sweeps with
  | nil none_ => exact last _ (.of_none starts none_)
  | @cons s o t w marks more reads before covers _ ih =>
    obtain ⟨v, matched⟩ := covers.reads
    have insideMatch := inside.reads reads
    have never := Pattern.Never.of_before starts reads before
    rw [matched.rest] at never
    rw [Pattern.replaceFrom_cons reads, toList_tagged named insideMatch matched, List.append_assoc w, reads.rest,
      matched.rest]
    exact step never covers matched (ih (insideMatch.reads matched))

/-- Marking matches does not change what markup shows, where it can be cut at their ends. -/
theorem tagMatches_shows (named : WellNamed kind) (cuts : p.Cuts Shows text.toList) (shows : Shows text.toList shown) :
    Shows (tagMatches p text kind).toList shown := by
  refine Pattern.replaceWith_keeps (R := Shows) (S := Shows) .append id cuts ?_ shows
  intro o t v y marks inside covers reads matched
  rw [toList_tagged named inside reads]
  exact matched.wrap (shows_openTag named) (shows_closeTag named)

/-- Marking matches leaves markup nested, where it can be cut at their ends and they are fit for elements. -/
theorem tagMatches_nests {R : List Char → List Char → Prop} {Fit : List Char → Prop} (named : WellNamed kind)
    (nests : ∀ {a x}, R a x → Nests Fit a x) (cuts : p.Cuts R text.toList)
    (fit : ∀ {o t : Spot} {v y : List Char} {marks : Regex.Marks}, o.In text.toList → p.Covers o t marks →
      Spot.Reads o v t → R v y → Fit v) (h : R text.toList shown) :
    Nests Fit (tagMatches p text kind).toList shown := by
  refine Pattern.replaceWith_keeps (R := R) (S := Nests Fit) .append nests cuts ?_ h
  intro o t v y marks inside covers reads matched
  rw [toList_tagged named inside reads, toList_openTag, toList_closeTag]
  exact (nests matched).wrap named (fit inside covers reads matched)

end Markup

end Gloss

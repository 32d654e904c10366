import Gloss.Proofs.Regex.Words
import Gloss.Regex.Parser

/-!
Reading a pattern that holds a word of the source. None of the characters of a word has a meaning of its own, so
the word is read as a text; whether the pattern is refused depends on the length of the word alone.
-/
namespace Gloss.Regex

/-- No character of the text has a meaning of its own in a pattern. -/
def Literal (chars : List Char) : Prop := ∀ c ∈ chars, isMeta c = false

/-- Has no text that the expression matches a character with a meaning of its own? -/
def isLiteral (r : Regex) : Bool := "\\.+*?()|[]\x7b\x7d^$#&-~".toList.all r.avoids

theorem Matches.literal {r : Regex} {s t : Text.Spot} {m mt : Marks} {w : List Char} (h : r.Matches s m t mt)
    (literal : r.isLiteral) (reads : Text.Spot.Reads s w t) : Literal w := by
  intro c member
  cases special : isMeta c with
  | false => rfl
  | true =>
    simp only [isMeta, List.contains_eq_mem, decide_eq_true_eq] at special
    obtain ⟨w', reads', absent⟩ := h.avoids (List.all_eq_true.mp literal c special)
    obtain rfl := reads.word_eq reads'
    exact absurd member absent

theorem quote_of_literal {chars : List Char} (literal : Literal chars) :
    quote (String.ofList chars) = String.ofList chars := by
  unfold quote
  rw [String.toList_ofList]
  congr 1
  induction chars with
  | nil => rfl
  | cons c chars ih =>
    have plain := literal c List.mem_cons_self
    have rest := ih fun d member => literal d (List.mem_cons_of_mem _ member)
    rw [List.flatMap_cons, rest, plain]
    rfl

theorem ofSet_single (c : Char) : ofSet (.single c) = .text [c] := by
  simp [ofSet, CharSet.only?, CharSet.single, CharSet.range]

namespace Reading

/-- A character without a meaning of its own is read as itself. -/
theorem step_of_plain {s : Reading} {c : Char} (plain : isMeta c = false) (rest : List Char) :
    s.step c rest = .ok (s.pushChar c, rest) := by
  unfold step
  split <;> first | rfl | exact absurd plain (by decide)

/-- The items of a word, latest first. -/
def letters (chars : List Char) : List (Option Piece) := chars.reverse.map fun c => some ⟨.text [c], 0⟩

theorem run_of_literal {chars rest : List Char} (literal : Literal chars) (fuel : Nat) (s : Reading)
    (cased : s.flags.caseless = false) :
    run (chars.length + fuel) s (chars ++ rest) = run fuel { s with items := letters chars ++ s.items } rest := by
  induction chars generalizing s with
  | nil => simp [letters]
  | cons c chars ih =>
    have plain := literal c List.mem_cons_self
    have fuels : (c :: chars).length + fuel = (chars.length + fuel) + 1 := by
      simp only [List.length_cons]
      omega
    have pushed : s.pushChar c = { s with items := some ⟨.text [c], 0⟩ :: s.items } := by
      simp [pushChar, push, foldCase, cased, ofSet_single]
    have more := ih (fun d member => literal d (List.mem_cons_of_mem _ member))
      { s with items := some ⟨.text [c], 0⟩ :: s.items } cased
    rw [fuels, List.cons_append, run, step_of_plain plain, pushed]
    refine Eq.trans more ?_
    simp [letters]

end Reading

/-- Letters next to each other are one text. -/
theorem joinTexts_letters {chars : List Char} (some_ : chars ≠ []) {rest : List Regex}
    (ends : ∀ b more, joinTexts rest ≠ .text b :: more) :
    joinTexts (chars.map (fun c => .text [c]) ++ rest) = .text chars :: joinTexts rest := by
  induction chars with
  | nil => exact absurd rfl some_
  | cons c chars ih =>
    cases chars with
    | nil =>
      rw [List.map_cons, List.map_nil, List.cons_append, List.nil_append, joinTexts]
      split
      · next b more eq => exact absurd eq (ends b more)
      · rfl
    | cons d chars =>
      have more := ih (by simp)
      rw [List.map_cons, List.cons_append, joinTexts, more]
      rfl

/-- Pieces that do not nest. -/
theorem combine_flat (f : List Regex → Regex) {count : Nat} (several : 1 < count) {pieces : List Piece}
    (flat : ∀ p ∈ pieces, p.depth = 0) :
    Piece.combine f count pieces = ⟨f (pieces.map (·.regex)), 1⟩ := by
  have deepest : ∀ ps : List Piece, (∀ p ∈ ps, p.depth = 0) → ps.foldl (fun d p => max d p.depth) 0 = 0 := by
    intro ps
    induction ps with
    | nil => exact fun _ => rfl
    | cons p ps ih =>
      intro all
      rw [List.foldl_cons, all p List.mem_cons_self]
      exact ih fun q member => all q (List.mem_cons_of_mem _ member)
  have more : ¬ count ≤ 1 := by omega
  rw [Piece.combine, deepest pieces flat, if_neg more]

/-- The alternative that is read from a word at the start of a line. -/
theorem branch_of_letters {s : Reading} {chars : List Char} (some_ : chars ≠ []) (behind : List Regex)
    (ends : ∀ b more, joinTexts behind ≠ .text b :: more) (single : behind.flatMap parts = behind)
    (items : s.items = behind.reverse.map (fun r => some ⟨r, 0⟩) ++
      (Reading.letters chars ++ [some ⟨.look .lineStart, 0⟩, none])) :
    s.branch = ⟨ofParts (.look .lineStart :: .text chars :: joinTexts behind), 1⟩ := by
  have pieces : s.items.reverse.filterMap id = (.look .lineStart :: (chars.map (fun c => .text [c]) ++ behind)).map
      (fun r => (⟨r, 0⟩ : Piece)) := by
    rw [items]
    simp [Reading.letters, List.filterMap_map, Function.comp_def]
  have many : 1 < s.items.length := by
    rw [items]
    simp
    omega
  have flat : ∀ p ∈ (Regex.look .lineStart :: (chars.map (fun c => .text [c]) ++ behind)).map
      (fun r => (⟨r, 0⟩ : Piece)), p.depth = 0 := by
    intro p member
    obtain ⟨r, _, rfl⟩ := List.mem_map.mp member
    rfl
  rw [Reading.branch, pieces, combine_flat _ many flat]
  congr 1
  have texts : ∀ cs : List Char, (cs.map (fun c => Regex.text [c])).flatMap parts = cs.map (fun c => .text [c]) := by
    intro cs
    induction cs with
    | nil => rfl
    | cons c cs ih =>
      rw [List.map_cons, List.flatMap_cons, ih]
      rfl
  have whole : (Regex.look .lineStart :: (chars.map (fun c => Regex.text [c]) ++ behind)).flatMap parts =
      .look .lineStart :: (chars.map (fun c => .text [c]) ++ behind) := by
    rw [List.flatMap_cons, List.flatMap_append, texts, single]
    rfl
  rw [List.map_map]
  show concat (List.map id _) = _
  rw [List.map_id, concat, whole, joinTexts, joinTexts_letters some_ ends]
  intro a no
  cases no

/-- The reader behind the start of a line. -/
def Reading.atLine : Reading :=
  { flags := { multiline := true }, items := [some ⟨.look .lineStart, 0⟩, none] }

theorem run_lineStart (fuel : Nat) (rest : List Char) :
    Reading.run (fuel + 2) {} ('(' :: '?' :: 'm' :: ')' :: '^' :: rest) = Reading.run fuel .atLine rest := rfl

/-- A word at the start of a line, or the end of the text. -/
def lineWordOrEnd (chars : List Char) : Regex := .alt (.seq (.look .lineStart) (.text chars)) (.look .textEnd)

/-- A word at the start of a line, up to where it ends. -/
def lineWord (chars : List Char) : Regex := .seq (.look .lineStart) (.seq (.text chars) (.look .wordBoundary))

theorem fits_lineWordOrEnd (chars : List Char) :
    Extent.fits (lineWordOrEnd chars) = decide (344 + 32 * Text.byteSize chars ≤ Extent.limit) := by
  simp only [Extent.fits, lineWordOrEnd, Extent.room, Extent.frame, Extent.stateSize, Extent.branchSize]
  rw [Bool.eq_iff_iff]
  simp only [Bool.or_eq_true, Bool.and_eq_true, decide_eq_true_eq]
  omega

theorem fits_lineWord (chars : List Char) :
    Extent.fits (lineWord chars) = decide (272 + 32 * Text.byteSize chars ≤ Extent.limit) := by
  simp only [Extent.fits, lineWord, Extent.room, Extent.frame, Extent.stateSize]
  rw [Bool.eq_iff_iff]
  simp only [Bool.or_eq_true, Bool.and_eq_true, decide_eq_true_eq]
  omega

/-- The reader behind a word at the start of a line. -/
def Reading.pastWord (chars : List Char) : Reading :=
  { Reading.atLine with items := Reading.letters chars ++ Reading.atLine.items }

/-- What a text with a word at the start of a line reads as, by what the reader makes of the rest. -/
theorem parse_of_lineWord {chars : List Char} (literal : Literal chars) (rest : List Char) {s : Reading}
    (read : Reading.run (rest.length + 3) (.pastWord chars) rest = .ok s) (closed : s.outer = [])
    (names : s.names = []) (flat : s.value.depth ≤ depthLimit) {text : String}
    (text_eq : text = "(?m)^" ++ quote (String.ofList chars) ++ String.ofList rest) :
    parse text = if Extent.fits s.value.regex then .ok ⟨s.value.regex, []⟩ else .error .tooLarge := by
  have whole : text.toList = '(' :: '?' :: 'm' :: ')' :: '^' :: (chars ++ rest) := by
    rw [text_eq, quote_of_literal literal]
    simp
  have fuels : ('(' :: '?' :: 'm' :: ')' :: '^' :: (chars ++ rest)).length =
      chars.length + (rest.length + 3) + 2 := by
    simp only [List.length_cons, List.length_append]
    omega
  have word : Reading.run (chars.length + (rest.length + 3)) .atLine (chars ++ rest) = _ :=
    Reading.run_of_literal literal (rest.length + 3) .atLine rfl
  have shallow : ¬ depthLimit < s.value.depth := by omega
  unfold parse
  simp only [whole, fuels, run_lineStart, word]
  simp only [Reading.pastWord] at read
  simp only [read, bind, Except.bind, closed, Piece.checked, if_neg shallow, names]
  by_cases fits : Extent.fits s.value.regex
  · simp [fits]
    rfl
  · simp [fits]

/-- A word at the start of a line or the end of the text: refused for the length of the word alone. -/
theorem parse_lineWordOrEnd {chars : List Char} (literal : Literal chars) (some_ : chars ≠ []) :
    parse ("(?m)^" ++ quote (String.ofList chars) ++ "|\\z") =
      if 344 + 32 * Text.byteSize chars ≤ Extent.limit then .ok ⟨lineWordOrEnd chars, []⟩ else .error .tooLarge := by
  have branch : (Reading.pastWord chars).branch = ⟨.seq (.look .lineStart) (.text chars), 1⟩ :=
    branch_of_letters some_ [] (by simp [joinTexts]) rfl rfl
  have read : Reading.run 6 (.pastWord chars) ['|', '\\', 'z'] = .ok { Reading.pastWord chars with
      branches := [(Reading.pastWord chars).branch], items := [some ⟨.look .textEnd, 0⟩] } := rfl
  have value : Reading.value { Reading.pastWord chars with
      branches := [(Reading.pastWord chars).branch], items := [some ⟨.look .textEnd, 0⟩] } =
      ⟨lineWordOrEnd chars, 2⟩ := by
    rw [branch]
    rfl
  rw [parse_of_lineWord literal ['|', '\\', 'z'] read rfl rfl (by rw [value]; exact Nat.le_of_ble_eq_true rfl) rfl, value,
    fits_lineWordOrEnd]
  simp only [decide_eq_true_eq]

/-- A word at the start of a line, up to where it ends. -/
theorem parse_lineWord {chars : List Char} (literal : Literal chars) (some_ : chars ≠ []) :
    parse ("(?m)^" ++ quote (String.ofList chars) ++ "\\b") =
      if 272 + 32 * Text.byteSize chars ≤ Extent.limit then .ok ⟨lineWord chars, []⟩ else .error .tooLarge := by
  have read : Reading.run 5 (.pastWord chars) ['\\', 'b'] = .ok { Reading.pastWord chars with
      items := some ⟨.look .wordBoundary, 0⟩ :: (Reading.pastWord chars).items } := rfl
  have branch : Reading.branch { Reading.pastWord chars with
      items := some ⟨.look .wordBoundary, 0⟩ :: (Reading.pastWord chars).items } = ⟨lineWord chars, 1⟩ := by
    refine branch_of_letters some_ [.look .wordBoundary] ?_ rfl rfl
    intro a more no
    cases no
  have value : Reading.value { Reading.pastWord chars with
      items := some ⟨.look .wordBoundary, 0⟩ :: (Reading.pastWord chars).items } = ⟨lineWord chars, 1⟩ := by
    rw [Reading.value, branch]
    rfl
  rw [parse_of_lineWord literal ['\\', 'b'] read rfl rfl (by rw [value]; exact Nat.le_of_ble_eq_true rfl) rfl, value, fits_lineWord]
  simp only [decide_eq_true_eq]

end Gloss.Regex

import Gloss.Language.Diff
import Gloss.Proofs.Markup.Telling
import Gloss.Proofs.Scan.Tokenization

/-!
Lines of code that get their marks back. A block of code goes through a highlighter without the marks of its lines. If
what comes back shows the code and has as many lines, each of its lines shows a line of the code, so the marks can be
put in front of them. Otherwise the lines are recorded as they are.
-/
namespace Gloss.Language.Diff

open Text (Source splitLines)
open Markup (Legible Tidy OneLine Telling LineTelling escapeChars stripChars)

/-- Tokens as markup. -/
def rendered (ts : List Token) : List Char := ts.flatMap fun t => (Markup.renderToken t).toList

/-- Markup with as many line ends as a text. If highlighters are honest, it tells the text. -/
structure Told (honest : Prop) (markup text : List Char) : Prop where
  newlines : markup.count '\n' = text.count '\n'
  tells : honest → Telling markup text

/-- Markup with as many line ends as a text. If highlighters are honest and the line ends behind it, it tells the
text. -/
structure LineTold (honest : Prop) (markup text : List Char) : Prop where
  newlines : markup.count '\n' = text.count '\n'
  tells : honest → LineTelling markup text

section Told

variable {honest : Prop} {a b v w : List Char}

theorem Told.nil : Told honest [] [] := ⟨rfl, fun _ => .nil⟩

theorem Told.line (h : Told honest a w) : LineTold honest a w := ⟨h.newlines, fun sure => (h.tells sure).line⟩

theorem Told.append (first : Told honest a v) (second : Told honest b w) : Told honest (a ++ b) (v ++ w) := by
  refine ⟨?_, fun sure => (first.tells sure).append (second.tells sure)⟩
  rw [List.count_append, List.count_append, first.newlines, second.newlines]

theorem Told.append_line (first : Told honest a v) (second : LineTold honest b w) :
    LineTold honest (a ++ b) (v ++ w) := by
  refine ⟨?_, fun sure => (first.tells sure).append_line (second.tells sure)⟩
  rw [List.count_append, List.count_append, first.newlines, second.newlines]

theorem LineTold.newline (h : LineTold honest a w) : Told honest (a ++ ['\n']) (w ++ ['\n']) := by
  refine ⟨?_, fun sure => (h.tells sure).newline⟩
  rw [List.count_append, List.count_append, h.newlines]

/-- A token of text tells its text. -/
theorem told_raw {kind : Option Kind} (tidy : ∀ k, kind = some k → Tidy k) (text : String) :
    Told honest (Markup.renderToken (.raw kind text)).toList text.toList := by
  have plain : Legible (Markup.escape text).toList (escapeChars text.toList) := by
    simpa [Markup.escape] using Legible.of_plain (Markup.not_mem_escapeChars (.inl rfl) text.toList)
  have legible : Legible (Markup.renderToken (.raw kind text)).toList (escapeChars text.toList) := by
    cases kind with
    | none => exact plain
    | some k => exact plain.tagBlock (tidy k rfl)
  refine ⟨?_, fun _ => legible.telling⟩
  rw [← legible.newlines, Markup.count_escapeChars]

/-- A token of a line of markup tells its mark and what the markup shows. -/
theorem lineTold_markup {kind : Kind} (tidy : Tidy kind) {mark code line : List Char} (marked : OneLine mark)
    (coded : OneLine code) (alone : OneLine line) (shows : honest → stripChars line = code) :
    LineTold honest (Markup.renderToken (.markup (some kind) (String.ofList (escapeChars mark ++ line)))).toList
      (mark ++ code) := by
  refine ⟨?_, fun sure => ?_⟩
  · have block : OneLine (escapeChars mark ++ line) := by
      rw [OneLine, ← List.count_eq_zero, List.count_append, Markup.count_escapeChars,
        List.count_eq_zero.mpr marked, List.count_eq_zero.mpr alone]
    have name : ('\n') ∉ kind.name.toList := tidy.2
    have tags : OneLine ((Markup.openTag kind.name).toList ++ (escapeChars mark ++ line) ++
        (Markup.closeTag kind.name).toList) := by
      simp only [OneLine, List.mem_append, not_or] at block ⊢
      simp [Markup.openTag, Markup.closeTag, name, block]
    have whole : (Markup.renderToken (.markup (some kind) (String.ofList (escapeChars mark ++ line)))).toList =
        (Markup.openTag kind.name).toList ++ (escapeChars mark ++ line) ++ (Markup.closeTag kind.name).toList := by
      show (Markup.tagBlock kind (String.ofList (escapeChars mark ++ line)) true).toList = _
      rw [Markup.toList_tagBlock, String.toList_ofList, Markup.breakLines_of_not_mem block]
    rw [whole, List.count_eq_zero.mpr tags, List.count_append, List.count_eq_zero.mpr marked,
      List.count_eq_zero.mpr coded]
  · rw [← shows sure]
    exact Markup.lineTelling_tagBlock tidy marked alone

theorem rendered_push {s : TokenStream} {t : Token} (some_ : t.text ≠ "") :
    rendered (s.push t).toList = rendered s.toList ++ (Markup.renderToken t).toList := by
  have any : ¬ t.text.isEmpty := by simpa using some_
  simp [TokenStream.push, any, TokenStream.toList, rendered]

theorem rendered_push_empty {s : TokenStream} {t : Token} (empty : t.text = "") : s.push t = s := by
  simp [TokenStream.push, empty]

/-- Recording text that follows. -/
theorem Told.push {s : TokenStream} (h : Told honest (rendered s.toList) w) {kind : Option Kind}
    (tidy : ∀ k, kind = some k → Tidy k) (text : String) :
    Told honest (rendered (s.push (.raw kind text)).toList) (w ++ text.toList) := by
  by_cases empty : text = ""
  · rw [rendered_push_empty empty, empty]
    simpa using h
  · rw [rendered_push empty]
    exact h.append (told_raw tidy text)

/-- Recording a stretch of the source. -/
theorem Told.stretch {src : Source} {s : ScanState} (h : Told honest (rendered s.tokens.toList) w)
    {kind : Option Kind} (tidy : ∀ k, kind = some k → Tidy k) {start stop : Nat} (boundary : src.isBoundary start)
    (le : start ≤ stop) :
    Told honest (rendered (s.plus (src.stretch kind start stop)).tokens.toList) (w ++ src.between start stop) := by
  rw [ScanState.plus_toList, rendered, List.flatMap_append]
  refine h.append ?_
  unfold Source.stretch
  split
  · have told : Told honest _ _ := told_raw tidy (src.slice start stop)
    simpa [Source.between] using told
  · obtain rfl : start = stop := by omega
    rw [Source.between_self boundary]
    exact .nil

/-- Recording a line of markup with its mark. -/
theorem Told.push_markup {s : TokenStream} (h : Told honest (rendered s.toList) w) {kind : Kind} (tidy : Tidy kind)
    {mark code line : List Char} (marked : OneLine mark) (coded : OneLine code) (alone : OneLine line)
    (shows : honest → stripChars line = code) :
    LineTold honest (rendered (s.push (.markup (some kind) (String.ofList (escapeChars mark ++ line)))).toList)
      (w ++ (mark ++ code)) := by
  by_cases empty : String.ofList (escapeChars mark ++ line) = ""
  · -- There is no mark and no markup, and the token is dropped.
    have nothing : escapeChars mark ++ line = [] := by simpa using congrArg String.toList empty
    obtain ⟨noMark, rfl⟩ := List.append_eq_nil_iff.mp nothing
    have unmarked : mark = [] := by rw [← Markup.unescapeChars_escapeChars mark, noMark]; rfl
    rw [rendered_push_empty empty, unmarked, List.nil_append]
    refine ⟨?_, fun sure => ?_⟩
    · rw [List.count_append, List.count_eq_zero.mpr coded, h.newlines]
      rfl
    · have none_ : code = [] := (shows sure).symm
      rw [none_, List.append_nil]
      exact (h.tells sure).line
  · rw [rendered_push empty]
    exact h.append_line (lineTold_markup tidy marked coded alone shows)

/-- The line ends. -/
theorem LineTold.push_newline {s : TokenStream} (h : LineTold honest (rendered s.toList) w) :
    Told honest (rendered (s.push (.raw none "\n")).toList) (w ++ ['\n']) := by
  rw [rendered_push (by decide)]
  exact h.newline

end Told

section Block

variable {honest : Prop} {w : List Char}

theorem lineKind_tidy (newHalf : Bool) (mark : Char) : Tidy (lineKind newHalf mark) := by
  simp only [lineKind]
  split <;> first | decide | (split <;> decide)

/-- A line of code with the markup that a highlighter made of it without its mark, if there is one. -/
structure Coded (honest : Prop) (line : List Char) (markup : Option (List Char)) : Prop where
  single : OneLine line
  alone : ∀ m, markup = some m → OneLine m
  shows : honest → ∀ m, markup = some m → stripChars m = line.drop 1

theorem record_flat {s : ScanState} {t : Token} (flat : s.outline = none) : (s.record t).outline = none := by
  rw [ScanState.record_of_flat flat]
  exact flat

/-- Recording one line of code. -/
theorem yields_coded {s : ScanState} (flat : s.outline = none) (h : Told honest (rendered s.tokens.toList) w)
    (newHalf : Bool) {line : List Char} {markup : Option (List Char)} (coded : Coded honest line markup)
    {act : ScanM Unit} {post : Unit → ScanState → Prop} {fail : ScanError → ScanState → Prop}
    (next : ∀ s' : ScanState, s'.cursor = s.cursor → s'.outline = none → LineTold honest (rendered s'.tokens.toList) (w ++ line) →
      Yields act s' post fail) :
    Yields (match markup with
      | some m => do
        Scan.recordMarkup (some (lineKind newHalf ((line.take 1).head?.getD ' ')))
          (String.ofList (escapeChars (line.take 1) ++ m))
        act
      | none => do
        Scan.record (some (lineKind newHalf ((line.take 1).head?.getD ' '))) (String.ofList line)
        act)
      s post fail := by
  have tidy := lineKind_tidy newHalf ((line.take 1).head?.getD ' ')
  cases markup with
  | none =>
    refine yields_bind.mpr (yields_modify.mpr (next _ ScanState.record_cursor (record_flat flat) ?_))
    rw [ScanState.record_of_flat flat]
    have named : ∀ k, some (lineKind newHalf ((line.take 1).head?.getD ' ')) = some k → Tidy k :=
      fun k eq => Option.some.inj eq ▸ tidy
    have told := h.push named (String.ofList line)
    rw [String.toList_ofList] at told
    exact told.line
  | some m =>
    have single := coded.single
    have parts : line.take 1 ++ line.drop 1 = line := List.take_append_drop 1 line
    rw [OneLine, ← parts, List.mem_append, not_or] at single
    refine yields_bind.mpr (yields_modify.mpr (next _ ScanState.record_cursor (record_flat flat) ?_))
    rw [ScanState.record_of_flat flat]
    have told := h.push_markup tidy single.1 single.2 (coded.alone m rfl) fun sure => coded.shows sure m rfl
    rwa [parts] at told

/-- Recording the lines behind the first, each behind a line end. -/
theorem yields_recordLines {newHalf : Bool} {lines : List (List Char × Option (List Char))}
    (coded : ∀ p ∈ lines, Coded honest p.1 p.2) {s : ScanState} (flat : s.outline = none)
    (h : LineTold honest (rendered s.tokens.toList) w) {fail : ScanError → ScanState → Prop} :
    Yields (recordLines newHalf false lines) s
      (fun _ s' => s'.cursor = s.cursor ∧ s'.outline = none ∧
        LineTold honest (rendered s'.tokens.toList) (w ++ lines.flatMap fun p => '\n' :: p.1)) fail := by
  induction lines generalizing s w with
  | nil =>
    simp only [recordLines]
    exact yields_pure.mpr ⟨rfl, flat, by simpa using h⟩
  | cons p lines ih =>
    obtain ⟨line, markup⟩ := p
    have broken : Told honest (rendered (s.record (.raw none "\n")).tokens.toList) (w ++ ['\n']) := by
      rw [ScanState.record_of_flat flat]
      exact h.push_newline
    simp only [recordLines, Bool.not_false, if_true]
    refine yields_bind.mpr (yields_modify.mpr ?_)
    refine yields_coded (record_flat flat) broken newHalf (coded _ List.mem_cons_self) ?_
    intro s' cursor flat' told
    refine (ih (fun p member => coded p (List.mem_cons_of_mem _ member)) flat' told).mono ?_ fun _ _ failed => failed
    rintro _ s'' ⟨cursor', flat'', told'⟩
    refine ⟨by rw [cursor', cursor, ScanState.record_cursor], flat'', ?_⟩
    simpa using told'

theorem intercalate_cons (first : List Char) (rest : List (List Char)) :
    ['\n'].intercalate (first :: rest) = first ++ rest.flatMap fun line => '\n' :: line := by
  induction rest generalizing first with
  | nil => simp
  | cons second rest ih =>
    rw [List.intercalate_cons_of_ne_nil (by simp), ih]
    simp

/-- Recording a block of code, line by line. -/
theorem yields_recordBlock {newHalf : Bool} {lines : List (List Char × Option (List Char))} (some_ : lines ≠ [])
    (coded : ∀ p ∈ lines, Coded honest p.1 p.2) {s : ScanState} (flat : s.outline = none)
    (h : Told honest (rendered s.tokens.toList) w) {fail : ScanError → ScanState → Prop} :
    Yields (recordLines newHalf true lines) s
      (fun _ s' => s'.cursor = s.cursor ∧ s'.outline = none ∧
        LineTold honest (rendered s'.tokens.toList) (w ++ ['\n'].intercalate (lines.map Prod.fst))) fail := by
  cases lines with
  | nil => exact absurd rfl some_
  | cons p lines =>
    obtain ⟨line, markup⟩ := p
    simp only [recordLines, Bool.not_true, Bool.false_eq_true, if_false]
    refine yields_coded flat h newHalf (coded _ List.mem_cons_self) ?_
    intro s' cursor flat' told
    refine (yields_recordLines (fun p member => coded p (List.mem_cons_of_mem _ member)) flat' told).mono ?_
      fun _ _ failed => failed
    rintro _ s'' ⟨cursor', flat'', told'⟩
    refine ⟨cursor'.trans cursor, flat'', ?_⟩
    rw [List.map_cons, intercalate_cons]
    simpa [List.flatMap_map] using told'

/-- Every text that a highlighter returns shows the text it was given. -/
def Highlighter.Honest (h : Highlighter) : Prop := ∀ code out, h.highlight code = .ok out → Markup.strip out = code

/-- The lines of a highlighter that keeps their number show the lines of code. -/
theorem coded_of_renderCode? {child : Option Highlighter} (sure : honest → ∀ h, child = some h → h.Honest)
    {lines out : List (List Char)} (some_ : lines ≠ []) (single : ∀ line ∈ lines, OneLine line)
    (code : renderCode? child lines = some out) :
    out.length = lines.length ∧ ∀ p ∈ lines.zip (out.map some), Coded honest p.1 p.2 := by
  cases child with
  | none => cases code
  | some h =>
    simp only [renderCode?] at code
    split at code
    · cases code
    · next text highlighted =>
      split at code
      · next length =>
        cases code
        refine ⟨length, ?_⟩
        rintro ⟨line, markup⟩ member
        obtain ⟨i, entry⟩ := List.mem_iff_getElem?.mp member
        obtain ⟨inLines, inOut⟩ := List.getElem?_zip_eq_some.mp entry
        rw [List.getElem?_map, Option.map_eq_some_iff] at inOut
        obtain ⟨m, inOut, rfl⟩ := inOut
        refine ⟨single line (List.mem_of_getElem? inLines), ?_, ?_⟩
        · rintro _ ⟨⟩
          exact Markup.oneLine_of_mem_splitLines (List.mem_of_getElem? inOut)
        · rintro isHonest _ ⟨⟩
          have shown := sure isHonest h rfl _ _ highlighted
          have chars : stripChars text.toList = ['\n'].intercalate (lines.map (·.drop 1)) := by
            simpa [Markup.strip, List.intercalate] using congrArg String.toList shown
          have dropped : splitLines (['\n'].intercalate (lines.map (·.drop 1))) = lines.map (·.drop 1) := by
            refine Markup.splitLines_intercalate (by simpa using some_) ?_
            intro l memberL
            obtain ⟨line', memberLine, rfl⟩ := List.mem_map.mp memberL
            exact fun inside => single line' memberLine (List.mem_of_mem_drop inside)
          have same := Markup.splitLines_stripChars (s := text.toList) (by rw [chars, dropped, List.length_map, length])
          rw [chars, dropped] at same
          have here := congrArg (·[i]?) same
          simp only [List.getElem?_map, inLines, inOut, Option.map_some, Option.some.injEq] at here
          exact here.symm
      · cases code

/-- Lines of code, each with its markup if the highlighter gives some. -/
def markedUp (child : Option Highlighter) (lines : List (List Char)) : List (List Char × Option (List Char)) :=
  lines.zip <|
    match renderCode? child lines with
    | some out => out.map some
    | none => lines.map fun _ => none

/-- The lines of a block are in order, whatever the highlighter makes of them. -/
theorem coded_markedUp {child : Option Highlighter} (sure : honest → ∀ h, child = some h → h.Honest)
    (block : List Char) :
    (markedUp child (splitLines block)).map Prod.fst = splitLines block ∧
      ∀ p ∈ markedUp child (splitLines block), Coded honest p.1 p.2 := by
  have single : ∀ line ∈ splitLines block, OneLine line := fun _ => Markup.oneLine_of_mem_splitLines
  simp only [markedUp]
  split
  · next out code =>
    obtain ⟨length, coded⟩ := coded_of_renderCode? sure (Markup.splitLines_ne_nil block) single code
    exact ⟨List.map_fst_zip (by simp [length]), coded⟩
  · refine ⟨List.map_fst_zip (by simp), ?_⟩
    rintro ⟨line, markup⟩ member
    obtain ⟨inLines, isNone⟩ := List.of_mem_zip member
    obtain ⟨_, _, rfl⟩ := List.mem_map.mp isNone
    exact ⟨single line inLines, by rintro m ⟨⟩, by rintro _ m ⟨⟩⟩

end Block

end Gloss.Language.Diff

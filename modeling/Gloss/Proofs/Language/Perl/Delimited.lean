import Gloss.Proofs.Filter.Lines
import Gloss.Proofs.Language.Perl.Bodies
import Gloss.Proofs.Pattern.Resumed

/-!
Where quoted texts end. A character behind an unpaired backslash is escaped and counts for nothing. Of the others, what
opens a bracket and what closes it cancel, and the text ends at the close that is left over; any other delimiter ends the
text where it comes next. One pass over the text, with a depth and a flag, finds this place if there is one. What was in
front of it is recorded in one of three ways, of which each keeps the text.
-/
namespace Gloss.Language.Perl

open Text (Spot Source)

/-- The characters that are not escaped. -/
def unescaped : List Char → List Char
  | [] => []
  | [c] => [c]
  | c :: d :: rest => if c = '\\' then c :: unescaped rest else c :: unescaped (d :: rest)

theorem unescaped_cons {c : Char} (plain : c ≠ '\\') (w : List Char) : unescaped (c :: w) = c :: unescaped w := by
  cases w with
  | nil => rfl
  | cons d w => rw [unescaped, if_neg plain]

theorem unescaped_escape (c : Char) (w : List Char) : unescaped ('\\' :: c :: w) = '\\' :: unescaped w := rfl

/-- Induction on texts in which no backslash is unpaired at the end: a character or an escaped one comes first. -/
@[elab_as_elim]
theorem paired_induction {motive : (w : List Char) → unpaired w = false → Prop} (nil : motive [] rfl)
    (plain : ∀ c w (plain : c ≠ '\\') (paired : unpaired w = false), motive w paired →
      motive (c :: w) ((unpaired_cons plain w).trans paired))
    (escape : ∀ c w (paired : unpaired w = false), motive w paired → motive ('\\' :: c :: w) paired)
    (w : List Char) (paired : unpaired w = false) : motive w paired := by
  induction w using unpaired.induct with
  | case1 => exact nil
  | case2 c => exact plain c [] (by simpa [unpaired] using paired) rfl nil
  | case3 c w ih => exact escape c w paired (ih paired)
  | case4 c d w other ih =>
    exact plain c (d :: w) other ((unpaired_cons other _).symm.trans paired) (ih _)

/-- The closing character behind a body closes what the opening one in front of it opened. -/
structure Closes (opening : Char) (body : List Char) : Prop where
  paired : unpaired body = false
  /-- Openings and closings cancel in the body, and nowhere before has more been closed than opened. -/
  nests : closing opening ≠ opening →
    (unescaped body).count (closing opening) = (unescaped body).count opening ∧
      ∀ part, part <+: unescaped body → part.count (closing opening) ≤ part.count opening
  /-- What is no bracket is closed by the next of its own. -/
  next : closing opening = opening → opening ∉ unescaped body

/-- A text begins with a body and the character that closes it. -/
def Ends (opening : Char) (text body : List Char) : Prop :=
  Closes opening body ∧ ∃ rest, text = body ++ closing opening :: rest

section Depth

variable {opening c : Char} {depth : Nat} {w rest : List Char}

theorem closing_ne_backslash (bare : opening ≠ '\\') : closing opening ≠ '\\' := by
  unfold closing
  split <;> first | decide | exact bare

/-- Openings in a text; what is no bracket opens none. -/
def opens (opening : Char) (w : List Char) : Nat := if closing opening = opening then 0 else w.count opening

/-- Of openings that wait for their closing in front of a text, the first one waits for the character behind it. -/
structure Returns (opening : Char) (depth : Nat) (w : List Char) : Prop where
  before : ∀ part, part <+: w → part.count (closing opening) < depth + opens opening part
  last : w.count (closing opening) + 1 = depth + opens opening w

theorem closes_iff_returns : Closes opening w ↔ unpaired w = false ∧ Returns opening 1 (unescaped w) := by
  constructor
  · intro h
    refine ⟨h.paired, ?_⟩
    by_cases self : closing opening = opening
    · have absent := h.next self
      refine ⟨?_, ?_⟩
      · intro part front
        rw [self, List.count_eq_zero.mpr fun member => absent (front.subset member)]
        omega
      · rw [self, List.count_eq_zero.mpr absent, opens, if_pos self]
    · obtain ⟨same, within⟩ := h.nests self
      refine ⟨?_, ?_⟩
      · intro part front
        have := within part front
        rw [opens, if_neg self]
        omega
      · rw [same, opens, if_neg self, Nat.add_comm]
  · rintro ⟨paired, returns⟩
    refine ⟨paired, ?_, ?_⟩
    · intro bracket
      refine ⟨?_, ?_⟩
      · have := returns.last
        rw [opens, if_neg bracket] at this
        omega
      · intro part front
        have := returns.before part front
        rw [opens, if_neg bracket] at this
        omega
    · intro self
      have := returns.last
      rw [self, opens, if_pos self] at this
      exact List.count_eq_zero.mp (by omega)

theorem Returns.pos (h : Returns opening depth w) : 0 < depth := by
  have := h.before [] List.nil_prefix
  simp only [List.count_nil, opens, ite_self] at this
  omega

theorem returns_nil : Returns opening 1 [] := by
  refine ⟨?_, by simp [opens]⟩
  intro part front
  rw [List.prefix_nil.mp front, List.count_nil]
  omega

/-- The depth behind a character that is not escaped. -/
def stepDepth (opening : Char) (depth : Nat) (c : Char) : Nat :=
  if c = closing opening then depth - 1 else if c = opening then depth + 1 else depth

/-- What a character does to the depth it does to the counts. -/
theorem count_step (opening c : Char) (pos : 0 < depth) (w : List Char) :
    (c :: w).count (closing opening) + (stepDepth opening depth c + opens opening w) =
      w.count (closing opening) + (depth + opens opening (c :: w)) := by
  by_cases closes : c = closing opening
  · by_cases self : closing opening = opening
    · simp [stepDepth, opens, closes, self]
      omega
    · simp [stepDepth, opens, closes, self]
      omega
  · by_cases opened : c = opening
    · have bracket : closing opening ≠ opening := fun same => closes (opened.trans same.symm)
      simp [stepDepth, opens, opened, bracket, bracket.symm]
      omega
    · simp [stepDepth, opens, closes, opened]

theorem returns_cons (pos : 0 < depth) :
    Returns opening depth (c :: w) ↔ Returns opening (stepDepth opening depth c) w := by
  constructor
  · intro h
    refine ⟨?_, ?_⟩
    · intro part front
      have := h.before (c :: part) (List.cons_prefix_cons.mpr ⟨rfl, front⟩)
      have := count_step opening c pos part
      omega
    · have := h.last
      have := count_step opening c pos w
      omega
  · intro h
    refine ⟨?_, ?_⟩
    · intro part front
      rcases List.prefix_cons_iff.mp front with rfl | ⟨part, rfl, front'⟩
      · simpa [opens] using pos
      · have := h.before part front'
        have := count_step opening c pos part
        omega
    · have := h.last
      have := count_step opening c pos w
      omega

theorem stepDepth_backslash (bare : opening ≠ '\\') : stepDepth opening depth '\\' = depth := by
  rw [stepDepth, if_neg (closing_ne_backslash bare).symm, if_neg bare.symm]

/-- One step of the pass over a character that is not escaped: it ends the body or is a part of it. -/
theorem bodyFrom_plain (plain : c ≠ '\\') :
    bodyFrom opening depth false (c :: rest) =
      if c = closing opening ∧ depth ≤ 1 then some []
      else (bodyFrom opening (stepDepth opening depth c) false rest).map (c :: ·) := by
  rw [bodyFrom, if_neg plain]
  by_cases closes : c = closing opening
  · simp only [closes, stepDepth, true_and, if_true, Bool.false_eq_true, if_false]
  · by_cases opened : c = opening
    · have bracket : opening ≠ closing opening := fun same => closes (opened.trans same)
      simp only [opened, stepDepth, bracket, false_and, if_false, Bool.false_eq_true, if_true]
    · simp only [closes, opened, stepDepth, false_and, if_false, Bool.false_eq_true]

theorem bodyFrom_escape :
    bodyFrom opening depth false ('\\' :: c :: rest) = (bodyFrom opening depth false rest).map ('\\' :: c :: ·) := by
  simp [bodyFrom, Function.comp_def]

/-- A character that is not escaped ends the body, or the pass goes on behind it. -/
theorem bodyFrom_plain_cases (plain : c ≠ '\\') (pos : 0 < depth) {body : List Char}
    (found : bodyFrom opening depth false (c :: rest) = some body) :
    body = [] ∧ depth = 1 ∨ ∃ more, body = c :: more ∧ 0 < stepDepth opening depth c ∧
      bodyFrom opening (stepDepth opening depth c) false rest = some more := by
  rw [bodyFrom_plain plain] at found
  split at found
  · next ends =>
    obtain rfl := Option.some.inj found
    exact .inl ⟨rfl, by omega⟩
  · next goes =>
    obtain ⟨more, inner, rfl⟩ := Option.map_eq_some_iff.mp found
    refine .inr ⟨more, rfl, ?_, inner⟩
    rw [stepDepth]
    split
    · next closes =>
      have : ¬ depth ≤ 1 := fun le => goes ⟨closes, le⟩
      omega
    · split <;> omega

/-- What the pass finds is a body, at whose end the count returns. -/
theorem returns_of_bodyFrom (bare : opening ≠ '\\') {text body : List Char} (pos : 0 < depth)
    (found : bodyFrom opening depth false text = some body) :
    unpaired body = false ∧ Returns opening depth (unescaped body) := by
  induction text using unpaired.induct generalizing depth body with
  | case1 => cases found
  | case2 c =>
    by_cases plain : c = '\\'
    · subst plain
      cases found
    · obtain ⟨rfl, rfl⟩ | ⟨more, _, _, inner⟩ := bodyFrom_plain_cases plain pos found
      · exact ⟨rfl, returns_nil⟩
      · cases inner
  | case3 d rest ih =>
    rw [bodyFrom_escape] at found
    obtain ⟨more, inner, rfl⟩ := Option.map_eq_some_iff.mp found
    obtain ⟨paired, returns⟩ := ih pos inner
    rw [unpaired_escape, unescaped_escape, returns_cons pos, stepDepth_backslash bare]
    exact ⟨paired, returns⟩
  | case4 c d rest plain ih =>
    obtain ⟨rfl, rfl⟩ | ⟨more, rfl, pos', inner⟩ := bodyFrom_plain_cases plain pos found
    · exact ⟨rfl, returns_nil⟩
    · obtain ⟨paired, returns⟩ := ih pos' inner
      rw [unpaired_cons plain, unescaped_cons plain, returns_cons pos]
      exact ⟨paired, returns⟩

/-- The pass does not miss a body. -/
theorem bodyFrom_of_returns (bare : opening ≠ '\\') {body : List Char} (paired : unpaired body = false)
    (returns : Returns opening depth (unescaped body)) (rest : List Char) :
    bodyFrom opening depth false (body ++ closing opening :: rest) = some body := by
  induction body, paired using paired_induction generalizing depth with
  | nil =>
    have last : depth = 1 := by simpa [opens, unescaped] using returns.last.symm
    rw [List.nil_append, bodyFrom_plain (closing_ne_backslash bare), if_pos ⟨rfl, by omega⟩]
  | plain c w plain _ ih =>
    have pos := returns.pos
    rw [unescaped_cons plain, returns_cons pos] at returns
    have goes : ¬ (c = closing opening ∧ depth ≤ 1) := by
      rintro ⟨closes, le⟩
      have pos' := returns.pos
      rw [stepDepth, if_pos closes] at pos'
      omega
    rw [List.cons_append, bodyFrom_plain plain, if_neg goes, ih returns, Option.map_some]
  | escape c w _ ih =>
    have pos := returns.pos
    rw [unescaped_escape, returns_cons pos, stepDepth_backslash bare] at returns
    rw [List.cons_append, List.cons_append, bodyFrom_escape, ih returns, Option.map_some]

end Depth

/-- The pass finds the body of a text that begins with one, which is the only one. -/
theorem body?_eq_some_iff {opening : Char} (bare : opening ≠ '\\') {text body : List Char} :
    body? opening text = some body ↔ Ends opening text body := by
  constructor
  · intro found
    exact ⟨closes_iff_returns.mpr (returns_of_bodyFrom bare Nat.one_pos found), bodyFrom_some found⟩
  · rintro ⟨closes, rest, rfl⟩
    obtain ⟨paired, returns⟩ := closes_iff_returns.mp closes
    exact bodyFrom_of_returns bare paired returns rest

example : body? '/' "a\\/b/c".toList = some "a\\/b".toList := by decide

/-- Tokens that stand for a text are recorded, and nothing else happens. -/
structure Records (w : List Char) (s s' : ScanState) : Prop where
  tokens : ∃ ts, s'.tokens.toList = s.tokens.toList ++ ts ∧ ts.flatMap (·.told.toList) = w
  others : s' = { s with tokens := s'.tokens }

section Recording

variable {v w : List Char} {s s' s'' : ScanState}

theorem Records.nothing : Records [] s s := ⟨⟨[], by simp⟩, rfl⟩

theorem Records.trans (first : Records v s s') (second : Records w s' s'') : Records (v ++ w) s s'' := by
  obtain ⟨ts, tokens, told⟩ := first.tokens
  obtain ⟨us, tokens', told'⟩ := second.tokens
  refine ⟨⟨ts ++ us, by rw [tokens', tokens, List.append_assoc], by rw [List.flatMap_append, told, told']⟩, ?_⟩
  rw [second.others, first.others]

theorem Records.flat (h : Records w s s') (flat : s.outline = none) : s'.outline = none := by
  rw [h.others]
  exact flat

/-- A token without text stands for none, and is not recorded. -/
theorem records_record (flat : s.outline = none) {t : Token} (told : t.told.toList = w) : Records w s (s.record t) := by
  rw [ScanState.record_of_flat flat]
  refine ⟨⟨if t.text.isEmpty then [] else [t], TokenStream.toList_push _ _, ?_⟩, rfl⟩
  split
  · next empty =>
    have nothing : t.text = "" := by simpa using empty
    rw [← told, Token.told, nothing]
    split <;> rfl
  · rw [List.flatMap_singleton, told]

/-- The words of a text and the white space between them stand for all of it. -/
theorem records_recordWords {fuel : Nat} (flat : s.outline = none) (enough : w.length ≤ fuel) :
    Yields (recordWords fuel w) s (fun _ s' => Records w s s') fun _ _ => False := by
  induction fuel generalizing w s with
  | zero =>
    obtain rfl := List.length_eq_zero_iff.mp (Nat.le_zero.mp enough)
    exact .nothing
  | succ fuel ih =>
    cases w with
    | nil => exact .nothing
    | cons c rest =>
      obtain ⟨kind, run, behind, parts, shorter, _, step⟩ := recordWords_cons fuel c rest
      have word : Records run s (s.record (.raw kind (String.ofList run))) :=
        records_record flat (String.toList_ofList ..)
      rw [List.length_cons] at enough
      rw [step, parts]
      refine yields_bind.mpr (yields_modify.mpr ((ih (word.flat flat) (by omega)).mono ?_ fun _ _ failed => failed))
      exact fun _ _ words => word.trans words

/-- In all three ways of recording a body its text is kept. -/
theorem records_recordBody (flat : s.outline = none) (body : Body) (interpolation : Bool) (w : List Char) :
    Yields (recordBody body interpolation (String.ofList w)) s (fun _ s' => Records w s s') fun _ _ => False := by
  cases body with
  | words =>
    simp only [recordBody]
    rw [String.toList_ofList]
    exact records_recordWords flat (by simp)
  | as kind =>
    simp only [recordBody]
    split
    · exact yields_modify.mpr (records_record flat (Token.told_of_shown (Token.shown_markup rfl (marked_shows w))))
    · exact yields_modify.mpr (records_record flat (String.toList_ofList ..))

end Recording

/-- What consuming a body and the character that closes it comes to: tokens that stand for the body and one for the
closing character are recorded, the cursor is behind it, and the region that `before` did not have is closed. -/
structure Consumed (opening : Char) (body : List Char) (before after : ScanState) : Prop where
  pos : after.pos = before.pos + Text.byteSize body + (closing opening).utf8Size
  tokens : ∃ ts, after.tokens.toList =
      before.tokens.toList ++ ts ++ [.raw (some .delimiter) (closing opening).toString] ∧
    String.join (ts.map (·.told)) = String.ofList body
  regions : after.regions = before.regions
  others : after = { before with cursor := { before.cursor with pos := after.pos }, tokens := after.tokens }

/-- Recording a body and the character that closes it, and closing the region. -/
theorem yields_closeQuoted {s : ScanState} {r : Region} {text : List Char} {closes : Char} {stop : Nat}
    (flat : s.outline = none) (boundary : s.cursor.source.isBoundary stop) (body : Body) (interpolation : Bool) :
    Yields (do
        recordBody body interpolation (String.ofList text)
        Scan.setPos stop
        Scan.record (some .delimiter) closes.toString
        let _ ← Scan.popRegion
        return true) { s with regions := r :: s.regions }
      (fun closed s' => closed = true ∧ ∃ stream ts, s' = { s with cursor := { s.cursor with pos := stop }, tokens := stream } ∧
        stream.toList = s.tokens.toList ++ ts ++ [.raw (some .delimiter) closes.toString] ∧
        ts.flatMap (·.told.toList) = text) fun _ _ => False := by
  have flat' : ({ s with regions := r :: s.regions } : ScanState).outline = none := flat
  refine yields_bind.mpr ((records_recordBody flat' body interpolation text).mono ?_ fun _ _ failed => failed)
  rintro _ s₁ ⟨⟨ts, tokens, told⟩, others⟩
  obtain ⟨stream, rfl⟩ : ∃ stream, s₁ = { s with regions := r :: s.regions, tokens := stream } := ⟨_, others⟩
  refine yields_bind.mpr (yields_onCursor.mpr (yields_bind.mpr (yields_modify.mpr ?_)))
  simp only [ScanState.record, flat]
  refine yields_bind.mpr (yields_bind.mpr (yields_get.mpr (yields_bind.mpr (yields_modify.mpr (yields_pure.mpr ?_)))))
  refine ⟨rfl, stream.push (.raw (some .delimiter) closes.toString), ts, ?_, ?_, told⟩
  · simp only [Option.map_none, Cursor.setPos, Source.floor_of_isBoundary boundary]
  · have some_ : closes.toString.isEmpty = false := by simp [Char.toString]
    rw [TokenStream.toList_push, Token.raw, some_, tokens]
    rfl

section Consuming

variable {s : ScanState} {r : Region} {opening : Char}

theorem head_opening (starts : r.opening = opening.toString) : r.opening.toList.head? = some opening := by
  rw [starts, Char.toString, String.toList_singleton]
  rfl

/-- A body that is closed is consumed. -/
theorem yields_consumed {text : List Char} (flat : s.outline = none) (starts : r.opening = opening.toString)
    (found : body? opening s.cursor.restChars = some text) (body : Body) :
    Yields (consumeQuoted body) { s with regions := r :: s.regions }
      (fun closed s' => closed = true ∧ Consumed opening text s s') fun _ _ => False := by
  obtain ⟨a, b, c, inside, _, reads, mark, atB, atC, slice⟩ := spots_of_body? found
  have boundary := Source.isBoundary_of_in ((inside.reads reads).reads mark)
  simp only [consumeQuoted]
  refine yields_bind.mpr (yields_bind.mpr (yields_get.mpr (yields_pure.mpr ?_)))
  simp only [List.head?_cons, head_opening starts]
  refine yields_bind.mpr (yields_ofCursor.mpr ?_)
  simp only [found]
  refine yields_bind.mpr (yields_ofCursor.mpr (yields_bind.mpr (yields_ofCursor.mpr ?_)))
  simp only [← atB, ← atC, slice]
  refine (yields_closeQuoted flat boundary body r.interpolation).mono ?_ fun _ _ failed => failed
  rintro closed _ ⟨rfl, stream, ts, rfl, tokens, told⟩
  refine ⟨rfl, ?_, ⟨ts, tokens, ?_⟩, rfl, rfl⟩
  · show c.pos = s.cursor.pos + Text.byteSize text + (closing opening).utf8Size
    rw [atC, atB]
  · rw [← String.toList_inj, toList_join_map, told, String.toList_ofList]

/-- If no body is closed nothing happens. -/
theorem yields_unclosed {outer : List Region} (open_ : s.regions = r :: outer) (starts : r.opening = opening.toString)
    (absent : body? opening s.cursor.restChars = none) (body : Body) :
    Yields (consumeQuoted body) s (fun closed s' => closed = false ∧ s' = s) fun _ _ => False := by
  simp only [consumeQuoted]
  refine yields_bind.mpr (yields_bind.mpr (yields_get.mpr (yields_pure.mpr ?_)))
  simp only [open_, List.head?_cons, head_opening starts]
  refine yields_bind.mpr (yields_ofCursor.mpr ?_)
  simp only [absent]
  exact ⟨rfl, rfl⟩

theorem openQuoted_eq (flat : s.outline = none) (opening : Char) (body : Body) (interpolation : Bool) :
    ∃ r : Region, r.opening = opening.toString ∧
      openQuoted opening body interpolation s = .ok () { s with regions := r :: s.regions } := by
  let r : Region :=
    { name := quoted, start := s.cursor.pos, opening := opening.toString, interpolation, extra := some body.kind }
  have pushed : Yields (openQuoted opening body interpolation) s (fun _ s' => s' = { s with regions := r :: s.regions })
      fun _ _ => False := by
    refine yields_bind.mpr (yields_ofCursor.mpr (yields_modify.mpr ?_))
    simp only [flat, Option.map_none]
    rfl
  obtain ⟨_, _, opened, rfl⟩ := pushed.succeeds
  exact ⟨r, rfl, opened⟩

end Consuming

/-- Behind the opening of a quoted text its body is closed just if the text goes on with a body and the character that
closes it. There is only one, and it is consumed; if there is none, the region stays open and nothing else is done. As
everywhere in this language, output goes into a stream. -/
theorem consumeQuoted_ends (s : ScanState) (flat : s.outline = none) {opening : Char} (bare : opening ≠ '\\')
    (body : Body) (interpolation : Bool) :
    ∃ r s₁ closed s₂, openQuoted opening body interpolation s = .ok () s₁ ∧ s₁ = { s with regions := r :: s.regions } ∧
      consumeQuoted body s₁ = .ok closed s₂ ∧
      (closed = true ↔ ∃ text, Ends opening s.cursor.restChars text) ∧
      (closed = true → ∃ text, Ends opening s.cursor.restChars text ∧
        (∀ other, Ends opening s.cursor.restChars other → other = text) ∧ Consumed opening text s s₂) ∧
      (closed = false → s₂ = s₁) := by
  obtain ⟨r, starts, opened⟩ := openQuoted_eq flat opening body interpolation
  refine ⟨r, { s with regions := r :: s.regions }, ?_⟩
  cases found : body? opening s.cursor.restChars with
  | some text =>
    obtain ⟨closed, s₂, ran, rfl, consumed⟩ := (yields_consumed flat starts found body).succeeds
    have ends := (body?_eq_some_iff bare).mp found
    refine ⟨true, s₂, opened, rfl, ran, ⟨fun _ => ⟨text, ends⟩, fun _ => rfl⟩, fun _ => ⟨text, ends, ?_, consumed⟩, nofun⟩
    intro other ends'
    rw [(body?_eq_some_iff bare).mpr ends'] at found
    exact Option.some.inj found
  | none =>
    have nothing := yields_unclosed (s := { s with regions := r :: s.regions }) rfl starts found body
    obtain ⟨closed, s₂, ran, rfl, same⟩ := nothing.succeeds
    refine ⟨false, s₂, opened, rfl, ran, ⟨nofun, ?_⟩, nofun, fun _ => same⟩
    rintro ⟨text, ends⟩
    rw [(body?_eq_some_iff bare).mpr ends] at found
    cases found

/-- A text in parentheses with an escaped one and a pair in it. -/
def parenthesized : ScanState := ({} : ScanState).setSource (.ofString "a\\)(b)c) d")

/-- It ends at the last parenthesis. -/
theorem consumeQuoted_parenthesized :
    parenthesized.outline = none ∧ '(' ≠ '\\' ∧
    ∃ r s₂, openQuoted '(' (.as .string) false parenthesized = .ok () { parenthesized with regions := [r] } ∧
      consumeQuoted (.as .string) { parenthesized with regions := [r] } = .ok true s₂ ∧
      Consumed '(' "a\\)(b)c".toList parenthesized s₂ := by
  have ends : Ends '(' parenthesized.cursor.restChars "a\\)(b)c".toList :=
    (body?_eq_some_iff (by decide)).mp (by decide +kernel)
  obtain ⟨r, _, closed, s₂, opened, rfl, ran, found, consumed, _⟩ :=
    consumeQuoted_ends parenthesized rfl (show '(' ≠ '\\' by decide) (.as .string) false
  obtain rfl := found.mpr ⟨_, ends⟩
  obtain ⟨text, _, only, consumed⟩ := consumed rfl
  rw [← only _ ends] at consumed
  exact ⟨rfl, by decide, r, s₂, opened, ran, consumed⟩

end Gloss.Language.Perl

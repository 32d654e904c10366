import Gloss.Proofs.Filter.Shown

/-!
Which comments document what follows. The filter looks at three bytes behind the first one, whatever the comment opens
with, and an earlier filter may have put notes into tags by then. Behind a sign such as a slash or a hash the bytes are
characters, and the notes make no difference unless one of the two characters in front is escaped.
-/
namespace Gloss.Filter

open Text (Spot)

/-- Does the second character repeat the first, or is it an exclamation mark, and does the third not repeat it? -/
def repeats : List Char → Bool
  | b :: c :: d :: _ => b.toNat < 128 && (c == b || c == '!') && d != c
  | _ => false

/-- The same for bytes. -/
def repeatsBytes : List UInt8 → Bool
  | second :: third :: fourth :: _ => (third == second || third == '!'.toNat.toUInt8) && fourth != third
  | _ => false

section Bytes

/-- A character is one byte, or begins with a byte above and goes on with one below all that begin several bytes. -/
theorem utf8EncodeChar_cases (c : Char) :
    (c.toNat < 128 ∧ String.utf8EncodeChar c = [c.toNat.toUInt8]) ∨
      (128 ≤ c.toNat ∧ ∃ x y more, String.utf8EncodeChar c = x :: y :: more ∧ 192 ≤ x.toNat ∧ 128 ≤ y.toNat ∧
        y.toNat < 192) := by
  have size : c.val.toNat = c.toNat := rfl
  unfold String.utf8EncodeChar
  simp only [size]
  split
  · exact .inl ⟨by omega, rfl⟩
  · refine .inr ⟨by omega, ?_⟩
    split
    · exact ⟨_, _, _, rfl, by simp; omega, by simp; omega, by simp; omega⟩
    · split
      · exact ⟨_, _, _, rfl, by simp; omega, by simp; omega, by simp; omega⟩
      · exact ⟨_, _, _, rfl, by simp; omega, by simp; omega, by simp; omega⟩

theorem utf8EncodeChar_of_ascii {c : Char} (ascii : c.toNat < 128) : String.utf8EncodeChar c = [c.toNat.toUInt8] := by
  rcases utf8EncodeChar_cases c with ⟨_, eq⟩ | ⟨wide, _⟩
  · exact eq
  · omega

theorem toNat_toUInt8 {c : Char} (ascii : c.toNat < 128) : c.toNat.toUInt8.toNat = c.toNat := by
  simp
  omega

theorem toUInt8_inj {c d : Char} (hc : c.toNat < 128) (hd : d.toNat < 128) :
    c.toNat.toUInt8 = d.toNat.toUInt8 ↔ c = d := by
  refine ⟨fun same => ?_, fun same => by rw [same]⟩
  have codes := congrArg UInt8.toNat same
  rw [toNat_toUInt8 hc, toNat_toUInt8 hd] at codes
  rw [← Char.ofNat_toNat c, ← Char.ofNat_toNat d, codes]

/-- The first byte of a character tells it from every character of one byte. -/
theorem head_utf8EncodeChar (c : Char) : ∃ x more, String.utf8EncodeChar c = x :: more ∧
    ∀ d : Char, d.toNat < 128 → (x = d.toNat.toUInt8 ↔ c = d) := by
  rcases utf8EncodeChar_cases c with ⟨ascii, eq⟩ | ⟨wide, x, y, more, eq, high, _⟩
  · exact ⟨_, [], eq, fun d hd => toUInt8_inj ascii hd⟩
  · refine ⟨x, y :: more, eq, fun d hd => ⟨fun same => ?_, fun same => ?_⟩⟩
    · rw [same, toNat_toUInt8 hd] at high
      omega
    · rw [same] at wide
      omega

theorem repeatsBytes_apart {x y : UInt8} (apart : ¬ (y = x ∨ y = '!'.toNat.toUInt8)) (more : List UInt8) :
    repeatsBytes (x :: y :: more) = false := by
  cases more with
  | nil => rfl
  | cons z more =>
    rw [not_or] at apart
    simp only [repeatsBytes, beq_eq_false_iff_ne.mpr apart.1, beq_eq_false_iff_ne.mpr apart.2, Bool.or_self,
      Bool.false_and]

/-- Bytes of one character never repeat each other. -/
theorem repeatsBytes_of_wide {b : Char} (wide : 128 ≤ b.toNat) (rest : List UInt8) :
    repeatsBytes (String.utf8EncodeChar b ++ rest) = false := by
  rcases utf8EncodeChar_cases b with ⟨ascii, _⟩ | ⟨_, x, y, more, eq, high, low, below⟩
  · omega
  have apart : ¬ (y = x ∨ y = '!'.toNat.toUInt8) := by
    rintro (same | same)
    · rw [same] at below
      omega
    · rw [same, toNat_toUInt8 (by decide)] at low
      exact absurd low (by decide)
  rw [eq, List.cons_append, List.cons_append, repeatsBytes_apart apart]

theorem repeatsBytes_of_ne {b c : Char} (ascii : b.toNat < 128) (other : c ≠ b) (mark : c ≠ '!') (rest : List UInt8) :
    repeatsBytes (b.toNat.toUInt8 :: (String.utf8EncodeChar c ++ rest)) = false := by
  obtain ⟨x, more, eq, first⟩ := head_utf8EncodeChar c
  have apart : ¬ (x = b.toNat.toUInt8 ∨ x = '!'.toNat.toUInt8) := by
    rw [first b ascii, first '!' (by decide)]
    exact not_or.mpr ⟨other, mark⟩
  rw [eq, List.cons_append, repeatsBytes_apart apart]

theorem repeats_of_wide {b : Char} (wide : 128 ≤ b.toNat) (tail : List Char) : repeats (b :: tail) = false := by
  have narrow : ¬ b.toNat < 128 := by omega
  match tail with
  | [] => rfl
  | [_] => rfl
  | _ :: _ :: _ => simp only [repeats, decide_eq_false narrow, Bool.false_and]

theorem repeats_of_ne {b c : Char} (other : c ≠ b) (mark : c ≠ '!') (tail : List Char) :
    repeats (b :: c :: tail) = false := by
  cases tail <;> simp [repeats, other, mark]

/-- Nothing repeats a character of several bytes, and its first byte tells it from a character of one byte. -/
theorem repeatsBytes_flatMap (tail : List Char) : repeatsBytes (tail.flatMap String.utf8EncodeChar) = repeats tail := by
  match tail with
  | [] => rfl
  | b :: tail =>
    rw [List.flatMap_cons]
    by_cases wide : 128 ≤ b.toNat
    · rw [repeatsBytes_of_wide wide, repeats_of_wide wide]
    have ascii : b.toNat < 128 := by omega
    rw [utf8EncodeChar_of_ascii ascii, List.singleton_append]
    match tail with
    | [] => rfl
    | c :: tail =>
      rw [List.flatMap_cons]
      by_cases apart : c ≠ b ∧ c ≠ '!'
      · rw [repeatsBytes_of_ne ascii apart.1 apart.2, repeats_of_ne apart.1 apart.2]
      have asciiC : c.toNat < 128 := by
        by_cases same : c = b
        · exact same ▸ ascii
        · have mark : c = '!' := Decidable.not_not.mp fun other => apart ⟨same, other⟩
          rw [mark]
          decide
      rw [utf8EncodeChar_of_ascii asciiC, List.singleton_append]
      match tail with
      | [] => rfl
      | d :: tail =>
        obtain ⟨z, more, eq, first⟩ := head_utf8EncodeChar d
        rw [List.flatMap_cons, eq, List.cons_append, Bool.eq_iff_iff]
        simp only [repeatsBytes, repeats, Bool.and_eq_true, Bool.or_eq_true, beq_iff_eq, bne_iff_ne, ne_eq,
          decide_eq_true_eq, toUInt8_inj asciiC ascii, toUInt8_inj asciiC (show ('!' : Char).toNat < 128 by decide),
          first c asciiC, ascii, true_and]

/-- Behind one byte the filter compares characters. -/
theorem isDocComment_cons {a : Char} (ascii : a.toNat < 128) (tail : List Char) :
    isDocComment (String.ofList (a :: tail)) = repeats tail := by
  rw [isDocComment, String.toList_ofList, List.flatMap_cons, utf8EncodeChar_of_ascii ascii, List.singleton_append,
    ← repeatsBytes_flatMap]
  rcases tail.flatMap String.utf8EncodeChar with _ | ⟨_, _ | ⟨_, _ | ⟨_, _⟩⟩⟩ <;> rfl

end Bytes

section Markup

/-- Has markup a use of its own for the character? -/
def isReserved (c : Char) : Bool := c == '&' || c == '<' || c == '>'

theorem escapeChars_reserved {c : Char} (reserved : isReserved c) (rest : List Char) :
    ∃ x y more, Markup.escapeChars (c :: rest) = '&' :: x :: y :: more ∧ x ≠ '&' ∧ x ≠ '!' ∧ y ≠ x ∧ y ≠ '!' := by
  simp only [isReserved, Bool.or_eq_true, beq_iff_eq, or_assoc] at reserved
  rcases reserved with rfl | rfl | rfl <;> exact ⟨_, _, _, rfl, by decide, by decide, by decide, by decide⟩

theorem escapeChars_plain {c : Char} (plain : isReserved c = false) (rest : List Char) :
    Markup.escapeChars (c :: rest) = c :: Markup.escapeChars rest := by
  simp only [isReserved, Bool.or_eq_false_iff, beq_eq_false_iff_ne, ne_eq] at plain
  simp [Markup.escapeChars_cons, Markup.escapeChar, plain]

theorem ne_of_isReserved {c d : Char} (plain : isReserved c = false) (reserved : isReserved d) : d ≠ c := by
  rintro rfl
  rw [plain] at reserved
  cases reserved

/-- Behind a character that is not escaped an escape makes no difference, as nothing escaped repeats that one. -/
theorem repeats_escapeChars_cons {b : Char} (plain : isReserved b = false) (tail : List Char) :
    repeats (b :: Markup.escapeChars tail) = repeats (b :: tail) := by
  match tail with
  | [] => rfl
  | c :: tail =>
    cases reservedC : isReserved c with
    | true =>
      obtain ⟨x, y, more, eq, _⟩ := escapeChars_reserved reservedC tail
      rw [eq, repeats_of_ne (ne_of_isReserved plain (by decide)) (by decide),
        repeats_of_ne (ne_of_isReserved plain reservedC) (ne_of_isReserved (by decide) reservedC)]
    | false =>
      rw [escapeChars_plain reservedC]
      match tail with
      | [] => rfl
      | d :: tail =>
        cases reservedD : isReserved d with
        | true =>
          obtain ⟨x, y, more, eq, _⟩ := escapeChars_reserved reservedD tail
          have other := bne_iff_ne.mpr (ne_of_isReserved reservedC reservedD)
          have escaped := bne_iff_ne.mpr (ne_of_isReserved reservedC (show isReserved '&' by decide))
          simp only [eq, repeats, other, escaped]
        | false => simp only [escapeChars_plain reservedD, repeats]

/-- An escaped character among the first two is never repeated; further back it makes no difference. -/
theorem repeats_escapeChars (a : Char) (tail : List Char) : repeats (Markup.escapeChars (a :: tail)).tail =
    (repeats tail && !isReserved a && !tail.head?.any isReserved) := by
  have escaped {c : Char} (reserved : isReserved c) (rest : List Char) :
      repeats (Markup.escapeChars (c :: rest)) = false ∧ repeats (Markup.escapeChars (c :: rest)).tail = false := by
    obtain ⟨x, y, more, eq, other, mark, other', mark'⟩ := escapeChars_reserved reserved rest
    rw [eq]
    exact ⟨repeats_of_ne other mark _, repeats_of_ne other' mark' _⟩
  cases reservedA : isReserved a with
  | true => simp [(escaped reservedA tail).2]
  | false =>
    rw [escapeChars_plain reservedA, List.tail_cons]
    match tail with
    | [] => rfl
    | b :: tail =>
      cases reservedB : isReserved b with
      | true => simp [(escaped reservedB tail).1, reservedB]
      | false => simp [escapeChars_plain reservedB, repeats_escapeChars_cons reservedB, reservedB]

end Markup

section Notes

/-- What the words begin with that mark a note. -/
def noteHeads : List (Char × Char × Char) :=
  [('N', 'O', 'T'), ('X', 'X', 'X'), ('F', 'I', 'X'), ('T', 'O', 'D'), ('H', 'A', 'C'), ('B', 'U', 'G')]

/-- A note begins with one of these, and no word goes on in front of it. -/
theorem noteHead_of_covers {o u : Spot} {v : List Char} {marks : Regex.Marks} (covers : notePattern.Covers o u marks)
    (reads : Spot.Reads o v u) : (∃ l m n more, v = l :: m :: n :: more ∧ (l, m, n) ∈ noteHeads) ∧
      Regex.Assertion.isWord? o.before = false := by
  simp only [Pattern.Covers, note_regex] at covers
  obtain ⟨b, _, ⟨boundary, here, _⟩, a, _, word, colon⟩ := covers
  rw [here] at word
  obtain ⟨w, readsW, l, m, n, more, eq, known⟩ : ∃ w, Spot.Reads o w a ∧
      ∃ l m n more, w = l :: m :: n :: more ∧ (l, m, n) ∈ noteHeads := by
    rcases word with word | word | word | word | word | word <;>
      exact ⟨_, word.1, _, _, _, _, rfl, by decide⟩
  obtain ⟨c, behind⟩ := (Regex.Matches.reads colon)
  refine ⟨⟨l, m, n, more ++ c, ?_, known⟩, ?_⟩
  · rw [reads.word_eq (readsW.trans behind), eq]
    rfl
  · have letter : ∀ h ∈ noteHeads, Unicode.isWord h.1 = true := by decide
    have ahead : o.rest.head? = some l := by
      rw [readsW.rest, eq]
      rfl
    have here : Regex.Assertion.isWord? (some l) = true := letter _ known
    simpa [Regex.Assertion.holds, ahead, here] using boundary

/-- A tag around a note changes nothing of what the filter looks at, unless the text begins with the note. -/
theorem repeats_noted {front rest more : List Char} {l m n : Char} (known : (l, m, n) ∈ noteHeads) (some_ : front ≠ [])
    (outside : ∀ c, front.getLast? = some c → Unicode.isWord c = false) (tagless : '<' ∉ front) :
    repeats (front ++ '<' :: 'C' :: 'O' :: more).tail = repeats (front ++ l :: m :: n :: rest).tail := by
  have letters : ∀ h ∈ noteHeads, Unicode.isWord h.1 = true ∧ h.1 ≠ '!' ∧ repeats [h.1, h.2.1, h.2.2] = false := by
    decide
  obtain ⟨letter, mark, shut⟩ := letters _ known
  have apart {c : Char} (last : front.getLast? = some c) : l ≠ c := by
    rintro rfl
    rw [outside _ last] at letter
    cases letter
  match front with
  | [x] => exact shut.symm
  | [x, y] =>
    have other : '<' ≠ y := by rintro rfl; simp at tagless
    exact (repeats_of_ne other (by decide) _).trans (repeats_of_ne (apart rfl) mark _).symm
  | [x, y, z] =>
    have other : '<' ≠ z := by rintro rfl; simp at tagless
    have differs : l ≠ z := apart rfl
    simp only [List.cons_append, List.nil_append, List.tail_cons, repeats, bne_iff_ne.mpr other, bne_iff_ne.mpr differs]
  | x :: y :: z :: u :: front => rfl

end Notes

section Comments

variable {a : Char}

/-- A sign is a character of one byte that is no part of a word. -/
def IsSign (c : Char) : Prop := c.toNat < 128 ∧ Unicode.isWord c = false

theorem isDocComment_eq {text : String} (sign : ∀ c, text.toList.head? = some c → IsSign c) :
    isDocComment text = repeats text.toList.tail := by
  rw [← String.ofList_toList (s := text)]
  generalize text.toList = chars at sign
  cases chars with
  | nil => rfl
  | cons c tail => rw [isDocComment_cons (sign c rfl).1, String.toList_ofList, List.tail_cons]

/-- Notes in a comment that opens with a sign are not mistaken for more of its opening. -/
theorem isDocComment_noted {text : String} (sign : ∀ c, text.toList.head? = some c → IsSign c)
    (tagless : '<' ∉ text.toList) :
    isDocComment (Markup.tagMatches notePattern text .commentNote) = isDocComment text := by
  rcases Markup.tagMatches_cases notePattern text (show Markup.WellNamed .commentNote by decide) with
    same | ⟨front, o, t, v, marks, more, reads, covers, matched, eq⟩
  · rw [same]
  · obtain ⟨⟨l, m, n, word, rfl, known⟩, outside⟩ := noteHead_of_covers covers matched
    have whole : text.toList = front ++ l :: m :: n :: (word ++ t.rest) := by
      have rest := reads.rest
      rw [matched.rest] at rest
      simpa [Spot.start] using rest
    have some_ : front ≠ [] := by
      rintro rfl
      have plain := (sign l (by rw [whole]; rfl)).2
      have letter : ∀ h ∈ noteHeads, Unicode.isWord h.1 = true := by decide
      rw [letter _ known] at plain
      cases plain
    have tagged : (Markup.tagMatches notePattern text .commentNote).toList = front ++ '<' :: 'C' :: 'O' ::
        ("MMENT_NOTE>".toList ++ l :: m :: n :: (word ++ more)) := by
      rw [eq]
      simp [Markup.openTag, Kind.commentNote]
    have head (behind : List Char) : (front ++ behind).head? = front.head? := by cases front <;> simp_all
    have last : o.before = front.getLast? := by simpa [Spot.start] using reads.before
    rw [isDocComment_eq sign, isDocComment_eq (by rw [tagged, head, ← head, ← whole]; exact sign), tagged, whole]
    rw [whole] at tagless
    refine repeats_noted known some_ (fun c eq => ?_) fun member => tagless (List.mem_append_left _ member)
    rw [last, eq] at outside
    exact outside

/-- The kind that the usual filters give a comment. -/
def commentKind (name : String) (ctx : FilterContext) (text : String) : Option Kind :=
  ((Grammar.withFilters name).filterToken ctx (.raw (some .comment) text)).kind

variable (name : String) (ctx : FilterContext)

/-- The filter for notes comes first: it is its text that the other one looks at. -/
theorem commentKind_eq (text : String) : commentKind name ctx text =
    let seen := if notePattern.isMatch text then Markup.tagMatches notePattern (Markup.escape text) .commentNote else text
    if isDocComment seen then some .docComment else some .comment := by
  have filters : (Grammar.withFilters name).filtersFor .comment = [
      ⟨some "comment-note", .comment, fun _ => commentNote⟩,
      ⟨some "comment-to-doc", .comment, fun _ => docComment⟩] := rfl
  have kind (t : Token) : (docComment t).kind = if isDocComment t.text then some .docComment else t.kind := by
    unfold docComment
    split <;> rfl
  simp only [commentKind, Grammar.filterToken, Token.raw, filters, List.foldl, kind, commentNote]
  by_cases note : notePattern.isMatch text
  · simp only [Markup.escapeToken, note, if_true, Bool.false_eq_true, if_false]
  · simp only [note, Bool.false_eq_true, if_false]

theorem isSign_escapeChars {a : Char} (sign : IsSign a) (tail : List Char) {c : Char}
    (head : (Markup.escapeChars (a :: tail)).head? = some c) : IsSign c := by
  cases reserved : isReserved a with
  | true =>
    obtain ⟨x, y, more, eq, _⟩ := escapeChars_reserved reserved tail
    rw [eq] at head
    cases head
    exact ⟨by decide, by decide +kernel⟩
  | false =>
    rw [escapeChars_plain reserved] at head
    cases head
    exact sign

/-- A comment that opens with a sign documents what follows if a second character is repeated, or an exclamation mark is
put in place of that, and not repeated again. If there is a note in it, neither of the first two may be reserved. -/
theorem commentKind_of_sign {a : Char} (sign : IsSign a) (tail : List Char) :
    commentKind name ctx (String.ofList (a :: tail)) =
      if repeats tail && (!notePattern.isMatch (String.ofList (a :: tail)) ||
          !isReserved a && !tail.head?.any isReserved) then some .docComment else some .comment := by
  rw [commentKind_eq]
  cases notePattern.isMatch (String.ofList (a :: tail)) with
  | false =>
    simp only [Bool.false_eq_true, if_false, isDocComment_cons sign.1, Bool.not_false, Bool.true_or, Bool.and_true]
  | true =>
    have chars : (Markup.escape (String.ofList (a :: tail))).toList = Markup.escapeChars (a :: tail) := by
      rw [Markup.escape, String.toList_ofList, String.toList_ofList]
    have head : ∀ c, (Markup.escape (String.ofList (a :: tail))).toList.head? = some c → IsSign c := by
      rw [chars]
      exact fun c => isSign_escapeChars sign tail
    have tagless : '<' ∉ (Markup.escape (String.ofList (a :: tail))).toList := by
      rw [chars]
      exact Markup.not_mem_escapeChars (.inl rfl) _
    simp only [if_true, isDocComment_noted head tagless, isDocComment_eq head, chars, repeats_escapeChars,
      Bool.not_true, Bool.false_or, Bool.and_assoc]

/-- Comments that open in one of three ways, with another character behind the opening, document what follows. -/
theorem commentKind_documented {b c d : Char} (opening : (b, c) ∈ [('*', '*'), ('/', '/'), ('/', '!')]) (other : d ≠ c)
    (rest : List Char) : commentKind name ctx (String.ofList ('/' :: b :: c :: d :: rest)) = some .docComment := by
  have sign : IsSign '/' := ⟨by decide, by decide +kernel⟩
  have plain : ∀ o ∈ [('*', '*'), ('/', '/'), ('/', '!')], isReserved o.1 = false ∧
      (o.1.toNat < 128 && (o.2 == o.1 || o.2 == '!')) = true := by decide
  obtain ⟨free, opens⟩ := plain _ opening
  rw [commentKind_of_sign name ctx sign, repeats, opens, bne_iff_ne.mpr other, List.head?_cons, Option.any_some, free]
  simp [isReserved]

/-- Two hashes open no such comment: as they are only one sign and its repetition, the character behind them would have
to be a hash again, or an exclamation mark. -/
theorem commentKind_hashes {d : Char} (hash : d ≠ '#') (mark : d ≠ '!') (rest : List Char) :
    commentKind name ctx (String.ofList ('#' :: '#' :: d :: rest)) = some .comment := by
  have sign : IsSign '#' := ⟨by decide, by decide +kernel⟩
  rw [commentKind_of_sign name ctx sign, repeats_of_ne hash mark]
  rfl

end Comments

end Gloss.Filter

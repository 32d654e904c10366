import Gloss.Language.Perl
import Gloss.Proofs.Scan.Handled
import Gloss.Proofs.Scan.Regions

/-!
Quoted texts. A body is recorded word by word or as one token, and if variables are replaced in it, as markup that shows
it. Whatever its delimiters are, what a quote-like operator reads is recorded up to where the cursor is left. If a body is
not closed, its region stays open.
-/
namespace Gloss.Language.Perl

open Text (Spot Source)
open Markup (Shows WellNamed escapeChars)

section Bodies

/-- A body ends in front of a character that closes it. -/
theorem bodyFrom_some {opening : Char} {depth : Nat} {escaped : Bool} {chars body : List Char}
    (found : bodyFrom opening depth escaped chars = some body) : ∃ rest, chars = body ++ closing opening :: rest := by
  induction chars generalizing depth escaped body with
  | nil => cases found
  | cons c chars ih =>
    -- In all cases but one the character belongs to the body.
    have more {depth : Nat} {escaped : Bool} (inner : (bodyFrom opening depth escaped chars).map (c :: ·) = some body) :
        ∃ rest, c :: chars = body ++ closing opening :: rest := by
      obtain ⟨_, within, rfl⟩ := Option.map_eq_some_iff.mp inner
      obtain ⟨rest, whole⟩ := ih within
      exact ⟨rest, by rw [whole]; rfl⟩
    unfold bodyFrom at found
    split at found
    · exact more found
    split at found
    · exact more found
    split at found
    · next closes =>
      split at found
      · obtain rfl := Option.some.inj found
        exact ⟨chars, by rw [closes]; rfl⟩
      · exact more found
    split at found
    · exact more found
    · exact more found

/-- Where there is text behind it, the cursor is at a spot of the source. -/
theorem spot_of_restChars {c : Cursor} (some_ : c.restChars ≠ []) :
    ∃ a : Spot, a.In c.source.chars ∧ a.pos = c.pos ∧ a.rest = c.restChars := by
  cases spot : c.source.spotAt? c.pos with
  | none => exact absurd (by rw [Cursor.restChars, spot]) some_
  | some a =>
    obtain ⟨inside, here⟩ := Source.spotAt?_eq_some.mp spot
    exact ⟨a, inside, here, by rw [Cursor.restChars, spot]⟩

/-- The spots around a body that is closed: in front of it, behind it and behind the character that closes it. -/
theorem spots_of_body? {c : Cursor} {opening : Char} {text : List Char} (found : body? opening c.restChars = some text) :
    ∃ a b d : Spot, a.In c.source.chars ∧ a.pos = c.pos ∧ Spot.Reads a text b ∧ Spot.Reads b [closing opening] d ∧
      b.pos = c.pos + Text.byteSize text ∧ d.pos = b.pos + (closing opening).utf8Size ∧
      c.slice c.pos b.pos = String.ofList text := by
  obtain ⟨behind, parts⟩ := bodyFrom_some found
  obtain ⟨a, inside, here, rest⟩ := spot_of_restChars (c := c) (by rw [parts]; simp)
  rw [← rest] at parts
  obtain ⟨b, reads⟩ : ∃ b, Spot.Reads a text b := ⟨_, .of_rest parts⟩
  obtain ⟨d, mark⟩ : ∃ d, Spot.Reads b [closing opening] d :=
    ⟨_, .of_rest (List.append_cancel_left (reads.rest.symm.trans parts))⟩
  refine ⟨a, b, d, inside, here, reads, mark, by rw [reads.pos, here], ?_, ?_⟩
  · rw [mark.pos, Text.byteSize_cons, Text.byteSize_nil, Nat.add_zero]
  · rw [← here]
    exact Source.slice_reads inside reads

/-- A body with its variables marked shows the body. -/
theorem marked_shows (body : List Char) :
    Shows (Markup.tagMatches variable_ (Markup.escape (String.ofList body)) .variable_).toList (escapeChars body) := by
  have text : (Markup.escape (String.ofList body)).toList = escapeChars body := by
    rw [Markup.escape, String.toList_ofList, String.toList_ofList]
  have plain : '<' ∉ (Markup.escape (String.ofList body)).toList := by
    rw [text]
    exact Markup.not_mem_escapeChars (.inl rfl) body
  have nests : Markup.Nests (fun _ => True) (Markup.escape (String.ofList body)).toList (escapeChars body) := by
    rw [text]
    exact .escapeChars body
  exact (Markup.tagMatches_nests (by decide) id (Pattern.cuts_of_plain plain) (fun _ _ _ _ => trivial) nests).shows

/-- Bodies are strings or regular expressions. -/
abbrev BodyKind (kind : Kind) : Prop := kind ∈ [Kind.string, Kind.regex]

theorem BodyKind.named {kind : Kind} (h : BodyKind kind) : WellNamed kind := by
  have all : ∀ kind ∈ [Kind.string, Kind.regex], WellNamed kind := by decide
  exact all kind h

theorem quoteBody_kind (op : String) : BodyKind (quoteBody op).1.kind := by
  unfold quoteBody
  split <;> decide

end Bodies

variable {src : Source} {start : Origin} {s : ScanState} {m : Match} {fail : ScanError → ScanState → Prop}

/-- A token that is markup already is a body with its variables marked. -/
def OfBody (t : Token) : Prop :=
  t.escaped → ∃ kind body, BodyKind kind ∧
    t = .markup (some kind) (Markup.tagMatches variable_ (Markup.escape (String.ofList body)) .variable_)

section Bodies

variable {upTo : Nat} {chars : List Char} {a b : Spot} {post : Unit → ScanState → Prop}

/-- One step over words records a word, or white space, and leaves less behind it. -/
theorem recordWords_cons (fuel : Nat) (c : Char) (rest : List Char) :
    ∃ kind run behind, c :: rest = run ++ behind ∧ behind.length ≤ rest.length ∧ (∀ k, kind = some k → k = Kind.string) ∧
      recordWords (fuel + 1) (c :: rest) = (do
        Scan.record kind (String.ofList run)
        recordWords fuel behind) := by
  refine ⟨_, _, _, List.takeWhile_append_dropWhile.symm, ?_, ?_, rfl⟩
  · rw [List.dropWhile_cons_of_pos (by simp)]
    exact (List.dropWhile_suffix _).length_le
  · split <;> simp [eq_comm]

/-- The words of a text and the white space between them are recorded, all of it. -/
theorem yields_recordWords {fuel : Nat} (h : Recorded src OfBody start a.pos s) (inside : a.In src.chars)
    (reads : Spot.Reads a chars b) (enough : chars.length ≤ fuel)
    (next : ∀ s', Recorded src OfBody start b.pos s' → s'.cursor = s.cursor → s'.regions = s.regions → post () s') :
    Yields (recordWords fuel chars) s post fail := by
  induction fuel generalizing chars a s with
  | zero =>
    obtain rfl := List.length_eq_zero_iff.mp (Nat.le_zero.mp enough)
    rw [← reads.eq_of_nil] at h
    exact next s h rfl rfl
  | succ fuel ih =>
    cases chars with
    | nil =>
      rw [← reads.eq_of_nil] at h
      exact next s h rfl rfl
    | cons c rest =>
      obtain ⟨kind, run, behind, parts, shorter, kinds, step⟩ := recordWords_cons fuel c rest
      rw [parts] at reads
      obtain ⟨u, first, second⟩ := reads.split
      have insideU := inside.reads first
      have named : ∀ k, kind = some k → WellNamed k := by
        intro k known
        rw [kinds k known]
        decide
      have pushed := h.pushText (Source.isBoundary_of_in insideU) first.pos_le
        (by rw [String.toList_ofList, Source.between_reads inside first]) named
      rw [List.length_cons] at enough
      rw [step]
      refine yields_bind.mpr (yields_modify.mpr (ih pushed insideU second (by omega) ?_))
      intro s' recorded cursor regions
      exact next s' recorded (by simp [cursor]) (by simp [regions])

theorem yields_recordBody {body : Body} (h : Recorded src OfBody start a.pos s) (inside : a.In src.chars)
    (reads : Spot.Reads a chars b) (isBody : BodyKind body.kind) (interpolation : Bool)
    (next : ∀ s', Recorded src OfBody start b.pos s' → s'.cursor = s.cursor → s'.regions = s.regions → post () s') :
    Yields (recordBody body interpolation (String.ofList chars)) s post fail := by
  have boundary := Source.isBoundary_of_in (inside.reads reads)
  cases body with
  | words =>
    simp only [recordBody]
    rw [String.toList_ofList]
    exact yields_recordWords h inside reads (by simp) next
  | as kind =>
    have names : ∀ k, some kind = some k → WellNamed k := by
      rintro _ ⟨⟩
      exact isBody.named
    simp only [recordBody]
    split
    · have ofBody : OfBody (.markup (some kind)
          (Markup.tagMatches variable_ (Markup.escape (String.ofList chars)) .variable_)) := fun _ => ⟨kind, chars, isBody, rfl⟩
      refine yields_modify.mpr (next _ (h.push boundary reads.pos_le ofBody ?_ names) (by simp) (by simp))
      rw [Source.between_reads inside reads]
      exact marked_shows chars
    · refine yields_modify.mpr (next _ (h.pushText boundary reads.pos_le ?_ names) (by simp) (by simp))
      rw [String.toList_ofList, Source.between_reads inside reads]

end Bodies

/-- The source is recorded up to the cursor, and open regions can be given up. -/
structure Keeps (src : Source) (start : Origin) (s : ScanState) : Prop where
  recorded : Recorded src OfBody start s.pos s
  shown : Recorded.Shown Perl.grammar s.regions

/-- The cursor is behind a match, up to which the source is recorded. -/
structure Behind (src : Source) (start : Origin) (m : Match) (s : ScanState) : Prop where
  recorded : Recorded src OfBody start m.start s
  shown : Recorded.Shown Perl.grammar s.regions
  spans : m.Spans src
  pos : s.pos = m.stop

namespace Keeps

theorem moved (h : Keeps src start s) {s' : ScanState} (recorded : Recorded src OfBody start s'.pos s')
    (regions : s'.regions = s.regions) : Keeps src start s' := by
  refine ⟨recorded, ?_⟩
  rw [regions]
  exact h.shown

theorem withCursor (h : Keeps src start s) {c : Cursor} (sound : Cursor.Sound src c) (pos : c.pos = s.pos) :
    Keeps src start { s with cursor := c } := by
  have here : ({ s with cursor := c } : ScanState).pos = s.pos := pos
  have recorded := h.recorded.withCursor sound
  rw [← here] at recorded
  exact h.moved recorded rfl

theorem accept (h : Keeps src start s) (spans : m.Spans src) (here : m.start = s.pos)
    {post : Unit → ScanState → Prop} (next : ∀ s', Behind src start m s' → post () s') :
    Yields (Scan.accept m) s post fail := by
  refine yields_accept h.recorded.sound spans ?_
  intro c _ sound pos _
  have recorded := h.recorded.withCursor sound
  rw [← here] at recorded
  exact next _ ⟨recorded, h.shown, spans, pos⟩

theorem openQuoted (h : Keeps src start s) (opening : Char) {body : Body} (isBody : BodyKind body.kind)
    (interpolation : Bool) {post : Unit → ScanState → Prop}
    (next : ∀ s', Keeps src start s' → s'.pos = s.pos → post () s') :
    Yields (Perl.openQuoted opening body interpolation) s post fail := by
  simp only [Perl.openQuoted]
  refine yields_bind.mpr (yields_ofCursor.mpr (h.recorded.pushRegion _ ?_))
  intro s' recorded cursor regions
  have here : s'.pos = s.pos := congrArg Cursor.pos cursor
  rw [← here] at recorded
  refine next s' ⟨recorded, ?_⟩ here
  rw [regions]
  intro r member kind shown
  rcases List.mem_cons.mp member with rfl | member
  · obtain rfl := Option.some.inj shown
    exact isBody.named
  · exact h.shown r member kind shown

/-- A body and the character that closes it are recorded, and the region is closed. -/
theorem closeQuoted (h : Keeps src start s) {r : Region} {outer : List Region} (open_ : s.regions = r :: outer)
    {text : List Char} {closes : Char} {a b c : Spot} (inside : a.In src.chars) (here : a.pos = s.pos)
    (reads : Spot.Reads a text b) (mark : Spot.Reads b [closes] c) {body : Body} (isBody : BodyKind body.kind)
    (interpolation : Bool) {post : Bool → ScanState → Prop}
    (next : ∀ s', Keeps src start s' → s'.pos = c.pos → post true s') :
    Yields (do
      recordBody body interpolation (String.ofList text)
      Scan.setPos c.pos
      Scan.record (some .delimiter) closes.toString
      let _ ← Scan.popRegion
      return true) s post fail := by
  have recorded := h.recorded
  rw [← here] at recorded
  have insideB := inside.reads reads
  have boundary := Source.isBoundary_of_in (insideB.reads mark)
  refine yields_bind.mpr (yields_recordBody recorded inside reads isBody interpolation ?_)
  intro s₁ recorded₁ cursor₁ regions₁
  refine yields_bind.mpr (yields_setPos recorded₁.sound boundary ?_)
  intro d sound posD
  have text_eq : closes.toString.toList = src.between b.pos c.pos := by
    rw [Source.between_reads insideB mark, Char.toString, String.toList_singleton]
  have pushed := (recorded₁.withCursor sound).pushText boundary mark.pos_le text_eq
    (by decide : ∀ k, some Kind.delimiter = some k → WellNamed k)
  have still : (ScanState.record { s₁ with cursor := d } (.raw (some .delimiter) closes.toString)).regions = r :: outer := by
    rw [ScanState.record_regions]
    exact regions₁.trans open_
  refine yields_bind.mpr (yields_modify.mpr (yields_bind.mpr (pushed.popRegion still ?_)))
  intro s₂ recorded₂ cursor₂ regions₂
  have at_ : s₂.pos = c.pos := by
    rw [ScanState.pos, cursor₂, ScanState.record_cursor]
    exact posD
  rw [← at_] at recorded₂
  refine next s₂ ⟨recorded₂, ?_⟩ at_
  rw [regions₂]
  exact fun r' member => h.shown r' (by rw [open_]; exact List.mem_cons_of_mem _ member)

/-- A body is recorded up to where the cursor is left; if it is not closed, nothing is. -/
theorem consumeQuoted (h : Keeps src start s) {body : Body} (isBody : BodyKind body.kind)
    {post : Bool → ScanState → Prop} (next : ∀ closed s', Keeps src start s' → s.pos ≤ s'.pos → post closed s') :
    Yields (Perl.consumeQuoted body) s post fail := by
  have stays : ∀ closed, post closed s := fun closed => next closed s h (Nat.le_refl _)
  simp only [Perl.consumeQuoted]
  refine yields_bind.mpr (yields_bind.mpr (yields_get.mpr (yields_pure.mpr ?_)))
  cases open_ : s.regions with
  | nil => exact stays false
  | cons r outer =>
    simp only [List.head?_cons]
    split
    · exact stays false
    · next opening _ =>
      refine yields_bind.mpr (yields_ofCursor.mpr ?_)
      split
      · exact stays false
      · next text found =>
        obtain ⟨a, b, c, inside, here, reads, mark, atB, atC, slice⟩ := spots_of_body? found
        rw [h.recorded.sound.source] at inside
        refine yields_bind.mpr (yields_ofCursor.mpr (yields_bind.mpr (yields_ofCursor.mpr ?_)))
        rw [← atB, ← atC, slice]
        refine h.closeQuoted open_ inside here reads mark isBody r.interpolation ?_
        intro s' keeps at_
        have le : a.pos ≤ c.pos := Nat.le_trans reads.pos_le mark.pos_le
        rw [here] at le
        exact next true s' keeps (by rw [at_]; exact le)

theorem recordFlags (h : Keeps src start s) (flags : Pattern) {post : Unit → ScanState → Prop}
    (next : ∀ s', Keeps src start s' → s.pos ≤ s'.pos → post () s') : Yields (Perl.recordFlags flags) s post fail := by
  refine h.recorded.scanAndRecord flags (by decide) ?_
  intro s' recorded le regions
  exact next s' (h.moved recorded regions) le

end Keeps

/-- The match that the cursor is behind is recorded. -/
theorem Behind.record (h : Behind src start m s) {kind : Kind} (named : WellNamed kind)
    {post : Unit → ScanState → Prop} (next : ∀ s', Keeps src start s' → s'.pos = m.stop → post () s') :
    Yields (Scan.recordMatch (some kind) m) s post fail := by
  have names : ∀ k, some kind = some k → WellNamed k := by
    rintro _ ⟨⟩
    exact named
  refine h.recorded.recordBehind h.spans h.pos names ?_
  intro s' recorded at_ regions
  refine next s' ⟨recorded, ?_⟩ at_
  rw [regions]
  exact h.shown

namespace Keeps

theorem takeSlash (h : Keeps src start s) (spans : m.Spans src) (here : m.start = s.pos)
    {post : Unit → ScanState → Prop} (next : ∀ s', Keeps src start s' → m.stop ≤ s'.pos → post () s') :
    Yields (Perl.takeSlash m) s post fail := by
  have isBody : BodyKind (Body.as .regex).kind := by decide
  simp only [Perl.takeSlash]
  refine yields_bind.mpr (yields_get.mpr (yields_bind.mpr (h.accept spans here ?_)))
  intro s₁ behind
  split
  · exact behind.record (by decide) fun s' keeps at_ => next s' keeps (Nat.le_of_eq at_.symm)
  · refine yields_bind.mpr (behind.record (by decide) ?_)
    intro s₂ keeps₂ at₂
    refine yields_bind.mpr (keeps₂.openQuoted '/' isBody true ?_)
    intro s₃ keeps₃ at₃
    refine yields_bind.mpr (keeps₃.consumeQuoted isBody ?_)
    intro closed s₄ keeps₄ le₄
    split
    · refine keeps₄.recordFlags regexFlags ?_
      intro s' keeps le
      exact next s' keeps (by omega)
    · exact next s₄ keeps₄ (by omega)

theorem openSecond (h : Keeps src start s) (opening : Char) (interpolation : Bool) {post : Bool → ScanState → Prop}
    (next : ∀ opened s', Keeps src start s' → s.pos ≤ s'.pos → post opened s') :
    Yields (Perl.openSecond opening interpolation) s post fail := by
  have isBody : BodyKind (Body.as .string).kind := by decide
  simp only [Perl.openSecond]
  refine yields_bind.mpr (h.recorded.skipBlank ?_)
  intro s₁ recorded le regions _
  have keeps := h.moved recorded regions
  split
  · refine yields_bind.mpr (keeps.openQuoted opening isBody interpolation ?_)
    intro s' keeps' at_
    exact next true s' keeps' (by omega)
  · refine yields_bind.mpr (yields_scan keeps.recorded.sound secondDelimiter ?_ ?_)
    · intro c sound pos _
      have here : ({ s₁ with cursor := c } : ScanState).pos = s₁.pos := pos
      exact next false _ (keeps.withCursor sound pos) (by omega)
    · intro m c a b marks sound pos occurs here
      have start_ : m.start = s₁.pos := occurs.start.trans here
      have above := occurs.spans.le
      rw [← start_] at recorded
      refine yields_bind.mpr (Behind.record ⟨recorded.withCursor sound, keeps.shown, occurs.spans, pos⟩ (by decide) ?_)
      intro s₂ keeps₂ at₂
      refine yields_bind.mpr (yields_ofCursor.mpr (yields_bind.mpr (keeps₂.openQuoted _ isBody interpolation ?_)))
      intro s' keeps' at_
      exact next true s' keeps' (by omega)

theorem secondBody (h : Keeps src start s) (op : String) (opening : Char) (interpolation : Bool)
    {post : Bool → ScanState → Prop} (next : ∀ complete s', Keeps src start s' → s.pos ≤ s'.pos → post complete s') :
    Yields (Perl.secondBody op opening interpolation) s post fail := by
  simp only [Perl.secondBody]
  split
  · refine yields_bind.mpr (h.openSecond opening interpolation ?_)
    intro opened s₁ keeps₁ le₁
    split
    · refine keeps₁.consumeQuoted (by decide) ?_
      intro closed s' keeps le
      exact next closed s' keeps (by omega)
    · exact next false s₁ keeps₁ le₁
  · exact next true s h (Nat.le_refl _)

theorem takeQuoteLike (h : Keeps src start s) (spans : m.Spans src) (here : m.start = s.pos)
    {post : Unit → ScanState → Prop} (next : ∀ s', Keeps src start s' → m.stop ≤ s'.pos → post () s') :
    Yields (Perl.takeQuoteLike m) s post fail := by
  simp only [Perl.takeQuoteLike]
  refine yields_bind.mpr (h.accept spans here ?_)
  intro s₁ behind
  refine yields_bind.mpr (behind.record (by decide) ?_)
  intro s₂ keeps₂ at₂
  refine yields_bind.mpr (yields_ofCursor.mpr (yields_bind.mpr (yields_ofCursor.mpr ?_)))
  generalize m.groupText s₂.cursor.source 1 = op
  split
  · exact next s₂ keeps₂ (by omega)
  · next opening _ =>
    have isBody := quoteBody_kind op
    refine yields_bind.mpr (keeps₂.openQuoted opening isBody _ ?_)
    intro s₃ keeps₃ at₃
    refine yields_bind.mpr (keeps₃.consumeQuoted isBody ?_)
    intro closed s₄ keeps₄ le₄
    split
    · refine yields_bind.mpr (keeps₄.secondBody op opening _ ?_)
      intro complete s₅ keeps₅ le₅
      split
      · split
        · refine keeps₅.recordFlags quoteFlags ?_
          intro s' keeps le
          exact next s' keeps (by omega)
        · exact next s₅ keeps₅ (by omega)
      · exact next s₅ keeps₅ (by omega)
    · exact next s₄ keeps₄ (by omega)

end Keeps

end Gloss.Language.Perl

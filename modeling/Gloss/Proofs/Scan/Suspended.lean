import Gloss.Proofs.Regex.Words
import Gloss.Proofs.Scan.Handover

/-!
Tokens that are cut. A token in which the tag of a server language stands is recorded up to the tag and taken
up again later by a pattern of its kind; one in which the closing tag of the markup around stands is recorded up
to that tag.
-/
namespace Gloss

open Text (Spot Source)
open Markup (WellNamed)

namespace Text

/-- The offset of a part is behind the characters before its first occurrence. -/
theorem indexFrom_some {part text : List Char} {start n : Nat} (found : indexFrom part start text = some n) :
    ∃ front back, text = front ++ part ++ back ∧ n = start + byteSize front ∧
      ∀ a b, text = a ++ part ++ b → byteSize front ≤ byteSize a := by
  induction text generalizing start with
  | nil =>
    simp only [indexFrom] at found
    split at found
    · next empty =>
      cases found
      rw [List.isEmpty_iff.mp empty]
      exact ⟨[], [], rfl, rfl, fun a b _ => Nat.zero_le _⟩
    · cases found
  | cons c text ih =>
    simp only [indexFrom] at found
    split at found
    · next here =>
      cases found
      obtain ⟨back, eq⟩ := List.isPrefixOf_iff_prefix.mp here
      exact ⟨[], back, eq.symm, rfl, fun a b _ => Nat.zero_le _⟩
    · next other =>
      obtain ⟨front, back, rfl, rfl, least⟩ := ih found
      refine ⟨c :: front, back, rfl, ?_, ?_⟩
      · rw [byteSize_cons]
        omega
      · intro a b eq
        cases a with
        | nil =>
          exfalso
          apply other
          rw [List.isPrefixOf_iff_prefix, eq]
          exact ⟨b, rfl⟩
        | cons d a =>
          simp only [List.cons_append, List.cons.injEq] at eq
          obtain ⟨rfl, eq⟩ := eq
          rw [byteSize_cons, byteSize_cons]
          have := least a b eq
          omega

theorem indexOf?_some {part text : String} {n : Nat} (found : indexOf? part text = some n) :
    ∃ front back, text.toList = front ++ part.toList ++ back ∧ n = byteSize front ∧
      ∀ a b, text.toList = a ++ part.toList ++ b → byteSize front ≤ byteSize a := by
  obtain ⟨front, back, eq, start, least⟩ := indexFrom_some found
  exact ⟨front, back, eq, by omega, least⟩

theorem indexFrom_none {part text : List Char} {start : Nat} (missed : indexFrom part start text = none)
    (a b : List Char) : text ≠ a ++ part ++ b := by
  induction text generalizing start a with
  | nil =>
    intro eq
    have empty : part = [] := by
      have := congrArg List.length eq
      simp only [List.length_nil, List.length_append] at this
      exact List.length_eq_zero_iff.mp (by omega)
    simp [indexFrom, empty] at missed
  | cons c text ih =>
    intro eq
    simp only [indexFrom] at missed
    split at missed
    · cases missed
    · next other =>
      cases a with
      | nil =>
        apply other
        rw [List.isPrefixOf_iff_prefix, eq]
        exact ⟨b, rfl⟩
      | cons d a =>
        simp only [List.cons_append, List.cons.injEq] at eq
        exact ih missed a eq.2

theorem indexOf?_none {part text : String} (missed : indexOf? part text = none) (a b : List Char) :
    text.toList ≠ a ++ part.toList ++ b :=
  indexFrom_none missed a b

end Text

/-- A front of a match that covers a stretch of the source. -/
theorem Match.Spans.front {src : Source} {m : Match} (h : m.Spans src) {a b : List Char}
    (text : (m.text src).toList = a ++ b) :
    src.isBoundary (m.start + Text.byteSize a) ∧ src.between m.start (m.start + Text.byteSize a) = a ∧
      m.start + Text.byteSize a + Text.byteSize b = m.stop := by
  obtain ⟨s, inside, start⟩ := Source.isBoundary_iff.mp h.start
  obtain ⟨t, insideT, stop⟩ := Source.isBoundary_iff.mp h.stop
  have le := h.le
  obtain ⟨w, reads⟩ := inside.between insideT (by omega)
  rw [h.text_eq, ← start, ← stop, Source.between_reads inside reads] at text
  subst text
  obtain ⟨u, first, second⟩ := reads.split
  have posU := first.pos
  have posT := second.pos
  have here : m.start + Text.byteSize a = u.pos := by omega
  rw [here, ← start]
  exact ⟨Source.isBoundary_of_in (inside.reads first), Source.between_reads inside first, by omega⟩

/-- A word stands at an offset of the source. -/
def Text.Source.At (src : Source) (word : String) (pos : Nat) : Prop :=
  ∃ s : Spot, s.In src.chars ∧ s.pos = pos ∧ ∃ back, s.rest = word.toList ++ back

/-- A word in a match stands in the source. -/
theorem Match.Spans.at_ {src : Source} {m : Match} (h : m.Spans src) {word : String} {a b : List Char}
    (text : (m.text src).toList = a ++ word.toList ++ b) : src.At word (m.start + Text.byteSize a) := by
  obtain ⟨s, inside, start⟩ := Source.isBoundary_iff.mp h.start
  obtain ⟨t, insideT, stop⟩ := Source.isBoundary_iff.mp h.stop
  have le := h.le
  obtain ⟨w, reads⟩ := inside.between insideT (by omega)
  rw [h.text_eq, ← start, ← stop, Source.between_reads inside reads, List.append_assoc] at text
  subst text
  obtain ⟨u, first, second⟩ := reads.split
  have pos := first.pos
  refine ⟨u, inside.reads first, by omega, b ++ t.rest, ?_⟩
  rw [second.rest, List.append_assoc]

namespace Pattern.Occurs

variable {p : Pattern} {src : Source} {m : Match} {a b : Spot} {marks : Regex.Marks}

/-- A match that cannot hold both characters of the server's tag does not hold the tag. -/
theorem no_tag (h : p.Occurs src m a b marks) (separates : p.parsed.regex.separates '<' '?') :
    Text.indexOf? "<?" (m.text src) = none := by
  obtain ⟨w, reads, absent⟩ := Regex.Matches.separates separates h.covers
  rw [h.text_eq reads]
  cases found : Text.indexOf? "<?" (String.ofList w) with
  | none => rfl
  | some n =>
    exfalso
    obtain ⟨front, back, text, _, _⟩ := Text.indexOf?_some found
    rw [String.toList_ofList] at text
    have tag : "<?".toList = ['<', '?'] := rfl
    rw [tag] at text
    rcases absent with absent | absent <;> simp [text] at absent

/-- The match of a pattern that reads something is not empty. -/
theorem start_lt_stop (h : p.Occurs src m a b marks) (consumes : p.parsed.regex.consumes) : m.start < m.stop := by
  rw [h.start, h.stop]
  exact Regex.Matches.consumes consumes h.covers

end Pattern.Occurs

namespace Suspend

variable {src : Source} {Allowed : Token → Prop} {start : Origin} {s : ScanState} {x : Suspension} {g : Grammar}
  {e : Embedding} {kind : Kind} {m : Match} {post : Bool → ScanState × Suspension → Prop}
  {fail : ScanError → ScanState × Suspension → Prop}

/-- The state in which the front of a match is recorded, and the cursor is where the front ends. -/
def fronted (s : ScanState) (kind : Kind) (front : List Char) (c : Cursor) : ScanState :=
  { s.record (.raw (some kind) (String.ofList front)) with cursor := c }

/-- The front of a match is recorded, and the cursor moves to where the front ends. -/
theorem yields_front (sound : s.cursor.Sound src) (spans : m.Spans src) {a b : List Char}
    (text : (m.text src).toList = a ++ b) {post : Unit → ScanState → Prop} {fail : ScanError → ScanState → Prop}
    (next : ∀ c : Cursor, c.Sound src → c.pos = m.start + Text.byteSize a →
      post () (fronted s kind a c)) :
    Yields (recordFront kind m (Text.byteSize a)) s post fail := by
  obtain ⟨boundary, _, _⟩ := spans.front text
  simp only [recordFront]
  refine yields_bind.mpr (yields_ofCursor.mpr ?_)
  rw [sound.source, text, Text.takeBytes_append]
  refine yields_bind.mpr ?_
  show Yields (Scan.setPos _) (s.record (.raw (some kind) (String.ofList a))) post fail
  exact yields_setPos (by simpa using sound) boundary next

/-- The source is recorded up to where the front ends. -/
theorem recorded_fronted (h : Recorded src Allowed start m.start s) (spans : m.Spans src) (named : WellNamed kind)
    {a b : List Char} (text : (m.text src).toList = a ++ b) {c : Cursor} (sound : c.Sound src) :
    Recorded src Allowed start (m.start + Text.byteSize a) (fronted s kind a c) := by
  obtain ⟨boundary, between, _⟩ := spans.front text
  have recorded : Recorded src Allowed start (m.start + Text.byteSize a)
      (s.record (.raw (some kind) (String.ofList a))) := by
    refine h.pushText boundary (Nat.le_add_right _ _) ?_ ?_
    · rw [String.toList_ofList]
      exact between.symm
    · intro k eq
      cases eq
      exact named
  exact recorded.withCursor sound

@[simp] theorem fronted_regions {front : List Char} {c : Cursor} : (fronted s kind front c).regions = s.regions := by
  simp [fronted]

/-- Recording the front of a match moves to where the front ends. -/
theorem yields_recordFront (h : Recorded src Allowed start m.start s) (spans : m.Spans src) (named : WellNamed kind)
    {a b : List Char} (text : (m.text src).toList = a ++ b) {post : Unit → ScanState → Prop}
    {fail : ScanError → ScanState → Prop}
    (next : ∀ s', Recorded src Allowed start (m.start + Text.byteSize a) s' →
      s'.pos = m.start + Text.byteSize a → s'.regions = s.regions → post () s') :
    Yields (recordFront kind m (Text.byteSize a)) s post fail :=
  yields_front h.sound spans text fun _ sound pos => next _ (recorded_fronted h spans named text sound) pos fronted_regions

/-- A match without the server's tag is left alone. Of one with it the front is recorded up to the tag, and the scan leaves
there; it fails there if what was cut could not be taken up again. -/
theorem yields_break (sound : s.cursor.Sound src) (spans : m.Spans src)
    (whole : (e.server → Text.indexOf? e.serverTag (m.text src) = none) → post false (s, x))
    (cut : ∀ (a b : List Char) (c : Cursor), e.server → (m.text src).toList = a ++ e.serverTag.toList ++ b →
      (∀ a' b', (m.text src).toList = a' ++ e.serverTag.toList ++ b' → Text.byteSize a ≤ Text.byteSize a') →
      c.Sound src → c.pos = m.start + Text.byteSize a →
      if (g.recovery.get? kind).isSome then post true (fronted s kind a c, { interrupted := true, cut := some kind })
      else fail (.noRecovery kind) (fronted s kind a c, x)) :
    Yields (serverBreak g e kind m) (s, x) post fail := by
  simp only [serverBreak]
  by_cases server : e.server
  · simp only [server, Bool.not_true, Bool.false_eq_true, if_false]
    refine yields_bind.mpr (yields_lift.mpr (yields_ofCursor.mpr ?_))
    rw [sound.source]
    cases found : Text.indexOf? e.serverTag (m.text src) with
    | none => exact whole fun _ => found
    | some bytes =>
      obtain ⟨a, b, text, rfl, least⟩ := Text.indexOf?_some found
      have parts := text
      rw [List.append_assoc] at parts
      refine yields_bind.mpr (yields_lift.mpr (yields_front sound spans parts ?_))
      intro c sound' pos
      have left := cut a b c server text least sound' pos
      refine yields_bind.mpr ?_
      simp only [leave, Suspension.leave]
      cases known : g.recovery.get? kind with
      | none =>
        simp only [known, Option.isSome_none, Bool.false_eq_true, if_false] at left
        exact left
      | some p =>
        simp only [known, Option.isSome_some, if_true] at left
        exact left
  · simp only [server, Bool.not_false, if_true]
    exact whole fun on => absurd on server

/-- A match without the server's tag is left alone, and one with it is recorded up to the tag. -/
theorem yields_serverBreak (h : Recorded src Allowed start m.start s) (spans : m.Spans src) (named : WellNamed kind)
    (recovers : e.server → Text.indexOf? e.serverTag (m.text src) ≠ none → (g.recovery.get? kind).isSome)
    (whole : (e.server → Text.indexOf? e.serverTag (m.text src) = none) → post false (s, x))
    (cut : ∀ (a b : List Char) (s' : ScanState), e.server →
      (m.text src).toList = a ++ e.serverTag.toList ++ b →
      (∀ a' b', (m.text src).toList = a' ++ e.serverTag.toList ++ b' → Text.byteSize a ≤ Text.byteSize a') →
      Recorded src Allowed start (m.start + Text.byteSize a) s' → s'.pos = m.start + Text.byteSize a →
      s'.regions = s.regions → post true (s', { interrupted := true, cut := some kind })) :
    Yields (serverBreak g e kind m) (s, x) post fail := by
  refine yields_break h.sound spans whole ?_
  intro a b c server text least sound pos
  have known : (g.recovery.get? kind).isSome :=
    recovers server fun missed => Text.indexOf?_none missed _ _ text
  have parts := text
  rw [List.append_assoc] at parts
  rw [if_pos known]
  exact cut a b _ server text least (recorded_fronted h spans named parts sound) pos fronted_regions

/-- The parts of a text around what a pattern finds in it. -/
theorem find?_some {p : Pattern} {text : String} {found : Match} (eq : p.find? text = some found) :
    ∃ (a b : List Char) (o t : Spot) (marks : Regex.Marks), text.toList = a ++ b ∧ found.start = Text.byteSize a ∧
      Spot.Reads (Spot.start text.toList) a o ∧ p.Covers o t marks ∧
      ∀ u v, Spot.Reads (Spot.start text.toList) v u → u.pos < o.pos → ¬ p.Starts u := by
  simp only [Pattern.find?, Option.map_eq_some_iff, Prod.exists] at eq
  obtain ⟨m, t, found', rfl⟩ := eq
  obtain ⟨o, a, marks, reads, reports, rfl, before⟩ := Pattern.findSpot?_some found'
  refine ⟨a, o.rest, o, t, marks, reads.rest, ?_, reads, reports.covers, before⟩
  have pos := reads.pos
  simp only [Spot.start] at pos
  show o.pos = Text.byteSize a
  omega

/-- A match without the closing tag is left alone, and one with it is recorded up to the tag. -/
theorem yields_scriptBreak (h : Recorded src Allowed start m.start s) (spans : m.Spans src) (named : WellNamed kind)
    {close : Pattern} (whole : (e.html → close.find? (m.text src) = none) → post false (s, x))
    (cut : ∀ (found : Match) (a b : List Char) (s' : ScanState), e.html → close.find? (m.text src) = some found →
      (m.text src).toList = a ++ b → found.start = Text.byteSize a →
      Recorded src Allowed start (m.start + found.start) s' → s'.pos = m.start + found.start →
      s'.regions = s.regions → post true (s', {})) :
    Yields (scriptBreak e close kind m) (s, x) post fail := by
  simp only [scriptBreak]
  by_cases html : e.html
  · simp only [html, Bool.not_true, Bool.false_eq_true, if_false]
    refine yields_bind.mpr (yields_lift.mpr (yields_ofCursor.mpr ?_))
    rw [h.sound.source]
    cases found : close.find? (m.text src) with
    | none => exact whole fun _ => found
    | some f =>
      obtain ⟨a, b, _, _, _, text, start_, _⟩ := find?_some found
      simp only
      rw [start_]
      refine yields_bind.mpr (yields_lift.mpr (yields_recordFront h spans named text ?_))
      intro s' recorded pos regions
      rw [← start_] at recorded pos
      exact cut f a b s' html found text start_ recorded pos regions
  · simp only [html, Bool.not_false, if_true]
    exact whole fun on => absurd on html

/-- A token that was cut is taken up by the pattern of its kind. The scan fails if there is no such pattern, or if it does
not match where the scan goes on. -/
theorem yields_takeUp (sound : s.cursor.Sound src) {post : Option (Kind × Match) → ScanState × Suspension → Prop}
    (none_ : x.cut = none → post none (s, x))
    (some_ : ∀ (kind : Kind) (p : Pattern) (m : Match) (c : Cursor) (a b : Spot) (marks : Regex.Marks),
      x.cut = some kind → g.recovery.get? kind = some p → c.Sound src → c.pos = m.stop →
      p.Occurs src m a b marks → a.pos = s.pos → post (some (kind, m)) ({ s with cursor := c }, {}))
    (unknown : ∀ kind, x.cut = some kind → g.recovery.get? kind = none → fail (.noRecovery kind) (s, {}))
    (missed : ∀ (kind : Kind) (p : Pattern) (c : Cursor), x.cut = some kind → g.recovery.get? kind = some p →
      c.Sound src → c.pos = s.pos → (∀ u : Spot, u.In src.chars → u.pos = s.pos → ¬ p.Starts u) →
      fail (.recoveryFailed kind s.pos) ({ s with cursor := c }, {})) :
    Yields (resume g) (s, x) post fail := by
  simp only [resume]
  have found : Yields suspension (s, x) (fun y p => x = y ∧ (s, x) = p) (fail : ScanError → _ → Prop) := ⟨rfl, rfl⟩
  refine yields_bind.mpr (found.mono ?_ fun _ _ failed => failed)
  rintro _ _ ⟨rfl, rfl⟩
  cases cut : x.cut with
  | none => exact none_ cut
  | some kind =>
    refine yields_bind.mpr ?_
    show Yields _ (s, ({} : Suspension)) post fail
    refine yields_bind.mpr (yields_lift.mpr (yields_ofCursor.mpr ?_))
    cases known : g.recovery.get? kind with
    | none => exact unknown kind cut known
    | some p =>
      refine yields_bind.mpr (yields_lift.mpr (yields_scan sound p ?_ ?_))
      · intro c sound' pos absent
        exact missed kind p c cut known sound' pos absent
      · intro m c a b marks sound' pos occurs here
        exact some_ kind p m c a b marks cut known sound' pos occurs here

/-- A token that was cut is taken up by the pattern of its kind, which matches everywhere. -/
theorem yields_resume (sound : s.cursor.Sound src)
    (total : ∀ kind, x.cut = some kind → ∃ p, g.recovery.get? kind = some p ∧ ∀ u : Spot, p.Starts u)
    {post : Option (Kind × Match) → ScanState × Suspension → Prop}
    (none_ : x.cut = none → post none (s, x))
    (some_ : ∀ (kind : Kind) (p : Pattern) (m : Match) (c : Cursor) (a b : Spot) (marks : Regex.Marks),
      x.cut = some kind → g.recovery.get? kind = some p → c.Sound src → c.pos = m.stop →
      p.Occurs src m a b marks → a.pos = s.pos → post (some (kind, m)) ({ s with cursor := c }, {})) :
    Yields (resume g) (s, x) post fail := by
  refine yields_takeUp sound none_ some_ ?_ ?_
  · intro kind cut unknown
    obtain ⟨p, known, _⟩ := total kind cut
    rw [unknown] at known
    cases known
  · intro kind p c cut known _ _ absent
    obtain ⟨q, known', everywhere⟩ := total kind cut
    obtain rfl : p = q := Option.some.inj (known.symm.trans known')
    obtain ⟨u, inside, pos, _⟩ := sound.spot
    exact absurd (everywhere u) (absent u inside pos)

end Suspend

end Gloss

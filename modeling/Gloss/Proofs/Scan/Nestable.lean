import Gloss.Proofs.Scan.Delimiters
import Gloss.Proofs.Scan.Suspended

/-!
Constructs that may contain themselves. Where the opening matches at the cursor, the rounds over the construct come to
its end, and what they have passed is recorded as one token. With an opening that matches no empty text the rounds do
come to an end, at the latest at the end of the source.
-/
namespace Gloss

open Text (Spot Source)
open Markup (WellNamed)

/-- The pattern matches no empty text. -/
def Pattern.ReadsAny (p : Pattern) : Prop :=
  ∀ (src : Source) (pos : Nat) (m : Match), p.findFrom? src pos = some m → m.start < m.stop

theorem Pattern.readsAny_of_consumes {p : Pattern} (consumes : p.parsed.regex.consumes) : p.ReadsAny := by
  intro src pos m found
  obtain ⟨s, t, marks, occurs, _⟩ := findFrom?_some found
  exact occurs.start_lt_stop consumes

section

variable {opening closing : Pattern} {src : Source}

/-- An opening that matches no empty text holds no rounds. -/
theorem not_endless_of_readsAny (any : opening.ReadsAny) {pos depth : Nat} :
    ¬ Endless opening closing src pos depth := by
  intro endless
  induction endless with
  | here held =>
    obtain ⟨m, near, stop, _⟩ := held
    have less := any _ _ _ (nearestDelimiter?_found near)
    have above := (nearestDelimiter?_spans near).2
    omega
  | further _ _ ih => exact ih

/-- Delimiters that match no empty text are not empty. -/
theorem nearestDelimiter?_lt (any : opening.ReadsAny) (any' : closing.ReadsAny) {pos : Nat} {opens : Bool} {m : Match}
    (near : nearestDelimiter? opening closing src pos = some (opens, m)) : m.start < m.stop := by
  have found := nearestDelimiter?_found near
  cases opens with
  | true => exact any _ _ _ found
  | false => exact any' _ _ _ found

theorem behindDelimiter_of_lt {m : Match} (less : m.start < m.stop) : behindDelimiter src m = m.stop := by
  rw [behindDelimiter, if_neg]
  rw [Match.isEmpty_iff]
  omega

/-- Where the opening matches, the first round goes behind it, so the construct is not empty. -/
theorem roundsFrom_lt (any : opening.ReadsAny) {rounds pos depth stop : Nat} {m : Match} (here : m.start = pos)
    (found : opening.findFrom? src pos = some m)
    (ends : roundsFrom opening closing src rounds pos depth = some stop) : pos < stop := by
  have near : nearestDelimiter? opening closing src pos = some (true, m) := nearestDelimiter?_here found here
  have less := any _ _ _ found
  have spans := (nearestDelimiter?_spans near).1
  have whole : behindDelimiter src m = m.stop := behindDelimiter_of_lt less
  cases rounds with
  | zero => cases ends
  | succ rounds =>
    simp only [roundsFrom, roundFrom, near, whole] at ends
    have le := (roundsFrom_le spans.stop ends).2
    omega

/-- A pattern matches at an offset if what is found from there on starts there. -/
theorem startsAt_iff {p : Pattern} {pos : Nat} :
    p.StartsAt src pos ↔ ∃ m, p.findFrom? src pos = some m ∧ m.start = pos := by
  constructor
  · rintro ⟨u, inside, here, starts⟩
    obtain ⟨m, found, le⟩ := Pattern.findFrom?_before inside starts (Nat.le_of_eq here.symm)
    obtain ⟨s, t, marks, occurs, above, _⟩ := Pattern.findFrom?_some found
    have start := occurs.start
    exact ⟨m, found, by omega⟩
  · rintro ⟨m, found, here⟩
    obtain ⟨s, t, marks, occurs, _⟩ := Pattern.findFrom?_some found
    exact ⟨s, occurs.inside, occurs.start.symm.trans here, occurs.starts⟩

/-- At the end of the source every opening that matches holds the rounds. -/
theorem held_at_end (starts : opening.StartsAt src src.size) : Held opening closing src src.size := by
  obtain ⟨m, found, here⟩ := startsAt_iff.mp starts
  have near : nearestDelimiter? opening closing src src.size = some (true, m) := nearestDelimiter?_here found here
  have spans := (nearestDelimiter?_spans near).1
  have low := spans.le
  have high := Source.isBoundary_le spans.stop
  refine ⟨m, near, by omega, ?_⟩
  by_contra behind
  rw [Bool.not_eq_false] at behind
  have bound := Source.isBoundary_le behind
  omega

/-- A construct is recorded as one token up to where the rounds end. It is refused where the opening does not match. -/
theorem yields_nestable {s : ScanState} (sound : s.cursor.Sound src) (kind : Kind) {post : Unit → ScanState → Prop}
    {fail : ScanError → ScanState → Prop}
    (refused : ∀ c : Cursor, ¬ opening.StartsAt src s.pos → c.Sound src → c.pos = s.pos →
      fail (.nestableMismatch kind s.pos) { s with cursor := c })
    (ended : ∀ (stop : Nat) (c : Cursor), opening.StartsAt src s.pos →
      roundsFrom opening closing src (2 * src.size + 2) s.pos 0 = some stop → c.Sound src → c.pos = stop →
      post () (ScanState.record { s with cursor := c } (.raw (some kind) (src.slice s.pos stop))))
    (tooFew : ∀ c : Cursor, opening.StartsAt src s.pos →
      roundsFrom opening closing src (2 * src.size + 2) s.pos 0 = none → fail (.outOfSteps "") { s with cursor := c }) :
    Yields (Scan.nestable kind opening closing) s post fail := by
  refine yields_bind.mpr (yields_ofCursor.mpr (yields_bind.mpr (yields_check sound opening ?_ ?_)))
  · intro c sound' here absent
    refine refused c ?_ sound' here
    rintro ⟨u, inside, at_, starts⟩
    exact absent u inside at_ starts
  · intro m c a b marks sound' here occurs at_
    have starts : opening.StartsAt src s.pos := ⟨a, occurs.inside, at_, occurs.starts⟩
    have size : ({ s with cursor := c } : ScanState).source.size = src.size := by rw [ScanState.source, sound'.source]
    have pos : ({ s with cursor := c } : ScanState).pos = s.pos := here
    refine yields_bind.mpr (yields_get.mpr ?_)
    rw [size]
    refine yields_bind.mpr (Scan.yields_rounds (s := { s with cursor := c }) sound' _ _ ?_ ?_)
    · intro stop d ends sound'' behind
      rw [pos] at ends
      obtain ⟨_, le⟩ := roundsFrom_le sound.here ends
      refine yields_bind.mpr (yields_ofCursor.mpr ?_)
      refine Nested.yields_recordSlice (s := { s with cursor := d }) sound'' ?_ sound.here ?_
      · exact behind.symm ▸ le
      · rw [behind]
        exact ended stop d starts ends sound'' behind
    · intro d endless
      rw [pos] at endless
      exact tooFew d starts endless

end

/-- A construct that is opened at the cursor is recorded as one token. -/
theorem Recorded.nestable {src : Source} {Allowed : Token → Prop} {start : Origin} {s : ScanState} {kind : Kind}
    {opening closing : Pattern} (h : Recorded src Allowed start s.pos s) (consumes : opening.parsed.regex.consumes)
    (named : WellNamed kind) (opens : opening.StartsAt src s.pos) {post : Unit → ScanState → Prop}
    {fail : ScanError → ScanState → Prop}
    (next : ∀ s', Recorded src Allowed start s'.pos s' → s.pos < s'.pos → s'.regions = s.regions → post () s') :
    Yields (Scan.nestable kind opening closing) s post fail := by
  have any := Pattern.readsAny_of_consumes consumes
  refine yields_nestable h.sound kind ?_ ?_ ?_
  · intro c absent _ _
    exact absurd opens absent
  · intro stop c _ ends sound behind
    obtain ⟨boundary, le⟩ := roundsFrom_le h.sound.here ends
    obtain ⟨m, found, here⟩ := startsAt_iff.mp opens
    have less := roundsFrom_lt any here found ends
    have kinds : ∀ k, some kind = some k → WellNamed k := by
      rintro _ ⟨⟩
      exact named
    have text : (src.slice s.pos stop).toList = src.between s.pos stop := rfl
    have recorded := (h.withCursor sound).pushText boundary le text kinds
    have at_ : (ScanState.record { s with cursor := c } (.raw (some kind) (src.slice s.pos stop))).pos = stop := by
      rw [ScanState.pos, ScanState.record_cursor]
      exact behind
    refine next _ ?_ (at_.symm ▸ less) ScanState.record_regions
    rwa [at_]
  · intro c _ none_
    have bound : s.pos ≤ src.size := h.sound.le_size
    have never : ¬ Endless opening closing src s.pos 0 := not_endless_of_readsAny any
    have enough : 2 * (src.size - s.pos) + 0 < 2 * src.size + 2 := by omega
    obtain ⟨stop, ends⟩ := exists_roundsFrom h.sound.here never enough
    cases none_.symm.trans ends

end Gloss

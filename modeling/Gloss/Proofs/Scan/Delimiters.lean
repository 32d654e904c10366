import Gloss.Proofs.Scan.Nesting

/-!
Openings and closings of a construct that may contain itself. A round over the construct goes to the nearest of both
from the cursor on, so what the rounds do is a matter of offsets and of the depth alone. A round that does not end the
construct moves on, but for one case: behind an empty match it moves on by one byte, and where the next boundary is
further, or where the source ends, that leaves it in place. An empty closing is left behind even so, since it closes
what was opened before; an empty opening holds the rounds there for ever.
-/
namespace Gloss

open Text (Spot Source)

/-- An opening or a closing: does it open, and where is it? -/
abbrev Delimiter := Bool × Match

section

variable (opening closing : Pattern) (src : Source)

/-- The nearest delimiter from an offset on. Of an opening and a closing that start at one place it is the opening. -/
def nearestDelimiter? (pos : Nat) : Option Delimiter :=
  match opening.findFrom? src pos, closing.findFrom? src pos with
  | none, found => found.map (false, ·)
  | some o, none => some (true, o)
  | some o, some c => if c.start < o.start then some (false, c) else some (true, o)

/-- Where a round goes on behind a delimiter: where it ends, and from an empty one to the boundary at or below the next
byte. -/
def behindDelimiter (m : Match) : Nat := if m.span.isEmpty then src.floor (m.stop + 1) else m.stop

/-- What a round at some depth comes to: the offset it goes to, and the depth there unless the construct has ended. -/
def roundFrom (pos depth : Nat) : Nat × Option Nat :=
  match nearestDelimiter? opening closing src pos with
  | none => (src.size, none)
  | some (true, m) => (behindDelimiter src m, some (depth + 1))
  | some (false, m) => if depth ≤ 1 then (m.stop, none) else (behindDelimiter src m, some (depth - 1))

/-- Where rounds from an offset on have come to the end of the construct; none if there are too few of them. -/
def roundsFrom : Nat → Nat → Nat → Option Nat
  | 0, _, _ => none
  | rounds + 1, pos, depth =>
    match roundFrom opening closing src pos depth with
    | (stop, none) => some stop
    | (pos, some depth) => roundsFrom rounds pos depth

end

variable {opening closing : Pattern} {src : Source} {pos depth : Nat} {opens : Bool} {m : Match}

/-- The nearest delimiter is found by its pattern. -/
theorem nearestDelimiter?_found (near : nearestDelimiter? opening closing src pos = some (opens, m)) :
    (if opens then opening else closing).findFrom? src pos = some m := by
  simp only [nearestDelimiter?] at near
  split at near
  · obtain ⟨m, found, eq⟩ := Option.map_eq_some_iff.mp near
    cases eq
    exact found
  · next o found _ =>
    cases near
    exact found
  · next o c found found' =>
    split at near
    · cases near
      exact found'
    · cases near
      exact found

/-- A delimiter starts at or behind the offset and covers a stretch of the source. -/
theorem nearestDelimiter?_spans (near : nearestDelimiter? opening closing src pos = some (opens, m)) :
    m.Spans src ∧ pos ≤ m.start := by
  obtain ⟨s, t, marks, occurs, above, _⟩ := Pattern.findFrom?_some (nearestDelimiter?_found near)
  exact ⟨occurs.spans, by rwa [occurs.start]⟩

/-- Where the opening matches, it is the nearest delimiter. -/
theorem nearestDelimiter?_here (found : opening.findFrom? src pos = some m) (here : m.start = pos) :
    nearestDelimiter? opening closing src pos = some (true, m) := by
  cases other : closing.findFrom? src pos with
  | none => simp only [nearestDelimiter?, found, other]
  | some c =>
    obtain ⟨s, t, marks, occurs, above, _⟩ := Pattern.findFrom?_some other
    have start := occurs.start
    have later : ¬ c.start < m.start := by omega
    simp only [nearestDelimiter?, found, other, if_neg later]

theorem Match.isEmpty_iff : m.span.isEmpty = true ↔ m.stop ≤ m.start := by
  have size : m.span.size = m.stop - m.start := rfl
  rw [Span.isEmpty, beq_iff_eq, size, Nat.sub_eq_zero_iff_le]

/-- A round goes on behind the offset it began at, or else the delimiter is empty, at the offset itself, and no boundary
is one byte further. -/
theorem nearestDelimiter?_behind (near : nearestDelimiter? opening closing src pos = some (opens, m)) :
    src.isBoundary (behindDelimiter src m) ∧
      (pos < behindDelimiter src m ∨ behindDelimiter src m = pos ∧ m.stop = pos ∧ src.isBoundary (pos + 1) = false) := by
  obtain ⟨spans, above⟩ := nearestDelimiter?_spans near
  have le := spans.le
  rw [behindDelimiter]
  split
  · refine ⟨src.isBoundary_floor _, ?_⟩
    -- Behind an empty delimiter: one byte further, or back where no boundary is there.
    rw [Source.floor_succ spans.stop]
    split
    · exact .inl (by omega)
    · next inside =>
      rcases Nat.lt_or_ge pos m.stop with moved | stays
      · exact .inl moved
      · have stop : m.stop = pos := by omega
        rw [Bool.not_eq_true, stop] at inside
        exact .inr ⟨stop, stop, inside⟩
  · next any =>
    rw [Match.isEmpty_iff] at any
    exact ⟨spans.stop, .inl (by omega)⟩

/-- The rounds are held at an offset: the nearest delimiter is an empty opening there, and no boundary is one byte
further. -/
def Held (opening closing : Pattern) (src : Source) (pos : Nat) : Prop :=
  ∃ m, nearestDelimiter? opening closing src pos = some (true, m) ∧ m.stop = pos ∧ src.isBoundary (pos + 1) = false

/-- The rounds come to an offset at which they are held. -/
inductive Endless (opening closing : Pattern) (src : Source) : Nat → Nat → Prop where
  | here {pos depth : Nat} (held : Held opening closing src pos) : Endless opening closing src pos depth
  | further {pos depth pos' depth' : Nat} (round : roundFrom opening closing src pos depth = (pos', some depth'))
      (rest : Endless opening closing src pos' depth') : Endless opening closing src pos depth

theorem Held.roundFrom (held : Held opening closing src pos) (depth : Nat) :
    roundFrom opening closing src pos depth = (pos, some (depth + 1)) := by
  obtain ⟨m, near, stop, inside⟩ := held
  obtain ⟨spans, above⟩ := nearestDelimiter?_spans near
  have empty : m.span.isEmpty = true := by
    rw [Match.isEmpty_iff]
    omega
  have back : behindDelimiter src m = pos := by
    rw [behindDelimiter, if_pos empty, Source.floor_succ spans.stop, stop, inside]
    rfl
  simp only [Gloss.roundFrom, near, back]

/-- No number of rounds is enough. -/
theorem Endless.roundsFrom (endless : Endless opening closing src pos depth) (rounds : Nat) :
    roundsFrom opening closing src rounds pos depth = none := by
  induction endless generalizing rounds with
  | @here pos depth held =>
    induction rounds generalizing depth with
    | zero => rfl
    | succ rounds ih => simp only [Gloss.roundsFrom, held.roundFrom, ih]
  | further round _ ih =>
    cases rounds with
    | zero => rfl
    | succ rounds => simp only [Gloss.roundsFrom, round, ih]

/-- A round that does not end the construct moves on, or closes in place what was opened before, or is held. -/
theorem roundFrom_more {pos' depth' : Nat}
    (round : roundFrom opening closing src pos depth = (pos', some depth')) :
    src.isBoundary pos' ∧
      (pos < pos' ∧ depth' ≤ depth + 1 ∨ pos' = pos ∧ depth' < depth ∨ Held opening closing src pos) := by
  simp only [roundFrom] at round
  split at round
  · cases round
  · next m near =>
    cases round
    obtain ⟨boundary', moved | ⟨_, stop, inside⟩⟩ := nearestDelimiter?_behind near
    · exact ⟨boundary', .inl ⟨moved, Nat.le_refl _⟩⟩
    · exact ⟨boundary', .inr (.inr ⟨m, near, stop, inside⟩)⟩
  · next m near =>
    split at round
    · cases round
    · cases round
      obtain ⟨boundary', moved | ⟨stays, _⟩⟩ := nearestDelimiter?_behind near
      · exact ⟨boundary', .inl ⟨moved, by omega⟩⟩
      · exact ⟨boundary', .inr (.inl ⟨stays, by omega⟩)⟩

/-- A round that ends the construct does not go back. -/
theorem roundFrom_last {stop : Nat} (boundary : src.isBoundary pos)
    (round : roundFrom opening closing src pos depth = (stop, none)) : src.isBoundary stop ∧ pos ≤ stop := by
  simp only [roundFrom] at round
  split at round
  · cases round
    exact ⟨src.isBoundary_size, Source.isBoundary_le boundary⟩
  · cases round
  · next m near =>
    obtain ⟨spans, above⟩ := nearestDelimiter?_spans near
    split at round
    · cases round
      exact ⟨spans.stop, Nat.le_trans above spans.le⟩
    · cases round

/-- The construct ends at or behind the place where the rounds began. -/
theorem roundsFrom_le {rounds stop : Nat} (boundary : src.isBoundary pos)
    (ends : roundsFrom opening closing src rounds pos depth = some stop) : src.isBoundary stop ∧ pos ≤ stop := by
  induction rounds generalizing pos depth with
  | zero => cases ends
  | succ rounds ih =>
    rcases round : roundFrom opening closing src pos depth with ⟨pos', _ | depth'⟩
    · simp only [roundsFrom, round, Option.some.injEq] at ends
      subst ends
      exact roundFrom_last boundary round
    · simp only [roundsFrom, round] at ends
      obtain ⟨boundary', cases_⟩ := roundFrom_more round
      obtain ⟨last, le⟩ := ih boundary' ends
      rcases cases_ with ⟨less, _⟩ | ⟨same, _⟩ | held
      · exact ⟨last, by omega⟩
      · exact ⟨last, by omega⟩
      · rw [held.roundFrom] at round
        cases round
        exact ⟨last, le⟩

/-- Unless the rounds are held somewhere, two for each byte that is left and one for each opening are enough. -/
theorem exists_roundsFrom {rounds : Nat} (boundary : src.isBoundary pos) (never : ¬ Endless opening closing src pos depth)
    (enough : 2 * (src.size - pos) + depth < rounds) :
    ∃ stop, roundsFrom opening closing src rounds pos depth = some stop := by
  induction rounds generalizing pos depth with
  | zero => omega
  | succ rounds ih =>
    rcases round : roundFrom opening closing src pos depth with ⟨pos', _ | depth'⟩
    · exact ⟨pos', by simp only [roundsFrom, round]⟩
    · simp only [roundsFrom, round]
      obtain ⟨boundary', cases_⟩ := roundFrom_more round
      have bound := Source.isBoundary_le boundary
      have bound' := Source.isBoundary_le boundary'
      refine ih boundary' (fun endless => never (.further round endless)) ?_
      -- A byte that is passed pays for the round and for the depth that it may add.
      rcases cases_ with ⟨less, _⟩ | ⟨same, _⟩ | held
      · omega
      · omega
      · exact absurd (.here held) never

/-- The searches of a round find the nearest delimiter. -/
theorem nearestDelimiter?_eq {c : Cursor} (sound : c.Sound src) :
    (c.freshAll [(true, opening), (false, closing)]).foldl Cursor.nearer none =
      nearestDelimiter? opening closing src c.pos := by
  simp only [Cursor.freshAll, Cursor.fresh, sound.source, nearestDelimiter?, List.filterMap_cons, List.filterMap_nil]
  cases opening.findFrom? src c.pos with
  | none => cases closing.findFrom? src c.pos <;> rfl
  | some o =>
    cases closing.findFrom? src c.pos with
    | none => rfl
    | some c =>
      simp only [Option.map_some, List.foldl_cons, List.foldl_nil, Cursor.nearer, Cursor.startsBefore, if_true,
        decide_eq_true_eq]

namespace Scan

variable {s : ScanState} {fail : ScanError → ScanState → Prop}

/-- Moving on by bytes, to the boundary at or below. -/
theorem yields_shiftFloor (sound : s.cursor.Sound src) {bytes : Nat} {post : Unit → ScanState → Prop}
    (next : ∀ c : Cursor, c.Sound src → c.pos = src.floor (s.pos + bytes) → post () { s with cursor := c }) :
    Yields (shift bytes) s post fail := by
  obtain ⟨sound', here⟩ := sound.setFloor (s.pos + bytes)
  exact next _ sound' here

/-- Behind a delimiter: what is left of the round once the construct goes on. -/
theorem yields_leave (sound : s.cursor.Sound src) {m : Match} (here : s.pos = m.stop) {depth : Nat}
    {post : Option Nat → ScanState → Prop}
    (next : ∀ c : Cursor, c.Sound src → c.pos = behindDelimiter src m → post (some depth) { s with cursor := c }) :
    Yields (do
      if m.span.isEmpty then shift 1
      return some depth) s post fail := by
  by_cases empty : m.span.isEmpty = true
  · simp only [behindDelimiter, empty, if_true] at next ⊢
    refine yields_bind.mpr (yields_shiftFloor sound fun c sound' at_ => ?_)
    exact next c sound' (by rw [at_, here])
  · simp only [behindDelimiter, empty, Bool.false_eq_true, if_false] at next ⊢
    exact next s.cursor sound here

/-- A round does what it comes to. -/
theorem yields_round (sound : s.cursor.Sound src) (depth : Nat) {post : Option Nat → ScanState → Prop}
    (next : ∀ c : Cursor, c.Sound src → c.pos = (roundFrom opening closing src s.pos depth).1 →
      post (roundFrom opening closing src s.pos depth).2 { s with cursor := c }) :
    Yields (nestRound opening closing depth) s post fail := by
  obtain ⟨c, eq, sound', here, _⟩ := sound.nearest [(true, opening), (false, closing)]
  rw [nearestDelimiter?_eq sound] at eq
  refine yields_bind.mpr (yields_onCursor.mpr ?_)
  rw [eq]
  cases near : nearestDelimiter? opening closing src s.cursor.pos with
  | none =>
    refine yields_bind.mpr (yields_terminate (s := { s with cursor := c }) sound' fun e sound'' ended => ?_)
    simp only [roundFrom, ScanState.pos, near] at next
    exact next e sound'' ended
  | some d =>
    obtain ⟨opens, m⟩ := d
    obtain ⟨spans, _⟩ := nearestDelimiter?_spans near
    refine yields_bind.mpr (yields_setPos (s := { s with cursor := c }) sound' spans.stop fun e sound'' at_ => ?_)
    cases opens with
    | true =>
      simp only [roundFrom, ScanState.pos, near] at next
      exact yields_leave (s := { s with cursor := e }) sound'' at_ next
    | false =>
      simp only [roundFrom, ScanState.pos, near] at next
      by_cases last : depth ≤ 1
      · have closed : depth - 1 = 0 := by omega
        simp only [last, if_true] at next
        simp only [closed, Bool.not_false, beq_self_eq_true, Bool.and_self, if_true, Bool.false_eq_true, if_false]
        exact next e sound'' at_
      · have more : (depth - 1 == 0) = false := by
          rw [beq_eq_false_iff_ne]
          omega
        simp only [last, if_false] at next
        simp only [more, Bool.and_false, Bool.false_eq_true, if_false]
        exact yields_leave (s := { s with cursor := e }) sound'' at_ next

/-- Rounds do what they come to: they end where the construct does, or there are too few of them. -/
theorem yields_rounds (sound : s.cursor.Sound src) (rounds depth : Nat) {post : Unit → ScanState → Prop}
    (ended : ∀ (stop : Nat) (c : Cursor), roundsFrom opening closing src rounds s.pos depth = some stop → c.Sound src →
      c.pos = stop → post () { s with cursor := c })
    (tooFew : ∀ c : Cursor, roundsFrom opening closing src rounds s.pos depth = none →
      fail (.outOfSteps "") { s with cursor := c }) :
    Yields (nestRounds opening closing rounds depth) s post fail := by
  induction rounds generalizing s depth with
  | zero => exact tooFew s.cursor rfl
  | succ rounds ih =>
    refine yields_bind.mpr (yields_round sound depth fun c sound' here => ?_)
    rcases round : roundFrom opening closing src s.pos depth with ⟨pos, _ | depth'⟩
    · simp only [roundsFrom, round] at ended here ⊢
      exact ended pos c rfl sound' here
    · simp only [roundsFrom, round] at ended tooFew here ⊢
      subst here
      exact ih (s := { s with cursor := c }) sound' depth' ended tooFew

end Scan

end Gloss

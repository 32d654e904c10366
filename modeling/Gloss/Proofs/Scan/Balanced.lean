import Gloss.Proofs.Scan.Nestable

/-!
How far a construct reaches that may contain itself. Its delimiters are taken from left to right, each the nearest behind
the one before. With delimiters that are never empty the construct ends where for the first time as many closings as
openings are passed, and at the end of the source if that never happens. With delimiters of any kind it ends too, unless
an empty opening holds the rounds.
-/
namespace Gloss

open Text (Source)

/-- The delimiters from an offset on, from left to right without overlap. -/
inductive Delimiters (opening closing : Pattern) (src : Source) : Nat → List Delimiter → Prop where
  | none {pos : Nat} (absent : nearestDelimiter? opening closing src pos = .none) :
      Delimiters opening closing src pos []
  | more {pos : Nat} {d : Delimiter} {ds : List Delimiter} (near : nearestDelimiter? opening closing src pos = some d)
      (rest : Delimiters opening closing src d.2.stop ds) : Delimiters opening closing src pos (d :: ds)

/-- The last of these delimiters is a closing, and up to it there are as many closings as openings. -/
structure ClosedBy (ds : List Delimiter) (m : Match) : Prop where
  last : ds.getLast? = some (false, m)
  level : ds.countP (!·.1) = ds.countP (·.1)

/-- Where a construct with these delimiters ends. -/
inductive EndsAt (src : Source) (ds : List Delimiter) : Nat → Prop where
  | closed {front : List Delimiter} {m : Match} (among : front <+: ds) (closed : ClosedBy front m)
      (first : ∀ front' m', front' <+: ds → ClosedBy front' m' → front.length ≤ front'.length) : EndsAt src ds m.stop
  | unclosed (never : ∀ front m, front <+: ds → ¬ ClosedBy front m) : EndsAt src ds src.size

/-- Where a construct of some depth is left, with the delimiters that are still to come. -/
def stopAt (src : Source) : Nat → List Delimiter → Nat
  | _, [] => src.size
  | depth, (true, _) :: ds => stopAt src (depth + 1) ds
  | depth, (false, m) :: ds => if depth ≤ 1 then m.stop else stopAt src (depth - 1) ds

section

variable {opening closing : Pattern} {src : Source}

/-- There is only one way to take the delimiters. -/
theorem Delimiters.unique {pos : Nat} {ds ds' : List Delimiter} (h : Delimiters opening closing src pos ds)
    (h' : Delimiters opening closing src pos ds') : ds = ds' := by
  induction h generalizing ds' with
  | none absent =>
    cases h' with
    | none _ => rfl
    | more near _ => cases absent.symm.trans near
  | more near _ ih =>
    cases h' with
    | none absent => cases absent.symm.trans near
    | more near' rest =>
      cases near.symm.trans near'
      rw [ih rest]

/-- There is only one end. -/
theorem EndsAt.unique {ds : List Delimiter} {stop stop' : Nat} (h : EndsAt src ds stop) (h' : EndsAt src ds stop') :
    stop = stop' := by
  cases h with
  | @closed front m among closed first =>
    cases h' with
    | @closed front' m' among' closed' first' =>
      have length : front.length = front'.length :=
        Nat.le_antisymm (first front' m' among' closed') (first' front m among closed)
      obtain rfl : front = front' := (List.prefix_of_prefix_length_le among among' (Nat.le_of_eq length)).eq_of_length length
      cases closed.last.symm.trans closed'.last
      rfl
    | unclosed never => exact absurd closed (never _ _ among)
  | unclosed never =>
    cases h' with
    | closed among' closed' _ => exact absurd closed' (never _ _ among')
    | unclosed _ => rfl

/-- Delimiters that are never empty come to an end. -/
theorem exists_delimiters (any : opening.ReadsAny) (any' : closing.ReadsAny) {pos : Nat} (bound : pos ≤ src.size) :
    ∃ ds, Delimiters opening closing src pos ds ∧ ds.length ≤ src.size - pos := by
  generalize size : src.size - pos = n
  induction n using Nat.strongRecOn generalizing pos with
  | ind n ih =>
    cases near : nearestDelimiter? opening closing src pos with
    | none => exact ⟨[], .none near, Nat.zero_le n⟩
    | some d =>
      obtain ⟨opens, m⟩ := d
      obtain ⟨spans, above⟩ := nearestDelimiter?_spans near
      have less := nearestDelimiter?_lt any any' near
      have within := Source.isBoundary_le spans.stop
      obtain ⟨ds, delimiters, length⟩ := ih (src.size - m.stop) (by omega) within rfl
      refine ⟨(opens, m) :: ds, .more near delimiters, ?_⟩
      rw [List.length_cons]
      omega

/-- One round for each delimiter, and one more, come to where the construct is left. -/
theorem Delimiters.roundsFrom (any : opening.ReadsAny) (any' : closing.ReadsAny) {pos depth rounds : Nat}
    {ds : List Delimiter} (h : Delimiters opening closing src pos ds) (enough : ds.length < rounds) :
    roundsFrom opening closing src rounds pos depth = some (stopAt src depth ds) := by
  induction h generalizing depth rounds with
  | none absent =>
    obtain ⟨rounds, rfl⟩ : ∃ n, rounds = n + 1 := ⟨rounds - 1, by omega⟩
    simp only [Gloss.roundsFrom, roundFrom, absent, stopAt]
  | @more pos d ds near rest ih =>
    obtain ⟨rounds, rfl⟩ : ∃ n, rounds = n + 1 := ⟨rounds - 1, by omega⟩
    have fewer : ds.length < rounds := by
      rw [List.length_cons] at enough
      omega
    obtain ⟨opens, m⟩ := d
    have behind : behindDelimiter src m = m.stop := behindDelimiter_of_lt (nearestDelimiter?_lt any any' near)
    cases opens with
    | true => simp only [Gloss.roundsFrom, roundFrom, near, stopAt, behind, ih fewer]
    | false =>
      by_cases last : depth ≤ 1
      · simp only [Gloss.roundsFrom, roundFrom, near, stopAt, last, if_true]
      · simp only [Gloss.roundsFrom, roundFrom, near, stopAt, last, if_false, behind, ih fewer]

/-- One more delimiter that does not close the construct leaves it open. -/
theorem not_closedBy_concat {before : List Delimiter} {d : Delimiter}
    (never : ∀ front m, front <+: before → ¬ ClosedBy front m) (whole : ∀ m, ¬ ClosedBy (before ++ [d]) m) :
    ∀ front m, front <+: before ++ [d] → ¬ ClosedBy front m := by
  intro front m among
  rcases List.prefix_concat_iff.mp among with rfl | among
  · exact whole m
  · exact never front m among

/-- A construct is left where it ends: so far it is open, with the depth that the openings have over the closings. -/
theorem endsAt_stopAt {before ds : List Delimiter} {depth : Nat} (open_ : 0 < depth)
    (count : before.countP (·.1) = before.countP (!·.1) + depth)
    (never : ∀ front m, front <+: before → ¬ ClosedBy front m) : EndsAt src (before ++ ds) (stopAt src depth ds) := by
  induction ds generalizing before depth with
  | nil =>
    rw [List.append_nil]
    exact .unclosed never
  | cons d ds ih =>
    rw [List.append_cons]
    obtain ⟨opens, m⟩ := d
    cases opens with
    | true =>
      refine ih (Nat.succ_pos depth) (by simp [count]; omega) (not_closedBy_concat never fun n closed => ?_)
      have last := closed.last
      rw [List.getLast?_concat] at last
      cases last
    | false =>
      by_cases last : depth ≤ 1
      · rw [stopAt, if_pos last]
        refine .closed (List.prefix_append _ _) ⟨List.getLast?_concat, by simp [count]; omega⟩ ?_
        intro front n among closed
        -- Anything shorter lies in front of this closing, where the construct is open.
        by_contra shorter
        rw [List.length_append, List.length_singleton] at shorter
        have earlier : before <+: before ++ [(false, m)] ++ ds := by simp
        exact never front n (List.prefix_of_prefix_length_le among earlier (by omega)) closed
      · rw [stopAt, if_neg last]
        refine ih (by omega) (by simp [count]; omega) (not_closedBy_concat never fun n closed => ?_)
        have level := closed.level
        simp only [List.countP_append, List.countP_singleton, count, Bool.not_false, Bool.false_eq_true, if_true,
          if_false] at level
        omega

/-- What is left when a construct is refused. -/
theorem nestable_refused {s : ScanState} (sound : s.cursor.Sound src) (kind : Kind)
    (absent : ¬ opening.StartsAt src s.pos) : ∃ c : Cursor, c.Sound src ∧ c.pos = s.pos ∧
      Scan.nestable kind opening closing s = .error (.nestableMismatch kind s.pos) { s with cursor := c } := by
  have refused : Yields (Scan.nestable kind opening closing) s (fun _ _ => False) fun e s' =>
      ∃ c : Cursor, c.Sound src ∧ c.pos = s.pos ∧ e = .nestableMismatch kind s.pos ∧ s' = { s with cursor := c } := by
    refine yields_nestable sound kind ?_ ?_ ?_
    · exact fun c _ sound' here => ⟨c, sound', here, rfl, rfl⟩
    · exact fun _ _ starts _ _ _ => absent starts
    · exact fun _ starts _ => absurd starts absent
  obtain ⟨_, _, ran, c, sound', here, rfl, rfl⟩ := refused.fails
  exact ⟨c, sound', here, ran⟩

/-- What is recorded where the rounds come to an end. -/
theorem nestable_recorded {s : ScanState} (sound : s.cursor.Sound src) (kind : Kind)
    (starts : opening.StartsAt src s.pos) {stop : Nat}
    (ends : roundsFrom opening closing src (2 * src.size + 2) s.pos 0 = some stop) :
    ∃ c : Cursor, c.Sound src ∧ c.pos = stop ∧ Scan.nestable kind opening closing s =
      .ok () (ScanState.record { s with cursor := c } (.raw (some kind) (src.slice s.pos stop))) := by
  have recorded : Yields (Scan.nestable kind opening closing) s (fun _ s' => ∃ c : Cursor, c.Sound src ∧ c.pos = stop ∧
      s' = ScanState.record { s with cursor := c } (.raw (some kind) (src.slice s.pos stop))) fun _ _ => False := by
    refine yields_nestable sound kind ?_ ?_ ?_
    · exact fun _ absent _ _ => absent starts
    · intro stop' c _ ends' sound' behind
      cases ends.symm.trans ends'
      exact ⟨c, sound', behind, rfl⟩
    · exact fun _ _ none_ => by cases none_.symm.trans ends
  obtain ⟨_, _, ran, c, sound', behind, rfl⟩ := recorded.succeeds
  exact ⟨c, sound', behind, ran⟩

/-- The rounds over a construct that is opened at an offset end where the construct does. -/
theorem exists_endsAt (any : opening.ReadsAny) (any' : closing.ReadsAny) {pos : Nat} (bound : pos ≤ src.size)
    (starts : opening.StartsAt src pos) : ∃ ds stop, Delimiters opening closing src pos ds ∧ EndsAt src ds stop ∧
      pos < stop ∧ roundsFrom opening closing src (2 * src.size + 2) pos 0 = some stop := by
  obtain ⟨m, found, here⟩ := startsAt_iff.mp starts
  have near : nearestDelimiter? opening closing src pos = some (true, m) := nearestDelimiter?_here found here
  obtain ⟨all, taken, length⟩ := exists_delimiters any any' bound
  have ends : roundsFrom opening closing src (2 * src.size + 2) pos 0 = some (stopAt src 0 all) :=
    taken.roundsFrom any any' (by omega)
  have less := roundsFrom_lt any here found ends
  cases taken with
  | none absent => cases absent.symm.trans near
  | @more _ d ds near' rest =>
    cases near.symm.trans near'
    refine ⟨(true, m) :: ds, _, .more near rest, ?_, less, ends⟩
    show EndsAt src ([(true, m)] ++ ds) (stopAt src 1 ds)
    refine endsAt_stopAt Nat.zero_lt_one rfl ?_
    rintro front n ⟨back, parts⟩ closed
    rcases List.append_eq_singleton_iff.mp parts with ⟨rfl, _⟩ | ⟨rfl, _⟩
    · cases closed.last
    · cases closed.last

/-- A construct with delimiters that are never empty. Where the opening does not match at the cursor it is refused, and
nothing but what the cursor keeps of its searches changes. Where it does, the construct is recorded as one token, up to
the first closing at which as many closings as openings are passed, or to the end of the source if there is none, and the
cursor is left there. -/
theorem nestable_balanced (any : opening.ReadsAny) (any' : closing.ReadsAny) {s : ScanState}
    (sound : s.cursor.Sound src) (kind : Kind) :
    (¬ opening.StartsAt src s.pos → ∃ c : Cursor, c.Sound src ∧ c.pos = s.pos ∧
      Scan.nestable kind opening closing s = .error (.nestableMismatch kind s.pos) { s with cursor := c }) ∧
    (opening.StartsAt src s.pos → ∃ (ds : List Delimiter) (stop : Nat) (c : Cursor),
      Delimiters opening closing src s.pos ds ∧ EndsAt src ds stop ∧ s.pos < stop ∧ c.Sound src ∧ c.pos = stop ∧
      Scan.nestable kind opening closing s =
        .ok () (ScanState.record { s with cursor := c } (.raw (some kind) (src.slice s.pos stop)))) := by
  constructor
  · exact nestable_refused sound kind
  · intro starts
    obtain ⟨ds, stop, taken, endsAt, less, ends⟩ := exists_endsAt any any' sound.le_size starts
    obtain ⟨c, sound', behind, ran⟩ := nestable_recorded sound kind starts ends
    exact ⟨ds, stop, c, taken, endsAt, less, sound', behind, ran⟩

theorem nestable_balanced_comments :
    let src := Source.ofString "/*a/*b*/c*/d"
    let s := ({} : ScanState).setSource src
    (Pattern.ofText "/\\*").ReadsAny ∧ (Pattern.ofText "\\*/").ReadsAny ∧ s.cursor.Sound src ∧
      (Pattern.ofText "/\\*").StartsAt src s.pos ∧
      ∃ (ds : List Delimiter) (stop : Nat) (c : Cursor),
        Delimiters (.ofText "/\\*") (.ofText "\\*/") src s.pos ds ∧ EndsAt src ds stop ∧ s.pos < stop ∧ c.Sound src ∧
          c.pos = stop ∧ Scan.nestable ⟨"COMMENT"⟩ (.ofText "/\\*") (.ofText "\\*/") s =
            .ok () (ScanState.record { s with cursor := c } (.raw (some ⟨"COMMENT"⟩) (src.slice s.pos stop))) := by
  intro src s
  have any : (Pattern.ofText "/\\*").ReadsAny := Pattern.readsAny_of_consumes (by decide +kernel)
  have any' : (Pattern.ofText "\\*/").ReadsAny := Pattern.readsAny_of_consumes (by decide +kernel)
  have sound : s.cursor.Sound src := Cursor.sound_ofSource src
  have starts : (Pattern.ofText "/\\*").StartsAt src s.pos :=
    startsAt_iff.mpr ⟨Match.ofRange 0 2, by decide +kernel, rfl⟩
  exact ⟨any, any', sound, starts, (nestable_balanced any any' sound ⟨"COMMENT"⟩).2 starts⟩

/-- The first `*/` closes the inner comment only. -/
example : roundsFrom (.ofText "/\\*") (.ofText "\\*/") (.ofString "/*a/*b*/c*/d") 24 0 0 = some 11 := by decide +kernel

/-- A construct with delimiters of any kind, where its opening matches at the cursor. It ends and is recorded, unless its
rounds are held by an empty opening: then no number of rounds is enough. -/
theorem nestable_ends_unless_held {s : ScanState} (sound : s.cursor.Sound src) (kind : Kind)
    (starts : opening.StartsAt src s.pos) :
    (¬ Endless opening closing src s.pos 0 → ∃ c : Cursor, c.Sound src ∧ s.pos ≤ c.pos ∧
      Scan.nestable kind opening closing s =
        .ok () (ScanState.record { s with cursor := c } (.raw (some kind) (src.slice s.pos c.pos)))) ∧
    (Endless opening closing src s.pos 0 → ∀ rounds, ∃ c : Cursor,
      Scan.nestRounds opening closing rounds 0 s = .error (.outOfSteps "") { s with cursor := c }) := by
  constructor
  · intro never
    have bound : s.pos ≤ src.size := sound.le_size
    have enough : 2 * (src.size - s.pos) + 0 < 2 * src.size + 2 := by omega
    obtain ⟨stop, ends⟩ := exists_roundsFrom sound.here never enough
    obtain ⟨c, sound', rfl, ran⟩ := nestable_recorded sound kind starts ends
    exact ⟨c, sound', (roundsFrom_le sound.here ends).2, ran⟩
  · intro endless rounds
    have held : Yields (Scan.nestRounds opening closing rounds 0) s (fun _ _ => False) fun e s' =>
        ∃ c : Cursor, e = .outOfSteps "" ∧ s' = { s with cursor := c } := by
      refine Scan.yields_rounds sound rounds 0 ?_ ?_
      · intro stop c ends _ _
        cases (endless.roundsFrom rounds).symm.trans ends
      · exact fun c _ => ⟨c, rfl, rfl⟩
    obtain ⟨_, _, ran, c, rfl, rfl⟩ := held.fails
    exact ⟨c, ran⟩

/-- In front of a character of two bytes an empty closing stays in place, and closes there what is still open. -/
example : roundsFrom (.ofText "a") (.ofText "") (.ofString "aaé") 14 0 0 = some 2 := by decide +kernel

end

end Gloss

import Gloss.Proofs.Cursor.Moves

/-!
The position of a cursor. Whatever is done to a cursor, it stays at a boundary of its source, so what it takes and what
is left is exactly the text there. It remembers the latest two consumed matches only, and still each match that it undoes
is the one that a cursor with an endless memory would undo.
-/
namespace Gloss.Cursor

open Text (Source)

/-- Offsets are kept in words of 64 bits: each is less than this. -/
def offsetLimit : Nat := UInt64.size

/-- What an operation does to the matches that were consumed. -/
inductive Change where
  | kept
  | logged (m : Match)
  | undone
  | cleared
  deriving DecidableEq

/-- What an operation changes, judged by what it answers. -/
def Op.change (c : Cursor) : Op → Change
  | .scan p =>
    match (c.scan p).1 with
    | some m => .logged m
    | none => .kept
  | .scanUntil p =>
    match (c.scanUntil p).1 with
    | some skipped => .logged skipped
    | none => .kept
  | .accept m => .logged m
  | .unscan => if c.unscan.1 then .undone else .kept
  | .terminate | .reset | .setSource _ => .cleared
  | _ => .kept

/-- The changes that operations make one after another, latest first, in front of earlier ones. -/
def Op.changes : List Op → Cursor → List Change → List Change
  | [], _, earlier => earlier
  | op :: ops, c, earlier => changes ops (op.run c).2 (op.change c :: earlier)

/-- The matches that were consumed and not undone since all were forgotten, latest first. -/
def standing : List Change → List Match
  | [] => []
  | .kept :: earlier => standing earlier
  | .logged m :: earlier => m :: standing earlier
  | .undone :: earlier => (standing earlier).tail
  | .cleared :: _ => []

/-- How many matches were consumed since the latest change of another kind. -/
def loggedInRow : List Change → Nat
  | .kept :: earlier => loggedInRow earlier
  | .logged _ :: earlier => loggedInRow earlier + 1
  | _ => 0

/-- Operations that leave the matches alone can be left out. -/
theorem standing_filter (changes : List Change) : standing (changes.filter (· ≠ .kept)) = standing changes := by
  induction changes with
  | nil => rfl
  | cons change changes ih =>
    cases change with
    | kept => simpa [standing] using ih
    | logged m => simpa [standing] using ih
    | undone => simpa [standing] using congrArg List.tail ih
    | cleared => simp [standing]

theorem loggedInRow_filter (changes : List Change) : loggedInRow (changes.filter (· ≠ .kept)) = loggedInRow changes := by
  induction changes with
  | nil => rfl
  | cons change changes ih =>
    cases change with
    | kept => simpa [loggedInRow] using ih
    | logged m => simpa [loggedInRow] using ih
    | undone => simp [loggedInRow]
    | cleared => simp [loggedInRow]

/-- May the operation be called? A match that is consumed was found by a search in the present source, and a new source
is not longer than offsets can tell. -/
def Op.Allowed (c : Cursor) : Op → Prop
  | .accept m => ∃ (p : Pattern) (pos : Nat), p.findFrom? c.source pos = some m
  | .setSource source => source.size < offsetLimit
  | _ => True

/-- May the operations be called one after another? -/
def Op.AllAllowed : List Op → Cursor → Prop
  | [], _ => True
  | op :: ops, c => op.Allowed c ∧ AllAllowed ops (op.run c).2

/-- A cursor after some changes: what it remembers are the latest of the standing matches, and it has room for two. -/
structure Tracked (c : Cursor) (changes : List Change) : Prop where
  sound : c.Sound c.source
  fits : c.source.size < offsetLimit
  starts : ∀ l ∈ c.history, l.index = l.data.start
  latest : c.history.map (·.data) <+: standing changes
  enough : min 2 (loggedInRow changes) ≤ c.history.length

namespace Tracked

variable {c d : Cursor} {changes : List Change} {m : Match}

theorem kept (h : c.Tracked changes) (sound : d.Sound c.source) (history : d.history = c.history) :
    d.Tracked (.kept :: changes) where
  sound := sound.source ▸ sound
  fits := sound.source ▸ h.fits
  starts := history ▸ h.starts
  latest := history ▸ h.latest
  enough := history ▸ h.enough

theorem logged (h : c.Tracked changes) (sound : d.Sound c.source)
    (history : d.history = ⟨m.start, m⟩ :: c.history.take 1) : d.Tracked (.logged m :: changes) where
  sound := sound.source ▸ sound
  fits := sound.source ▸ h.fits
  starts := by
    intro l member
    rw [history] at member
    rcases List.mem_cons.mp member with rfl | member
    · rfl
    · exact h.starts l (List.mem_of_mem_take member)
  latest := by
    rw [history, List.map_cons, List.map_take, standing, List.cons_prefix_cons]
    exact ⟨rfl, (List.take_prefix _ _).trans h.latest⟩
  enough := by
    have enough := h.enough
    rw [history, loggedInRow, List.length_cons, List.length_take]
    omega

theorem undone {latest : Logged} {older : List Logged} (h : c.Tracked changes) (sound : d.Sound c.source)
    (before : c.history = latest :: older) (history : d.history = older) : d.Tracked (.undone :: changes) where
  sound := sound.source ▸ sound
  fits := sound.source ▸ h.fits
  starts := by
    intro l member
    exact h.starts l (by simp [before, ← history, member])
  latest := by
    have latest := h.latest
    rw [before, List.map_cons] at latest
    obtain ⟨rest, eq⟩ := latest
    rw [history, standing, ← eq]
    exact ⟨rest, rfl⟩
  enough := Nat.zero_le _

theorem cleared (sound : d.Sound d.source) (fits : d.source.size < offsetLimit) (history : d.history = []) :
    d.Tracked (.cleared :: changes) where
  sound := sound
  fits := fits
  starts := by simp [history]
  latest := by simp [history]
  enough := Nat.zero_le _

theorem ofSource {source : Source} (fits : source.size < offsetLimit) : (Cursor.ofSource source).Tracked [] where
  sound := sound_ofSource source
  fits := fits
  starts := by simp [Cursor.ofSource]
  latest := by simp [Cursor.ofSource]
  enough := Nat.zero_le _

/-- Consuming a match that a search found. -/
theorem accept (h : c.Tracked changes) (spans : m.Spans c.source) : (c.accept m).Tracked (.logged m :: changes) := by
  obtain ⟨sound, _, history⟩ := h.sound.accept spans
  exact h.logged sound history

theorem scan (h : c.Tracked changes) (p : Pattern) :
    (c.scan p).2.Tracked (Op.change c (.scan p) :: changes) := by
  obtain ⟨r, d, eq, sound, _, history, checked⟩ := h.sound.check p
  simp only [Op.change, Cursor.scan, eq]
  cases checked with
  | none => exact h.kept sound history
  | @some m s t marks occurs =>
    obtain ⟨accepted, _, logged⟩ := sound.accept occurs.spans
    exact h.logged accepted (logged.trans (by rw [history]))

theorem scanUntil (h : c.Tracked changes) (p : Pattern) :
    (c.scanUntil p).2.Tracked (Op.change c (.scanUntil p) :: changes) := by
  obtain ⟨d, eq, sound, pos, history⟩ := h.sound.search p
  simp only [Op.change, Cursor.scanUntil, eq]
  cases found : p.findFrom? c.source c.pos with
  | none => exact h.kept sound history
  | some m =>
    obtain ⟨s, t, marks, occurs, _⟩ := Pattern.findFrom?_some found
    have here := sound.here
    simp only [pos]
    refine h.logged ⟨sound.source, sound.faithful.of_eq rfl rfl, occurs.spans.start, ?_⟩ ?_
    · intro l member
      rcases List.mem_cons.mp member with rfl | member
      · exact h.sound.here
      · exact sound.past l (List.mem_of_mem_take member)
    · rw [← history]
      rfl

/-- Undoing goes back to the start of the latest match that stands. -/
theorem unscan (h : c.Tracked changes) : c.unscan.2.Tracked (Op.change c .unscan :: changes) := by
  cases history : c.history with
  | nil =>
    simp only [Op.change, Cursor.unscan, history]
    exact h.kept h.sound rfl
  | cons latest older =>
    have past := h.sound.past
    rw [history, List.forall_mem_cons] at past
    simp only [Op.change, Cursor.unscan, history, if_true]
    exact h.undone ⟨rfl, h.sound.faithful.of_eq rfl rfl, past.1, past.2⟩ history rfl

/-- Searching for the nearest of some patterns consumes nothing. -/
theorem nearest {ι : Type} (h : c.Tracked changes) (labelled : List (ι × Pattern)) :
    (c.nearest labelled).2.Tracked (.kept :: changes) := by
  obtain ⟨d, eq, sound, _, history⟩ := h.sound.nearest labelled
  rw [eq]
  exact h.kept sound history

/-- One operation. -/
theorem run (h : c.Tracked changes) {op : Op} (allowed : op.Allowed c) :
    (op.run c).2.Tracked (op.change c :: changes) := by
  cases op with
  | setPos pos => exact h.kept (h.sound.setFloor pos).1 rfl
  | shift bytes => exact h.kept (h.sound.setFloor (c.pos + bytes)).1 rfl
  | take n =>
    obtain ⟨text, d, eq, sound, _⟩ := h.sound.take n
    have taken : (Op.run c (.take n)).2 = d := by simp only [Op.run, eq]
    rw [taken]
    refine h.kept sound ?_
    rw [← taken]
    rfl
  | search p =>
    obtain ⟨d, eq, sound, _, history⟩ := h.sound.search p
    simp only [Op.run, eq]
    exact h.kept sound history
  | index p =>
    obtain ⟨d, eq, sound, _, history⟩ := h.sound.search p
    simp only [Op.run, Cursor.index, eq]
    exact h.kept sound history
  | check p =>
    obtain ⟨r, d, eq, sound, _, history, _⟩ := h.sound.check p
    simp only [Op.run, eq]
    exact h.kept sound history
  | scan p => exact h.scan p
  | scanUntil p => exact h.scanUntil p
  | accept m =>
    obtain ⟨p, pos, found⟩ := allowed
    obtain ⟨_, _, _, occurs, _⟩ := Pattern.findFrom?_some found
    exact h.accept occurs.spans
  | unscan => exact h.unscan
  | nearestOf patterns => exact h.nearest _
  | nextMatch table => exact h.nearest (table.labelled fun _ => true)
  | terminate => exact .cleared h.sound.terminate.1 h.fits rfl
  | reset => exact .cleared (sound_ofSource c.source) h.fits rfl
  | setSource source => exact .cleared (sound_ofSource source) allowed rfl

/-- All operations of a run. -/
theorem runAll {ops : List Op} (h : c.Tracked changes) (allowed : Op.AllAllowed ops c) :
    (Op.runAll Op.run ops c).2.Tracked (Op.changes ops c changes) := by
  induction ops generalizing c changes with
  | nil => exact h
  | cons op ops ih => exact ih (h.run allowed.1) allowed.2

end Tracked

/-- A cursor that stands at a valid offset of its source after some changes, latest first. -/
structure Valid (c : Cursor) (changes : List Change) : Prop where
  within : c.pos ≤ c.source.size
  boundary : c.source.isBoundary c.pos
  /-- What is left is the text from the position on, and nothing is lost in front of it. -/
  rest : c.rest = c.source.slice c.pos c.source.size ∧ c.source.slice 0 c.pos ++ c.rest = c.source.text
  /-- Characters are taken from what is left, fewer at the end, and passed byte by byte. -/
  take : ∀ n, (c.take n).1.toList = c.rest.toList.take n ∧
    (c.take n).2.pos = c.pos + (c.take n).1.utf8ByteSize ∧ (c.take n).2.pos ≤ c.source.size
  /-- A jump ends at a boundary that is not behind the offset, so the walk back to it does not fall below zero. -/
  setPos : ∀ pos, (c.setPos pos).pos ≤ pos ∧ c.source.isBoundary (c.setPos pos).pos
  /-- Sums of offsets fit into their words; one that may not, that of a shift, may as well stop at the greatest offset. -/
  fits : c.source.size < offsetLimit ∧
    ∀ bytes, c.setPos (min (c.pos + bytes) (offsetLimit - 1)) = c.shift bytes
  /-- Undoing goes to the start of the latest match that stands. -/
  unscan : c.unscan.1 → ∃ m, (standing changes).head? = some m ∧ c.unscan.2.pos = m.start
  /-- Two matches that were consumed last can both be undone. -/
  twice : ∀ m n earlier, changes.filter (· ≠ .kept) = .logged m :: .logged n :: earlier →
    c.unscan.1 ∧ c.unscan.2.pos = m.start ∧ c.unscan.2.unscan.1 ∧ c.unscan.2.unscan.2.pos = n.start

theorem floorFrom_le (source : Source) (pos : Nat) : source.floorFrom pos ≤ pos := by
  induction pos with
  | zero => exact Nat.le_refl _
  | succ pos ih =>
    rw [Source.floorFrom]
    split
    · exact Nat.le_refl _
    · exact Nat.le_succ_of_le ih

theorem floor_le (source : Source) (pos : Nat) : source.floor pos ≤ pos :=
  Nat.le_trans (floorFrom_le source _) (Nat.min_le_left _ _)

/-- Offsets past the end are as good as the end. -/
theorem setPos_min (c : Cursor) {top : Nat} (fits : c.source.size ≤ top) (pos : Nat) :
    c.setPos (min pos top) = c.setPos pos := by
  have same : min (min pos top) c.source.size = min pos c.source.size := by omega
  rw [Cursor.setPos, Cursor.setPos, Source.floor, Source.floor, same]

namespace Tracked

variable {c : Cursor} {changes : List Change}

/-- What is left is the source from the position on. -/
theorem rest (h : c.Tracked changes) :
    c.rest = c.source.slice c.pos c.source.size ∧ c.source.slice 0 c.pos ++ c.rest = c.source.text := by
  obtain ⟨s, inside, pos, rest⟩ := h.sound.spot
  obtain ⟨stop, insideStop, size, ended⟩ := c.source.exists_end
  have within := h.sound.le_size
  obtain ⟨w, reads⟩ := inside.between insideStop (by omega)
  have left : c.rest = c.source.slice c.pos c.source.size := by
    rw [← pos, ← size, Source.slice_reads inside reads, Cursor.rest, rest, reads.rest, ended, List.append_nil]
  refine ⟨left, String.toList_injective ?_⟩
  have whole := Source.between_append c.source.isBoundary_zero h.sound.here c.source.isBoundary_size (Nat.zero_le _) within
  rw [Source.between_whole] at whole
  rw [left, String.toList_append]
  exact whole

theorem take (h : c.Tracked changes) (n : Nat) : (c.take n).1.toList = c.rest.toList.take n ∧
    (c.take n).2.pos = c.pos + (c.take n).1.utf8ByteSize ∧ (c.take n).2.pos ≤ c.source.size := by
  obtain ⟨text, d, eq, sound, _, _, front⟩ := h.sound.take n
  have within := sound.le_size
  refine ⟨?_, rfl, ?_⟩
  · rw [eq, front, Cursor.rest, String.toList_ofList]
  · rw [eq]
    exact within

theorem unscan_pos (h : c.Tracked changes) {latest : Logged} {older : List Logged} (history : c.history = latest :: older) :
    c.unscan.1 ∧ c.unscan.2.pos = latest.data.start := by
  have start := h.starts latest (by simp [history])
  simp only [Cursor.unscan, history]
  exact ⟨trivial, start⟩

/-- Two matches that were consumed last are both remembered. -/
theorem two (h : c.Tracked changes) {m n : Match} {earlier : List Change}
    (latest : changes.filter (· ≠ .kept) = .logged m :: .logged n :: earlier) :
    ∃ first second older, c.history = first :: second :: older ∧ first.data = m ∧ second.data = n := by
  have enough := h.enough
  have stand := h.latest
  rw [← loggedInRow_filter, latest, loggedInRow, loggedInRow] at enough
  rw [← standing_filter, latest, standing, standing] at stand
  match history : c.history with
  | [] =>
    rw [history, List.length_nil] at enough
    omega
  | [_] =>
    rw [history, List.length_singleton] at enough
    omega
  | first :: second :: older =>
    simp only [history, List.map_cons, List.cons_prefix_cons] at stand
    exact ⟨first, second, older, rfl, stand.1, stand.2.1⟩

theorem valid (h : c.Tracked changes) : c.Valid changes where
  within := h.sound.le_size
  boundary := h.sound.here
  rest := h.rest
  take := h.take
  setPos pos := ⟨floor_le _ _, Source.isBoundary_floor _ _⟩
  fits := ⟨h.fits, fun bytes => c.setPos_min (Nat.le_sub_one_of_lt h.fits) (c.pos + bytes)⟩
  unscan undone := by
    cases history : c.history with
    | nil => simp [Cursor.unscan, history] at undone
    | cons latest older =>
      obtain ⟨rest, eq⟩ := h.latest
      refine ⟨latest.data, ?_, (h.unscan_pos history).2⟩
      rw [← eq, history]
      rfl
  twice m n earlier latest := by
    obtain ⟨first, second, older, history, rfl, rfl⟩ := h.two latest
    have here := h.unscan_pos history
    have before := h.starts second (by simp [history])
    refine ⟨here.1, here.2, ?_⟩
    simp only [Cursor.unscan, history]
    exact ⟨trivial, before⟩

end Tracked

/-- After any operations on any source a cursor stands at a valid offset: it takes exactly the characters that come next,
no sum of offsets is too large, and the matches that it undoes are the latest that were consumed and not undone. -/
theorem valid_runAll (source : Source) (fits : source.size < offsetLimit) (ops : List Op)
    (allowed : Op.AllAllowed ops (ofSource source)) :
    (Op.runAll Op.run ops (ofSource source)).2.Valid (Op.changes ops (ofSource source) []) :=
  ((Tracked.ofSource fits).runAll allowed).valid

/-- A jump into a character, two matches and a shift past the end. -/
theorem valid_runAll_accented :
    let ops : List Op := [.setPos 2, .scan (.ofText "é"), .accept ⟨⟨3, 4⟩, []⟩, .shift 9]
    (Source.ofString "aéb").size < offsetLimit ∧ Op.AllAllowed ops (ofSource (.ofString "aéb")) ∧
      Op.changes ops (ofSource (.ofString "aéb")) [] =
        [.kept, .logged ⟨⟨3, 4⟩, []⟩, .logged ⟨⟨1, 3⟩, []⟩, .kept] ∧
      (Op.runAll Op.run ops (ofSource (.ofString "aéb"))).2.Valid (Op.changes ops (ofSource (.ofString "aéb")) []) := by
  have fits : (Source.ofString "aéb").size < offsetLimit := by decide
  have allowed : Op.AllAllowed [.setPos 2, .scan (.ofText "é"), .accept ⟨⟨3, 4⟩, []⟩, .shift 9]
      (ofSource (.ofString "aéb")) := by
    refine ⟨trivial, trivial, ⟨.ofText "b", 0, ?_⟩, trivial, trivial⟩
    decide +kernel
  exact ⟨fits, allowed, by decide +kernel, valid_runAll (.ofString "aéb") fits _ allowed⟩

end Gloss.Cursor

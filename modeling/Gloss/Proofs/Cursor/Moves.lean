import Gloss.Proofs.Regex.Words
import Gloss.Proofs.Cursor.Searches

/-!
Where a cursor moves. A cursor of a source stays at boundaries of it, what it keeps stays true, and each
operation says which match it found and where it left the cursor.
-/
namespace Gloss

open Text (Spot Source)

namespace Match

/-- The match covers a stretch of the source. -/
structure Spans (src : Source) (m : Match) : Prop where
  start : src.isBoundary m.start
  stop : src.isBoundary m.stop
  le : m.start ≤ m.stop

theorem Spans.text_eq {src : Source} {m : Match} (h : m.Spans src) :
    (m.text src).toList = src.between m.start m.stop := by
  obtain ⟨s, inside, start⟩ := Source.isBoundary_iff.mp h.start
  obtain ⟨t, insideT, stop⟩ := Source.isBoundary_iff.mp h.stop
  have le := h.le
  obtain ⟨w, reads⟩ := inside.between insideT (by omega)
  rw [Match.text, ← start, ← stop, Source.cut?_reads inside reads, Source.between_reads inside reads]
  simp

/-- Two groups of a match are its text up to an offset and from there on. -/
structure Halves (src : Source) (m : Match) (mid : Nat) : Prop where
  boundary : src.isBoundary mid
  low : m.start ≤ mid
  high : mid ≤ m.stop
  first : (m.groupText src 1).toList = src.between m.start mid
  second : (m.groupText src 2).toList = src.between mid m.stop

end Match

namespace Pattern

variable {p : Pattern} {src : Source} {m : Match} {s t : Spot} {marks : Regex.Marks}

theorem Occurs.reads (h : p.Occurs src m s t marks) : ∃ w, Spot.Reads s w t := Regex.Matches.reads h.covers

theorem Occurs.spans (h : p.Occurs src m s t marks) : m.Spans src := by
  obtain ⟨w, reads⟩ := h.reads
  refine ⟨?_, ?_, ?_⟩
  · rw [h.start]
    exact Source.isBoundary_of_in h.inside
  · rw [h.stop]
    exact Source.isBoundary_of_in (h.inside.reads reads)
  · rw [h.start, h.stop]
    exact reads.pos_le

theorem Occurs.text_eq {w : List Char} (h : p.Occurs src m s t marks) (reads : Spot.Reads s w t) :
    m.text src = String.ofList w := by
  rw [Match.text, h.start, h.stop, Source.cut?_reads h.inside reads, Option.getD_some]

/-- The two groups of a pattern that is nothing but these share the text of the match. -/
theorem Occurs.groups {first second : Regex} (pair : p.parsed.regex.twoGroups? = some (first, second))
    (h : p.Occurs src m s t marks) :
    ∃ (u : Spot) (v w : List Char), Spot.Reads s v u ∧ Spot.Reads u w t ∧ m.groupText src 1 = String.ofList v ∧
      m.groupText src 2 = String.ofList w ∧ first.Matches s [(2, s.pos)] u [(2, s.pos)] ∧
      ∃ mu, second.Matches u mu t mu := by
  obtain ⟨regex, plain⟩ := Regex.twoGroups?_some pair
  obtain ⟨inside, reports, rfl⟩ := h
  have covers := reports.covers
  rw [Covers, regex] at covers
  obtain ⟨u, _, ⟨mu, here, rfl⟩, mt, there, rfl⟩ := covers
  obtain rfl := here.marks_eq plain.1
  obtain rfl := there.marks_eq plain.2
  obtain ⟨v, readsV⟩ := here.reads
  obtain ⟨w, readsW⟩ := there.reads
  have count : 2 ≤ p.groupCount := by
    simp only [groupCount, regex, Regex.lastGroup]
    omega
  refine ⟨u, v, w, readsV, readsW, ?_, ?_, here, _, there⟩
  · exact groupText_toMatch (by omega) rfl rfl inside readsV
  · exact groupText_toMatch (by omega) rfl rfl (inside.reads readsV) readsW

theorem Occurs.halves (pair : p.parsed.regex.twoGroups?.isSome) (h : p.Occurs src m s t marks) :
    ∃ mid, m.Halves src mid := by
  obtain ⟨⟨first, second⟩, some_⟩ := Option.isSome_iff_exists.mp pair
  obtain ⟨u, v, w, readsV, readsW, groupV, groupW, _⟩ := h.groups some_
  have inside := h.inside.reads readsV
  refine ⟨u.pos, Source.isBoundary_of_in inside, ?_, ?_, ?_, ?_⟩
  · rw [h.start]
    exact readsV.pos_le
  · rw [h.stop]
    exact readsW.pos_le
  · rw [h.start, groupV, String.toList_ofList, Source.between_reads h.inside readsV]
  · rw [h.stop, groupW, String.toList_ofList, Source.between_reads inside readsW]

/-- What a check at an offset gives: a match there, or none because the pattern does not match there. -/
inductive Checked (p : Pattern) (src : Source) (pos : Nat) : Option Match → Prop where
  | none (absent : ∀ s : Spot, s.In src.chars → s.pos = pos → ¬ p.Starts s) : Checked p src pos none
  | some {m : Match} {s t : Spot} {marks : Regex.Marks} (occurs : p.Occurs src m s t marks)
      (here : s.pos = pos) (found : p.findFrom? src pos = Option.some m) : Checked p src pos (some m)

theorem checked_findFrom? {pos : Nat} :
    p.Checked src pos ((p.findFrom? src pos).filter (·.start == pos)) := by
  cases found : p.findFrom? src pos with
  | none =>
    refine .none ?_
    intro s inside here
    exact findFrom?_none.mp found s inside (by omega)
  | some m =>
    obtain ⟨s, t, marks, occurs, above, before⟩ := findFrom?_some found
    have start := occurs.start
    by_cases here : m.start = pos
    · simp only [Option.filter_some, here, beq_self_eq_true, if_true]
      exact .some occurs (by omega) found
    · simp only [Option.filter_some, beq_iff_eq, here, if_false]
      refine .none ?_
      intro u inside eq
      exact before u inside (by omega) (by omega)

end Pattern

namespace Cursor

variable {c : Cursor} {src : Source} {p : Pattern}

/-- A cursor of a source that is at a boundary and keeps what is true. -/
structure Sound (src : Source) (c : Cursor) : Prop where
  source : c.source = src
  faithful : c.Faithful
  here : src.isBoundary c.pos
  past : ∀ l ∈ c.history, src.isBoundary l.index

theorem sound_ofSource (src : Source) : (ofSource src).Sound src :=
  ⟨rfl, faithful_of_found_nil rfl, src.isBoundary_zero, by simp [ofSource]⟩

theorem Sound.le_size (h : c.Sound src) : c.pos ≤ src.size := Source.isBoundary_le h.here

theorem Sound.atEnd_iff (h : c.Sound src) : c.atEnd ↔ c.pos = src.size := by
  have := h.le_size
  rw [atEnd, h.source, decide_eq_true_eq]
  omega

/-- The spot at the cursor. -/
theorem Sound.spot (h : c.Sound src) :
    ∃ s : Spot, s.In src.chars ∧ s.pos = c.pos ∧ c.restChars = s.rest := by
  obtain ⟨s, inside, pos⟩ := Source.isBoundary_iff.mp h.here
  refine ⟨s, inside, pos, ?_⟩
  have found : c.source.spotAt? c.pos = some s := by
    rw [h.source]
    exact Source.spotAt?_eq_some.mpr ⟨inside, pos⟩
  rw [restChars, found]

/-- A part of the source that starts at the cursor. -/
theorem Sound.front (h : c.Sound src) {a b : List Char} (rest : c.restChars = a ++ b) :
    src.isBoundary (c.pos + Text.byteSize a) ∧ src.between c.pos (c.pos + Text.byteSize a) = a := by
  obtain ⟨s, inside, pos, eq⟩ := h.spot
  obtain ⟨t, reads⟩ : ∃ t, Spot.Reads s a t := ⟨_, Spot.Reads.of_rest (eq.symm.trans rest)⟩
  have stop : c.pos + Text.byteSize a = t.pos := by rw [reads.pos, pos]
  rw [stop, ← pos]
  exact ⟨Source.isBoundary_of_in (inside.reads reads), Source.between_reads inside reads⟩

/-- The characters from the cursor on are the rest of the source. -/
theorem Sound.size_eq (h : c.Sound src) : c.pos + Text.byteSize c.restChars = src.size := by
  obtain ⟨s, inside, pos, eq⟩ := h.spot
  have := inside.pos_add
  rw [eq, ← pos, Source.size_eq]
  omega

/-- Before the end there is a character, and it can be passed. -/
theorem Sound.head (h : c.Sound src) (before : c.pos < src.size) :
    ∃ ch rest, c.restChars = ch :: rest ∧ (Match.ofRange c.pos (c.pos + ch.utf8Size)).Spans src := by
  have size := h.size_eq
  cases eq : c.restChars with
  | nil =>
    rw [eq, Text.byteSize_nil] at size
    omega
  | cons ch rest =>
    have parts : c.restChars = [ch] ++ rest := eq
    obtain ⟨boundary, _⟩ := h.front parts
    rw [Text.byteSize_cons, Text.byteSize_nil, Nat.add_zero] at boundary
    exact ⟨ch, rest, rfl, h.here, boundary, Nat.le_add_right _ _⟩

/-- A move within the source. -/
theorem Sound.moveTo {d : Cursor} (h : c.Sound src) (source : d.source = c.source) (found : d.found = c.found)
    (history : d.history = c.history) (here : src.isBoundary d.pos) : d.Sound src :=
  ⟨source.trans h.source, h.faithful.of_eq source found, here, history ▸ h.past⟩

theorem Sound.search (h : c.Sound src) (p : Pattern) :
    ∃ d : Cursor, c.search p = (p.findFrom? src c.pos, d) ∧ d.Sound src ∧ d.pos = c.pos ∧
      d.history = c.history := by
  obtain ⟨d, eq, faithful, source, pos, history⟩ := search_eq (p := p) h.faithful
  rw [fresh, h.source] at eq
  exact ⟨d, eq, ⟨source.trans h.source, faithful, pos ▸ h.here, history ▸ h.past⟩, pos, history⟩

theorem Sound.check (h : c.Sound src) (p : Pattern) :
    ∃ r d, c.check p = (r, d) ∧ d.Sound src ∧ d.pos = c.pos ∧ d.history = c.history ∧
      p.Checked src c.pos r := by
  obtain ⟨d, eq, sound, pos, history⟩ := h.search p
  refine ⟨(p.findFrom? src c.pos).filter (·.start == c.pos), d, ?_, sound, pos, history,
    Pattern.checked_findFrom?⟩
  simp only [Cursor.check, eq, pos]

theorem Sound.setFloor (h : c.Sound src) (pos : Nat) :
    (c.setPos pos).Sound src ∧ (c.setPos pos).pos = src.floor pos := by
  have floor : c.source.floor pos = src.floor pos := by rw [h.source]
  refine ⟨h.moveTo rfl rfl rfl ?_, floor⟩
  show src.isBoundary (c.source.floor pos)
  rw [floor]
  exact src.isBoundary_floor pos

theorem Sound.setPos (h : c.Sound src) {pos : Nat} (boundary : src.isBoundary pos) :
    (c.setPos pos).Sound src ∧ (c.setPos pos).pos = pos := by
  obtain ⟨sound, here⟩ := h.setFloor pos
  exact ⟨sound, here.trans (Source.floor_of_isBoundary boundary)⟩

theorem Sound.accept (h : c.Sound src) {m : Match} (spans : m.Spans src) :
    (c.accept m).Sound src ∧ (c.accept m).pos = m.stop ∧
      (c.accept m).history = ⟨m.start, m⟩ :: c.history.take 1 := by
  have logged : (c.log m.start m).Sound src := by
    refine ⟨h.source, h.faithful.of_eq rfl rfl, h.here, ?_⟩
    intro l member
    rcases List.mem_cons.mp member with rfl | member
    · exact spans.start
    · exact h.past l (List.mem_of_mem_take member)
  obtain ⟨sound, pos⟩ := logged.setPos spans.stop
  exact ⟨sound, pos, rfl⟩

/-- Undoing a match that was just consumed goes back to its start. -/
theorem Sound.unscan {m : Match} {older : List Logged} (h : c.Sound src)
    (latest : c.history = ⟨m.start, m⟩ :: older) :
    ∃ d, c.unscan = (true, d) ∧ d.Sound src ∧ d.pos = m.start := by
  have start := h.past ⟨m.start, m⟩ (by simp [latest])
  refine ⟨{ c with pos := m.start, history := older }, by simp [Cursor.unscan, latest], ?_, rfl⟩
  refine ⟨h.source, h.faithful.of_eq rfl rfl, start, ?_⟩
  intro l member
  exact h.past l (by simp [latest, member])

/-- Consuming a match at the position: either there is none and nothing moves, or the cursor is behind it. -/
theorem Sound.scan (h : c.Sound src) (p : Pattern) :
    ∃ r d, c.scan p = (r, d) ∧ d.Sound src ∧ p.Checked src c.pos r ∧
      d.pos = (r.map Match.stop).getD c.pos := by
  obtain ⟨r, d, eq, sound, pos, _, checked⟩ := h.check p
  simp only [Cursor.scan, eq]
  cases checked with
  | none absent => exact ⟨none, d, rfl, sound, .none absent, pos⟩
  | @some m s t marks occurs here found =>
    obtain ⟨accepted, stop, _⟩ := sound.accept occurs.spans
    exact ⟨some m, d.accept m, rfl, accepted, .some occurs here found, stop⟩

/-- Consuming up to the next match, which is left. -/
theorem Sound.scanUntil (h : c.Sound src) (p : Pattern) :
    ∃ r d, c.scanUntil p = (r, d) ∧ d.Sound src ∧
      ((r = none ∧ d.pos = c.pos ∧ p.findFrom? src c.pos = none) ∨
        ∃ m, p.findFrom? src c.pos = some m ∧ r = some (Match.ofRange c.pos m.start) ∧ d.pos = m.start ∧
          c.pos ≤ m.start ∧ src.isBoundary m.start) := by
  obtain ⟨d, eq, sound, pos, history⟩ := h.search p
  simp only [Cursor.scanUntil, eq]
  cases found : p.findFrom? src c.pos with
  | none => exact ⟨none, d, rfl, sound, .inl ⟨rfl, pos, rfl⟩⟩
  | some m =>
    obtain ⟨s, t, marks, occurs, above, _⟩ := Pattern.findFrom?_some found
    have start := occurs.spans.start
    simp only [pos]
    refine ⟨some (Match.ofRange c.pos m.start), { (d.log c.pos (Match.ofRange c.pos m.start)) with pos := m.start },
      rfl, ?_, .inr ⟨m, rfl, rfl, rfl, ?_, start⟩⟩
    · refine ⟨sound.source, sound.faithful.of_eq rfl rfl, start, ?_⟩
      intro l member
      rcases List.mem_cons.mp member with rfl | member
      · exact h.here
      · exact sound.past l (List.mem_of_mem_take member)
    · rw [occurs.start]
      exact above

theorem Sound.terminate (h : c.Sound src) : c.terminate.Sound src ∧ c.terminate.pos = src.size := by
  have size : c.source.size = src.size := by rw [h.source]
  refine ⟨⟨h.source, faithful_of_found_nil rfl, ?_, by simp [Cursor.terminate]⟩, size⟩
  show src.isBoundary c.source.size
  rw [size]
  exact src.isBoundary_size

theorem Sound.nearest {ι : Type} (h : c.Sound src) (patterns : List (ι × Pattern)) :
    ∃ d : Cursor, c.nearest patterns = ((c.freshAll patterns).foldl nearer none, d) ∧ d.Sound src ∧
      d.pos = c.pos ∧ d.history = c.history := by
  obtain ⟨d, eq, faithful, source, pos, history⟩ := nearest_eq h.faithful patterns
  exact ⟨d, eq, ⟨source.trans h.source, faithful, pos ▸ h.here, history ▸ h.past⟩, pos, history⟩

/-- Consuming characters gives the text between the positions before and after. -/
theorem Sound.take (h : c.Sound src) (n : Nat) :
    ∃ text d, c.take n = (text, d) ∧ d.Sound src ∧ c.pos ≤ d.pos ∧ text.toList = src.between c.pos d.pos ∧
      text.toList = c.restChars.take n := by
  obtain ⟨s, inside, pos, rest⟩ := h.spot
  have parts : s.rest = s.rest.take n ++ s.rest.drop n := (List.take_append_drop n s.rest).symm
  obtain ⟨t, reads, _⟩ : ∃ t, Spot.Reads s (s.rest.take n) t ∧ True := ⟨_, Spot.Reads.of_rest parts, trivial⟩
  have stop : c.pos + (c.peekMany n).utf8ByteSize = t.pos := by
    rw [peekMany, rest, Text.utf8ByteSize_ofList, reads.pos, pos]
  refine ⟨c.peekMany n, { c with pos := c.pos + (c.peekMany n).utf8ByteSize }, rfl, ?_, ?_, ?_, ?_⟩
  · refine h.moveTo rfl rfl rfl ?_
    show src.isBoundary (c.pos + (c.peekMany n).utf8ByteSize)
    rw [stop]
    exact Source.isBoundary_of_in (inside.reads reads)
  · exact Nat.le_add_right _ _
  · show (c.peekMany n).toList = src.between c.pos (c.pos + (c.peekMany n).utf8ByteSize)
    rw [stop, ← pos, Source.between_reads inside reads, peekMany, rest, String.toList_ofList]
  · rw [peekMany, String.toList_ofList]

end Cursor

end Gloss

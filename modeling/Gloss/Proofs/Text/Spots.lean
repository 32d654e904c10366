import Gloss.Text.Source

/-!
Spots of a text and the stretches between them. Reading a piece of text leads from one spot to another, and
every offset of a source is answered by the first spot at or after it. A slice between two spots is the
piece that is read from the first to the second.
-/
namespace Gloss.Text

@[simp] theorem byteSize_nil : byteSize [] = 0 := rfl

@[simp] theorem byteSize_cons (c : Char) (s : List Char) :
    byteSize (c :: s) = c.utf8Size + byteSize s := rfl

@[simp] theorem byteSize_append (a b : List Char) : byteSize (a ++ b) = byteSize a + byteSize b := by
  induction a with
  | nil => simp
  | cons c a ih => simp [ih, Nat.add_assoc]

theorem byteSize_eq_zero {s : List Char} : byteSize s = 0 ↔ s = [] := by
  cases s with
  | nil => simp
  | cons c s => simp [Nat.pos_iff_ne_zero.mp c.utf8Size_pos]

theorem length_le_byteSize (s : List Char) : s.length ≤ byteSize s := by
  induction s with
  | nil => simp
  | cons c s ih =>
    have := c.utf8Size_pos
    simp only [List.length_cons, byteSize_cons]
    omega

theorem takeBytes_append (a b : List Char) : takeBytes (byteSize a) (a ++ b) = a := by
  induction a with
  | nil =>
    cases b with
    | nil => rfl
    | cons c b => simp [takeBytes, Nat.pos_iff_ne_zero.mp c.utf8Size_pos]
  | cons c a ih => simp [takeBytes, ih]

theorem utf8ByteSize_ofList (s : List Char) : (String.ofList s).utf8ByteSize = byteSize s := by
  induction s with
  | nil => rfl
  | cons c s ih =>
    rw [show c :: s = [c] ++ s from rfl, String.ofList_append, String.utf8ByteSize_append, ih]
    simp [String.utf8ByteSize_singleton]

namespace Spot

/-- Reading `w` leads from one spot to the other. -/
structure Reads (s : Spot) (w : List Char) (t : Spot) : Prop where
  rest : s.rest = w ++ t.rest
  pos : t.pos = s.pos + byteSize w
  before : t.before = w.getLast?.or s.before

theorem Reads.refl (s : Spot) : Reads s [] s := ⟨rfl, rfl, rfl⟩

theorem Reads.eq_of_nil {s t : Spot} (h : Reads s [] t) : t = s := by
  obtain ⟨rest, pos, before⟩ := h
  cases s; cases t
  simp_all

theorem Reads.step {s : Spot} {c : Char} {rest : List Char} (h : s.rest = c :: rest) :
    Reads s [c] (s.step c rest) :=
  ⟨h, by simp [Spot.step], by simp [Spot.step]⟩

theorem Reads.trans {s t u : Spot} {a b : List Char} (first : Reads s a t) (second : Reads t b u) :
    Reads s (a ++ b) u := by
  refine ⟨?_, ?_, ?_⟩
  · rw [first.rest, second.rest, List.append_assoc]
  · rw [second.pos, first.pos, byteSize_append, Nat.add_assoc]
  · rw [second.before, first.before, List.getLast?_append, Option.or_assoc]

theorem Reads.cons {s t : Spot} {c : Char} {rest w : List Char} (h : s.rest = c :: rest)
    (more : Reads (s.step c rest) w t) : Reads s (c :: w) t :=
  (Reads.step h).trans more

theorem Reads.pos_le {s t : Spot} {w : List Char} (h : Reads s w t) : s.pos ≤ t.pos := by
  have := h.pos
  omega

theorem Reads.length_le {s t : Spot} {w : List Char} (h : Reads s w t) : t.rest.length ≤ s.rest.length := by
  rw [h.rest, List.length_append]
  omega

theorem Reads.length_lt {s t : Spot} {w : List Char} (h : Reads s w t) (further : s.pos < t.pos) :
    t.rest.length < s.rest.length := by
  have some_ : w ≠ [] := by
    rintro rfl
    rw [h.eq_of_nil] at further
    omega
  have := List.length_pos_iff.mpr some_
  rw [h.rest, List.length_append]
  omega

/-- What is read determines where it leads. -/
theorem Reads.unique {s t u : Spot} {w : List Char} (first : Reads s w t) (second : Reads s w u) :
    t = u := by
  obtain ⟨restT, posT, beforeT⟩ := first
  obtain ⟨restU, posU, beforeU⟩ := second
  have rest : t.rest = u.rest := List.append_cancel_left (restT.symm.trans restU)
  cases t; cases u
  simp_all

theorem Reads.word_eq {s t : Spot} {v w : List Char} (first : Reads s v t) (second : Reads s w t) : v = w :=
  List.append_cancel_right (first.rest.symm.trans second.rest)

/-- A shorter piece of what is read leads to a spot between the two. -/
theorem Reads.split {s t : Spot} {a b : List Char} (h : Reads s (a ++ b) t) :
    ∃ m, Reads s a m ∧ Reads m b t := by
  refine ⟨⟨s.pos + byteSize a, a.getLast?.or s.before, b ++ t.rest⟩, ⟨?_, rfl, rfl⟩, ⟨rfl, ?_, ?_⟩⟩
  · rw [h.rest, List.append_assoc]
  · rw [h.pos, byteSize_append, Nat.add_assoc]
  · rw [h.before, List.getLast?_append, Option.or_assoc]

/-- Every front of the rest is read by some spot. -/
theorem Reads.of_rest {s : Spot} {a b : List Char} (h : s.rest = a ++ b) :
    Reads s a ⟨s.pos + byteSize a, a.getLast?.or s.before, b⟩ :=
  ⟨h, rfl, rfl⟩

theorem Reads.cons_inv {s t : Spot} {c : Char} {w : List Char} (h : Reads s (c :: w) t) :
    ∃ rest, s.rest = c :: rest ∧ Reads (s.step c rest) w t := by
  obtain ⟨m, first, second⟩ := Reads.split (a := [c]) h
  have rest : s.rest = c :: m.rest := first.rest
  refine ⟨m.rest, rest, ?_⟩
  rwa [← first.unique (Reads.step rest)]

/-- Of two spots that are read from one, the one with the smaller offset comes first. -/
theorem Reads.between {s t u : Spot} {a b : List Char} (first : Reads s a t) (second : Reads s b u)
    (le : t.pos ≤ u.pos) : ∃ w, b = a ++ w ∧ Reads t w u := by
  have whole : a ++ t.rest = b ++ u.rest := first.rest.symm.trans second.rest
  rcases List.append_eq_append_iff.mp whole with ⟨w, rfl, rest⟩ | ⟨w, rfl, rest⟩
  · refine ⟨w, rfl, ?_⟩
    obtain ⟨m, left, right⟩ := second.split
    rwa [first.unique left]
  · have size : byteSize w = 0 := by
      have posT := first.pos
      have posU := second.pos
      simp only [byteSize_append] at posT
      omega
    obtain rfl := byteSize_eq_zero.mp size
    refine ⟨[], by simp, ?_⟩
    simp only [List.append_nil] at first
    rw [first.unique second]
    exact Reads.refl u

theorem Reads.eq_of_pos {s t u : Spot} {a b : List Char} (first : Reads s a t) (second : Reads s b u)
    (pos : t.pos = u.pos) : t = u := by
  obtain ⟨w, rfl, more⟩ := first.between second (Nat.le_of_eq pos)
  have size : byteSize w = 0 := by
    have := more.pos
    omega
  obtain rfl := byteSize_eq_zero.mp size
  exact more.eq_of_nil.symm

/-- The spot lies in a text. -/
def In (chars : List Char) (s : Spot) : Prop := ∃ w, Reads (start chars) w s

theorem start_rest (chars : List Char) : (start chars).rest = chars := rfl

theorem In.start (chars : List Char) : In chars (Spot.start chars) := ⟨[], Reads.refl _⟩

theorem In.reads {chars w : List Char} {s t : Spot} (h : In chars s) (more : Reads s w t) : In chars t := by
  obtain ⟨u, first⟩ := h
  exact ⟨u ++ w, first.trans more⟩

theorem In.eq_of_pos {chars : List Char} {s t : Spot} (hs : In chars s) (ht : In chars t)
    (pos : s.pos = t.pos) : s = t := by
  obtain ⟨_, first⟩ := hs
  obtain ⟨_, second⟩ := ht
  exact first.eq_of_pos second pos

theorem In.between {chars : List Char} {s t : Spot} (hs : In chars s) (ht : In chars t)
    (le : s.pos ≤ t.pos) : ∃ w, Reads s w t := by
  obtain ⟨_, first⟩ := hs
  obtain ⟨_, second⟩ := ht
  obtain ⟨w, _, more⟩ := first.between second le
  exact ⟨w, more⟩

theorem In.pos_add {chars : List Char} {s : Spot} (h : In chars s) :
    s.pos + byteSize s.rest = byteSize chars := by
  obtain ⟨w, rest, pos, _⟩ := h
  have whole : chars = w ++ s.rest := rest
  rw [whole, byteSize_append, pos]
  simp [Spot.start]

/-- The spots from a place to the end of the text, in order. -/
def fromPlace (pos : Nat) (before : Option Char) : List Char → List Spot
  | [] => [⟨pos, before, []⟩]
  | c :: rest => ⟨pos, before, c :: rest⟩ :: fromPlace (pos + c.utf8Size) (some c) rest

/-- The spot itself and all after it, in order. -/
def onward (s : Spot) : List Spot := fromPlace s.pos s.before s.rest

theorem onward_nil {s : Spot} (h : s.rest = []) : s.onward = [s] := by
  cases s
  simp_all [onward, fromPlace]

theorem onward_cons {s : Spot} {c : Char} {rest : List Char} (h : s.rest = c :: rest) :
    s.onward = s :: (s.step c rest).onward := by
  cases s
  simp_all [onward, fromPlace, step]

/-- The spots behind a piece of text are the last ones. -/
theorem Reads.onward_eq {s t : Spot} {w : List Char} (h : Reads s w t) :
    ∃ passed, s.onward = passed ++ t.onward ∧ ∀ u ∈ passed, u.pos < t.pos := by
  induction w generalizing s with
  | nil => exact ⟨[], by rw [h.eq_of_nil]; rfl, by simp⟩
  | cons c w ih =>
    obtain ⟨rest, hrest, more⟩ := h.cons_inv
    obtain ⟨passed, eq, before⟩ := ih more
    refine ⟨s :: passed, by rw [onward_cons hrest, eq]; rfl, ?_⟩
    intro u member
    rcases List.mem_cons.mp member with rfl | member
    · have := c.utf8Size_pos
      have := h.pos
      simp only [byteSize_cons] at this
      omega
    · exact before u member

theorem mem_onward {s t : Spot} : t ∈ s.onward ↔ ∃ w, Reads s w t := by
  constructor
  · intro member
    generalize hr : s.rest = r at *
    induction r generalizing s with
    | nil =>
      rw [onward_nil hr, List.mem_singleton] at member
      exact ⟨[], member ▸ Reads.refl s⟩
    | cons c r ih =>
      rw [onward_cons hr, List.mem_cons] at member
      rcases member with rfl | member
      · exact ⟨[], Reads.refl t⟩
      · obtain ⟨w, more⟩ := ih member rfl
        exact ⟨c :: w, Reads.cons hr more⟩
  · rintro ⟨w, h⟩
    obtain ⟨passed, eq, _⟩ := h.onward_eq
    rw [eq]
    refine List.mem_append_right _ ?_
    cases ht : t.rest with
    | nil => simp [onward_nil ht]
    | cons c r => simp [onward_cons ht]

theorem onward_pairwise (s : Spot) : s.onward.Pairwise (·.pos < ·.pos) := by
  generalize hr : s.rest = r
  induction r generalizing s with
  | nil => simp [onward_nil hr]
  | cons c r ih =>
    rw [onward_cons hr, List.pairwise_cons]
    refine ⟨?_, ih _ rfl⟩
    intro t member
    obtain ⟨w, more⟩ := mem_onward.mp member
    have positive := c.utf8Size_pos
    have after := more.pos_le
    simp only [step] at after
    omega

/-- The entry for an offset is the first spot at or after it. -/
theorem byOffset_get {pos : Nat} {before : Option Char} {chars : List Char} {i : Nat} {t : Spot}
    (found : (byOffset pos before chars)[i]? = some t) :
    pos + i ≤ t.pos ∧ (∃ w, Reads ⟨pos, before, chars⟩ w t) ∧
      ∀ u w, Reads ⟨pos, before, chars⟩ w u → pos + i ≤ u.pos → t.pos ≤ u.pos := by
  induction chars generalizing pos before i with
  | nil =>
    cases i with
    | zero =>
      simp only [byOffset, List.getElem?_cons_zero, Option.some.injEq] at found
      subst found
      exact ⟨Nat.le_refl _, ⟨[], Reads.refl _⟩, fun u w h _ => h.pos_le⟩
    | succ i => simp [byOffset] at found
  | cons c rest ih =>
    have positive := c.utf8Size_pos
    cases i with
    | zero =>
      simp only [byOffset, List.getElem?_cons_zero, Option.some.injEq] at found
      subst found
      exact ⟨Nat.le_refl _, ⟨[], Reads.refl _⟩, fun u w h _ => h.pos_le⟩
    | succ i =>
      simp only [byOffset, List.getElem?_cons_succ] at found
      -- A spot past this place has read the first character at least.
      have past : ∀ u w, Reads ⟨pos, before, c :: rest⟩ w u → pos + (i + 1) ≤ u.pos →
          ∃ w', Reads ⟨pos + c.utf8Size, some c, rest⟩ w' u := by
        intro u w h le
        cases w with
        | nil =>
          have := h.pos
          simp only [byteSize_nil] at this
          omega
        | cons d w =>
          obtain ⟨rest', eq, more⟩ := h.cons_inv
          simp only [List.cons.injEq] at eq
          obtain ⟨rfl, rfl⟩ := eq
          exact ⟨w, more⟩
      by_cases inside : i < c.utf8Size - 1
      · rw [List.getElem?_append_left (by simpa using inside), List.getElem?_replicate] at found
        simp only [inside, if_true, Option.some.injEq] at found
        subst found
        refine ⟨by simp only; omega, ⟨[c], Reads.step (s := ⟨pos, before, c :: rest⟩) rfl⟩, ?_⟩
        intro u w h le
        obtain ⟨w', more⟩ := past u w h le
        exact more.pos_le
      · rw [List.getElem?_append_right (by simp; omega), List.length_replicate] at found
        obtain ⟨le, ⟨w, reads⟩, least⟩ := ih found
        refine ⟨by omega, ⟨c :: w, Reads.cons (s := ⟨pos, before, c :: rest⟩) rfl reads⟩, ?_⟩
        intro u v h le'
        obtain ⟨w', more⟩ := past u v h le'
        exact least u w' more (by omega)

theorem length_byOffset (pos : Nat) (before : Option Char) (chars : List Char) :
    (byOffset pos before chars).length = byteSize chars + 1 := by
  induction chars generalizing pos before with
  | nil => rfl
  | cons c rest ih =>
    have := c.utf8Size_pos
    simp only [byOffset, List.length_cons, List.length_append, List.length_replicate, ih, byteSize_cons]
    omega

end Spot

namespace Source

/-- The characters of a source. -/
def chars (src : Source) : List Char := src.text.toList

@[simp] theorem chars_ofString (text : String) : (ofString text).chars = text.toList := rfl

theorem size_eq (src : Source) : src.size = byteSize src.chars := by
  have length := Spot.length_byOffset 0 none src.text.toList
  simp only [size, src.spots_eq, List.size_toArray, length, chars]
  omega

theorem size_ofString (text : String) : (ofString text).size = text.utf8ByteSize := by
  have size := utf8ByteSize_ofList text.toList
  rw [String.ofList_toList] at size
  rw [size_eq, chars_ofString, size]

theorem spotFrom?_eq (src : Source) (pos : Nat) :
    src.spotFrom? pos = (Spot.byOffset 0 none src.chars)[pos]? := by
  simp [spotFrom?, src.spots_eq, chars]

/-- The spot for an offset is the first one at or after it. -/
theorem spotFrom?_some {src : Source} {pos : Nat} {s : Spot} (found : src.spotFrom? pos = some s) :
    s.In src.chars ∧ pos ≤ s.pos ∧ ∀ u : Spot, u.In src.chars → pos ≤ u.pos → s.pos ≤ u.pos := by
  rw [spotFrom?_eq] at found
  obtain ⟨le, reads, least⟩ := Spot.byOffset_get found
  refine ⟨reads, by omega, ?_⟩
  rintro u ⟨w, h⟩ le'
  exact least u w h (by omega)

theorem spotFrom?_isSome {src : Source} {pos : Nat} : (src.spotFrom? pos).isSome ↔ pos ≤ src.size := by
  rw [spotFrom?_eq, size_eq, Option.isSome_iff_ne_none, ne_eq, List.getElem?_eq_none_iff,
    Spot.length_byOffset]
  omega

theorem spotAt?_eq_some {src : Source} {pos : Nat} {s : Spot} :
    src.spotAt? pos = some s ↔ s.In src.chars ∧ s.pos = pos := by
  constructor
  · intro found
    simp only [spotAt?, Option.filter_eq_some_iff, beq_iff_eq] at found
    exact ⟨(spotFrom?_some found.1).1, found.2⟩
  · rintro ⟨member, rfl⟩
    have le : s.pos ≤ src.size := by
      have := member.pos_add
      rw [size_eq]
      omega
    obtain ⟨t, found⟩ := Option.isSome_iff_exists.mp (spotFrom?_isSome.mpr le)
    obtain ⟨memberT, above, least⟩ := spotFrom?_some found
    have eq : t = s := memberT.eq_of_pos member (Nat.le_antisymm (least s member (Nat.le_refl _)) above)
    simp [spotAt?, found, eq]

theorem isBoundary_iff {src : Source} {pos : Nat} :
    src.isBoundary pos ↔ ∃ s : Spot, s.In src.chars ∧ s.pos = pos := by
  rw [isBoundary, Option.isSome_iff_exists]
  exact exists_congr fun s => spotAt?_eq_some

theorem isBoundary_of_in {src : Source} {s : Spot} (member : s.In src.chars) : src.isBoundary s.pos :=
  isBoundary_iff.mpr ⟨s, member, rfl⟩

theorem isBoundary_le {src : Source} {pos : Nat} (h : src.isBoundary pos) : pos ≤ src.size := by
  obtain ⟨s, member, rfl⟩ := isBoundary_iff.mp h
  have := member.pos_add
  rw [size_eq]
  omega

theorem isBoundary_zero (src : Source) : src.isBoundary 0 :=
  isBoundary_of_in (Spot.In.start src.chars)

/-- The spot at the end of a source. -/
theorem exists_end (src : Source) : ∃ s : Spot, s.In src.chars ∧ s.pos = src.size ∧ s.rest = [] := by
  refine ⟨⟨byteSize src.chars, src.chars.getLast?, []⟩, ⟨src.chars, ?_⟩, (size_eq src).symm, rfl⟩
  exact ⟨by simp [Spot.start], by simp [Spot.start], by simp [Spot.start]⟩

theorem isBoundary_size (src : Source) : src.isBoundary src.size := by
  obtain ⟨s, member, pos, _⟩ := src.exists_end
  exact isBoundary_iff.mpr ⟨s, member, pos⟩

theorem rest_eq_nil_iff {src : Source} {s : Spot} (member : s.In src.chars) :
    s.rest = [] ↔ s.pos = src.size := by
  have := member.pos_add
  rw [size_eq, ← byteSize_eq_zero]
  omega

/-- The slice between two spots is what is read between them. -/
theorem cut?_reads {src : Source} {s t : Spot} {w : List Char} (member : s.In src.chars)
    (h : Spot.Reads s w t) : src.cut? s.pos t.pos = some (String.ofList w) := by
  have start : src.spotAt? s.pos = some s := spotAt?_eq_some.mpr ⟨member, rfl⟩
  have stop : src.isBoundary t.pos := isBoundary_of_in (member.reads h)
  have size : t.pos - s.pos = byteSize w := by
    have := h.pos
    omega
  simp [cut?, start, stop, h.pos_le, size, h.rest, takeBytes_append]

theorem slice_reads {src : Source} {s t : Spot} {w : List Char} (member : s.In src.chars)
    (h : Spot.Reads s w t) : src.slice s.pos t.pos = String.ofList w := by
  have bound := isBoundary_le (isBoundary_of_in (member.reads h))
  simp only [slice, Nat.min_eq_left bound, Nat.min_eq_left h.pos_le, cut?_reads member h,
    Option.getD_some]

/-- The characters between two offsets. -/
def between (src : Source) (start stop : Nat) : List Char := (src.slice start stop).toList

theorem between_reads {src : Source} {s t : Spot} {w : List Char} (member : s.In src.chars)
    (h : Spot.Reads s w t) : src.between s.pos t.pos = w := by
  simp [between, slice_reads member h]

theorem between_self {src : Source} {a : Nat} (ha : src.isBoundary a) : src.between a a = [] := by
  obtain ⟨s, member, rfl⟩ := isBoundary_iff.mp ha
  exact between_reads member (Spot.Reads.refl s)

theorem between_append {src : Source} {a b c : Nat} (ha : src.isBoundary a) (hb : src.isBoundary b)
    (hc : src.isBoundary c) (ab : a ≤ b) (bc : b ≤ c) :
    src.between a b ++ src.between b c = src.between a c := by
  obtain ⟨s, memberS, rfl⟩ := isBoundary_iff.mp ha
  obtain ⟨t, memberT, rfl⟩ := isBoundary_iff.mp hb
  obtain ⟨u, memberU, rfl⟩ := isBoundary_iff.mp hc
  obtain ⟨v, first⟩ := memberS.between memberT ab
  obtain ⟨w, second⟩ := memberT.between memberU bc
  rw [between_reads memberS first, between_reads memberT second,
    between_reads memberS (first.trans second)]

theorem between_whole (src : Source) : src.between 0 src.size = src.chars := by
  obtain ⟨s, member, pos, rest⟩ := src.exists_end
  obtain ⟨w, h⟩ := member
  have eq := between_reads (Spot.In.start src.chars) h
  rw [show (Spot.start src.chars).pos = 0 from rfl, pos] at eq
  have whole : src.chars = w ++ s.rest := h.rest
  rw [eq, whole, rest, List.append_nil]

theorem byteSize_between {src : Source} {a b : Nat} (ha : src.isBoundary a) (hb : src.isBoundary b)
    (ab : a ≤ b) : a + byteSize (src.between a b) = b := by
  obtain ⟨s, memberS, rfl⟩ := isBoundary_iff.mp ha
  obtain ⟨t, memberT, rfl⟩ := isBoundary_iff.mp hb
  obtain ⟨w, h⟩ := memberS.between memberT ab
  rw [between_reads memberS h, h.pos]

theorem slice_eq_ofList (src : Source) (a b : Nat) : src.slice a b = String.ofList (src.between a b) := by
  simp [between]

theorem isBoundary_floorFrom (src : Source) (pos : Nat) : src.isBoundary (src.floorFrom pos) := by
  induction pos with
  | zero => exact src.isBoundary_zero
  | succ pos ih =>
    simp only [floorFrom]
    split
    · assumption
    · exact ih

theorem isBoundary_floor (src : Source) (pos : Nat) : src.isBoundary (src.floor pos) :=
  isBoundary_floorFrom src _

theorem floor_of_isBoundary {src : Source} {pos : Nat} (h : src.isBoundary pos) : src.floor pos = pos := by
  rw [floor, Nat.min_eq_left (isBoundary_le h)]
  cases pos with
  | zero => rfl
  | succ pos => simp [floorFrom, h]

/-- One byte behind a boundary is the next boundary, or nothing is passed. -/
theorem floor_succ {src : Source} {pos : Nat} (h : src.isBoundary pos) :
    src.floor (pos + 1) = if src.isBoundary (pos + 1) then pos + 1 else pos := by
  split
  · next next_ => exact floor_of_isBoundary next_
  · next inside =>
    have bound := isBoundary_le h
    rcases Nat.lt_or_eq_of_le bound with before | ended
    · have here : src.floorFrom pos = pos := by
        simpa only [floor, Nat.min_eq_left bound] using floor_of_isBoundary h
      rw [floor, Nat.min_eq_left before, floorFrom, if_neg inside, here]
    · have here := floor_of_isBoundary src.isBoundary_size
      rw [floor, Nat.min_self] at here
      rw [floor, Nat.min_eq_right (by omega), here, ended]

end Source

end Gloss.Text

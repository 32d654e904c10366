import Gloss.Proofs.Regex.Edges
import Gloss.Proofs.Scan.Suspended

/-!
Stretches of a source in which the server's tag does not start. A token is such a stretch if the tag is not in
its text and the token does not end between the two characters of the tag; the part of a token before the first
tag in it is always one.
-/
namespace Gloss

open Text (Spot Source)

namespace Text.Source

/-- The word stands nowhere from one offset on up to another; it may stand at the second. -/
def Clear (src : Source) (word : String) (start stop : Nat) : Prop :=
  ∀ pos, start ≤ pos → pos < stop → ¬ src.At word pos

variable {src : Source} {word : String} {a b c : Nat}

theorem Clear.self (src : Source) (word : String) (pos : Nat) : src.Clear word pos pos :=
  fun _ le lt => absurd lt (by omega)

theorem Clear.append (first : src.Clear word a b) (second : src.Clear word b c) : src.Clear word a c := by
  intro pos le lt
  by_cases before : pos < b
  · exact first pos le before
  · exact second pos (by omega) lt

theorem Clear.front (h : src.Clear word a c) (le : b ≤ c) : src.Clear word a b :=
  fun pos above lt => h pos above (by omega)

theorem clear_of_avoids (first : src.isBoundary a) (last : src.isBoundary b) (absent : '<' ∉ src.between a b) :
    src.Clear "<?" a b := by
  rintro pos le lt ⟨u, inside, rfl, back, rest⟩
  obtain ⟨s, insideS, rfl⟩ := isBoundary_iff.mp first
  obtain ⟨t, insideT, rfl⟩ := isBoundary_iff.mp last
  obtain ⟨v, readsV⟩ := insideS.between inside le
  obtain ⟨w, readsW⟩ := inside.between insideT (Nat.le_of_lt lt)
  rw [between_reads insideS (readsV.trans readsW)] at absent
  have split := readsW.rest
  rw [rest] at split
  match w, split with
  | [], _ =>
    have := readsW.pos
    rw [byteSize_nil] at this
    omega
  | c :: w, split =>
    obtain rfl : '<' = c := (List.cons.inj split).1
    exact absent (by simp)

/-- The server's tag is what begins with its first character and goes on with its second. -/
theorem at_tag_iff {pos : Nat} : src.At "<?" pos ↔ ∃ s : Spot, s.In src.chars ∧ s.pos = pos ∧
    ∃ back, s.rest = '<' :: '?' :: back := Iff.rfl

theorem not_at_tag_size : ¬ src.At "<?" src.size := by
  intro at_
  obtain ⟨u, inside, here, back, rest⟩ := at_tag_iff.mp at_
  have empty := (rest_eq_nil_iff inside).mpr here
  rw [rest] at empty
  cases empty

end Text.Source

/-- The place lies inside the server's tag. -/
def Text.Source.InTag (src : Source) (pos : Nat) : Prop :=
  ∃ s : Spot, s.In src.chars ∧ s.pos = pos ∧ Regex.Between '<' '?' s

namespace Match.Spans

variable {src : Source} {m : Match}

/-- A match without the tag in its text is clear, unless it ends in a tag. -/
theorem clear (h : m.Spans src) (untagged : Text.indexOf? "<?" (m.text src) = none) (apart : ¬ src.InTag m.stop) :
    src.Clear "<?" m.start m.stop := by
  intro pos above below at_
  obtain ⟨s, insideS, start⟩ := Source.isBoundary_iff.mp h.start
  obtain ⟨t, insideT, stop⟩ := Source.isBoundary_iff.mp h.stop
  obtain ⟨u, inside, here, back, rest⟩ := Source.at_tag_iff.mp at_
  obtain ⟨v, readsV⟩ := insideS.between inside (by omega)
  obtain ⟨w, readsW⟩ := inside.between insideT (by omega)
  have text : (m.text src).toList = v ++ w := by
    rw [h.text_eq, ← start, ← stop, Source.between_reads insideS (readsV.trans readsW)]
  have split := readsW.rest
  rw [rest] at split
  match w, split with
  | [], _ =>
    have := readsW.pos
    rw [Text.byteSize_nil] at this
    omega
  | [c], split =>
    simp only [List.singleton_append, List.cons.injEq] at split
    obtain ⟨rfl, after⟩ := split
    refine apart ⟨t, insideT, stop, ?_, ?_⟩
    · rw [readsW.before]
      rfl
    · rw [← after]
      rfl
  | c :: d :: w, split =>
    simp only [List.cons_append, List.cons.injEq] at split
    obtain ⟨rfl, rfl, _⟩ := split
    exact Text.indexOf?_none untagged v w (by rw [text]; simp)

/-- What comes before the first tag in a match is clear. -/
theorem clear_front (h : m.Spans src) {a b : List Char} (text : (m.text src).toList = a ++ "<?".toList ++ b)
    (least : ∀ a' b', (m.text src).toList = a' ++ "<?".toList ++ b' → Text.byteSize a ≤ Text.byteSize a') :
    src.Clear "<?" m.start (m.start + Text.byteSize a) := by
  intro pos above below at_
  obtain ⟨s, insideS, start⟩ := Source.isBoundary_iff.mp h.start
  obtain ⟨t, insideT, stop⟩ := Source.isBoundary_iff.mp h.stop
  obtain ⟨u, inside, here, back, rest⟩ := at_
  have whole := h.front (a := a ++ "<?".toList) (b := b) text
  obtain ⟨_, _, total⟩ := whole
  rw [Text.byteSize_append] at total
  have two : Text.byteSize "<?".toList = 2 := by decide
  obtain ⟨v, readsV⟩ := insideS.between inside (by omega)
  obtain ⟨w, readsW⟩ := inside.between insideT (by omega)
  have parts : (m.text src).toList = v ++ w := by
    rw [h.text_eq, ← start, ← stop, Source.between_reads insideS (readsV.trans readsW)]
  have size := readsV.pos
  have size' := readsW.pos
  -- The match reaches two bytes or more beyond the place, so the whole tag is in it.
  obtain ⟨w', rfl⟩ : ∃ w', w = "<?".toList ++ w' := by
    have split := readsW.rest
    rw [rest] at split
    have tag : "<?".toList = ['<', '?'] := rfl
    rw [tag] at split ⊢
    match w, split with
    | [], _ =>
      rw [Text.byteSize_nil] at size'
      omega
    | [c], split =>
      simp only [List.cons_append, List.nil_append, List.cons.injEq] at split
      obtain ⟨rfl, _⟩ := split
      have one : Text.byteSize ['<'] = 1 := by decide
      omega
    | c :: d :: w, split =>
      simp only [List.cons_append, List.nil_append, List.cons.injEq] at split
      obtain ⟨rfl, rfl, _⟩ := split
      exact ⟨w, rfl⟩
  have := least v w' (by rw [parts, List.append_assoc])
  omega

/-- What is found in the text of a match stands in the source, if it is not for the places around it. -/
theorem startsAt_of_find {p : Pattern} (h : m.Spans src) (placeless : p.parsed.regex.placeless) {f : Match}
    (found : p.find? (m.text src) = some f) : p.StartsAt src (m.start + f.start) := by
  obtain ⟨a, b, o, t, marks, text, start, reads, covers, _⟩ := Suspend.find?_some found
  obtain ⟨w, readsW⟩ := covers.reads
  have parts : (m.text src).toList = a ++ (String.ofList w).toList ++ t.rest := by
    have rest := (reads.trans readsW).rest
    rwa [Spot.start_rest, ← String.toList_ofList (l := w)] at rest
  obtain ⟨u, inside, here, back, rest⟩ := h.at_ parts
  rw [String.toList_ofList] at rest
  obtain ⟨marks', matched⟩ := covers.elsewhere placeless readsW (Spot.Reads.of_rest rest) []
  exact ⟨u, inside, by rw [here, start], _, marks', matched⟩

end Match.Spans

/-- A single character has no room for the tag, and ends inside a tag only if the tag stands there. -/
theorem Cursor.Sound.lone {src : Source} {c : Cursor} (h : c.Sound src) {ch : Char} {rest : List Char}
    (eq : c.restChars = ch :: rest) (spans : (Match.ofRange c.pos (c.pos + ch.utf8Size)).Spans src) :
    Text.indexOf? "<?" ((Match.ofRange c.pos (c.pos + ch.utf8Size)).text src) = none ∧
      (src.InTag (Match.ofRange c.pos (c.pos + ch.utf8Size)).stop → src.At "<?" c.pos) := by
  constructor
  · have text : ((Match.ofRange c.pos (c.pos + ch.utf8Size)).text src).toList = [ch] := by
      rw [spans.text_eq]
      have front := (h.front (a := [ch]) (b := rest) eq).2
      rwa [Text.byteSize_cons, Text.byteSize_nil, Nat.add_zero] at front
    cases found : Text.indexOf? "<?" ((Match.ofRange c.pos (c.pos + ch.utf8Size)).text src) with
    | none => rfl
    | some n =>
      obtain ⟨a, b, parts, _, _⟩ := Text.indexOf?_some found
      rw [text] at parts
      have lengths := congrArg List.length parts
      have tag : "<?".toList.length = 2 := rfl
      simp only [List.length_append, List.length_cons, List.length_nil, tag] at lengths
      omega
  · rintro ⟨t, insideT, hereT, before, after⟩
    obtain ⟨u, inside, here, restU⟩ := h.spot
    have restU' : u.rest = ch :: rest := restU.symm.trans eq
    have reads := Spot.Reads.step restU'
    have pos : t.pos = (u.step ch rest).pos := by
      rw [hereT, reads.pos, here, Text.byteSize_cons, Text.byteSize_nil, Nat.add_zero]
      rfl
    rw [insideT.eq_of_pos (inside.reads reads) pos] at before after
    obtain rfl : ch = '<' := Option.some.inj before
    cases rest with
    | nil => cases after
    | cons d back =>
      obtain rfl : d = '?' := Option.some.inj after
      exact ⟨u, inside, here, back, restU'⟩

/-- Where a pattern of at least two characters matches that has nothing of the second one of the tag, there is no
tag. -/
theorem Pattern.StartsAt.not_tag {p : Pattern} {src : Source} {pos n : Nat} (h : p.StartsAt src pos)
    (avoids : p.parsed.regex.avoids '?') (least : p.parsed.regex.minLength = some (n + 2)) : ¬ src.At "<?" pos := by
  rintro ⟨s, inside, here, back, rest⟩
  obtain ⟨u, insideU, rfl, t, marks, covers⟩ := h
  obtain rfl := inside.eq_of_pos insideU here
  obtain ⟨w, reads, absent⟩ := Regex.Matches.avoids avoids covers
  obtain ⟨v, readsV, long⟩ := Regex.Matches.minLength_le least covers
  obtain rfl := reads.word_eq readsV
  have split := reads.rest
  rw [rest] at split
  match w, split, long with
  | a :: b :: w, split, _ =>
    obtain rfl : '?' = b := (List.cons.inj (List.cons.inj split).2).1
    exact absent (by simp)

theorem Pattern.tag_regex : (Pattern.literal "<?").parsed.regex = .text ['<', '?'] := by decide +kernel

section Tables

variable {p : Pattern} {src : Source} {pos : Nat} (regex : p.parsed.regex = .text ['<', '?'])

include regex

/-- The server's tag as a pattern matches where the tag stands, and nowhere else. -/
theorem Pattern.startsAt_tag : p.StartsAt src pos ↔ src.At "<?" pos := by
  simp only [Pattern.StartsAt, Pattern.Starts, Pattern.Covers, regex]
  constructor
  · rintro ⟨u, inside, here, t, _, reads, _⟩
    exact ⟨u, inside, here, t.rest, reads.rest⟩
  · rintro ⟨u, inside, here, back, rest⟩
    exact ⟨u, inside, here, _, [], Spot.Reads.of_rest rest, rfl⟩

theorem Pattern.Occurs.at_start {m : Match} {a b : Spot} {marks : Regex.Marks} (h : p.Occurs src m a b marks) :
    src.At "<?" m.start :=
  (Pattern.startsAt_tag regex).mp ⟨a, h.inside, h.start.symm, h.starts⟩

/-- Nothing that is found in front of the first tag leaves one behind. -/
theorem Pattern.clear_of_found {at_ : Nat} (least : ∀ m, p.findFrom? src pos = some m → at_ ≤ m.start) :
    src.Clear "<?" pos at_ := by
  intro here le lt tag
  obtain ⟨u, inside, rfl, starts⟩ := (Pattern.startsAt_tag regex).mpr tag
  obtain ⟨m, found, before⟩ := Pattern.findFrom?_before inside starts le
  have := least m found
  omega

theorem Pattern.clear_of_none (none_ : p.findFrom? src pos = none) {at_ : Nat} : src.Clear "<?" pos at_ :=
  Pattern.clear_of_found regex fun m found => by rw [none_] at found; cases found

namespace PatternTable.Nearest

variable {table : PatternTable} {allowed : Kind → Bool} {next : NextMatch}

/-- No tag starts before the nearest match of a table in which the tag has an entry. -/
theorem clear (h : table.Nearest allowed src pos next) {x : PatternTable.Entry} (member : x ∈ table.entries)
    (ok : allowed x.kind) (same : x.pattern = p) : src.Clear "<?" pos next.data.start :=
  Pattern.clear_of_found regex fun m found => h.least x member ok m (by rw [same]; exact found)

/-- The nearest match of another entry is not at a tag, if the entry of the tag comes earlier. -/
theorem away (h : table.Nearest allowed src pos next) {x : PatternTable.Entry} {i : Nat}
    (at_ : table.entries[i]? = some x) (ok : allowed x.kind) (same : x.pattern = p) (earlier : i < next.entry)
    (le : pos ≤ next.data.start) : ¬ src.At "<?" next.data.start := by
  intro tag
  obtain ⟨u, inside, here, starts⟩ := (Pattern.startsAt_tag regex).mpr tag
  obtain ⟨m, found, before⟩ := Pattern.findFrom?_before inside starts (show pos ≤ u.pos by omega)
  have := h.earlier i x m earlier at_ ok (by rw [same]; exact found)
  omega

end PatternTable.Nearest

end Tables

namespace Pattern.Occurs

variable {p : Pattern} {src : Source} {m : Match} {a b : Spot} {marks : Regex.Marks}

theorem inside_stop (h : p.Occurs src m a b marks) : b.In src.chars := by
  obtain ⟨w, reads⟩ := h.covers.reads
  exact h.inside.reads reads

/-- A place in the source is given by its offset. -/
theorem between_of_inTag (h : p.Occurs src m a b marks) (inTag : src.InTag m.stop) : Regex.Between '<' '?' b := by
  obtain ⟨t, inside, here, between⟩ := inTag
  rw [h.stop] at here
  rwa [← inside.eq_of_pos h.inside_stop here]

theorem not_inTag (h : p.Occurs src m a b marks) (guarded : p.parsed.regex.guarded)
    (apart : p.parsed.regex.apart '<' '?') : ¬ src.InTag m.stop := fun inTag =>
  Regex.Picks.apart apart (fun _ => trivial) (h.reports.picks guarded) (h.between_of_inTag inTag)

/-- A match that may be a lone opening angle bracket is that of a tag, if it ends in one. -/
theorem at_of_inTag (h : p.Occurs src m a b marks) (guarded : p.parsed.regex.guarded)
    (apart : p.parsed.regex.apartOrLone '<' '?') (inTag : src.InTag m.stop) : src.At "<?" m.start := by
  have between := h.between_of_inTag inTag
  have reads := Regex.Picks.apartOrLone apart (fun _ => trivial) (h.reports.picks guarded) between
  obtain ⟨rest, after⟩ : ∃ rest, b.rest = '?' :: rest := by
    cases eq : b.rest with
    | nil => simp [Regex.Between, eq] at between
    | cons d rest =>
      have head := between.2
      simp only [eq, List.head?_cons, Option.some.injEq] at head
      exact ⟨rest, by rw [head]⟩
  refine ⟨a, h.inside, h.start.symm, rest, ?_⟩
  rw [reads.rest, after]
  rfl

end Pattern.Occurs

/-- The first offset from another on at which a word stands, or the end of the source if it stands nowhere. -/
structure Text.Source.FirstFrom (src : Source) (word : String) (start stop : Nat) : Prop where
  le : start ≤ stop
  clear : src.Clear word start stop
  stands : src.At word stop ∨ stop = src.size

/-- Where a run of an embedded scanner stops: interrupted at the server's tag, or else at the end of the source or
where the markup around it goes on. No server's tag is passed. -/
structure Stops (e : Embedding) (src : Source) (Closes : Nat → Prop) (start stop : Nat) (interrupted : Bool) : Prop where
  server : interrupted → e.server ∧ src.At "<?" stop
  ended : interrupted = false → stop = src.size ∨ Closes stop
  clear : e.server → src.Clear "<?" start stop

namespace Stops

variable {e : Embedding} {src : Source} {Closes : Nat → Prop} {start stop : Nat} {interrupted : Bool}

/-- A run that stops at the server's tag is interrupted, if the markup around does not go on with one. -/
theorem interrupted_iff (h : Stops e src Closes start stop interrupted) (apart : ∀ at_, Closes at_ → ¬ src.At "<?" at_) :
    interrupted ↔ src.At "<?" stop := by
  refine ⟨fun on => (h.server on).2, fun tag => ?_⟩
  cases eq : interrupted with
  | true => rfl
  | false =>
    rcases h.ended eq with ended | closes
    · rw [ended] at tag
      exact absurd tag Source.not_at_tag_size
    · exact absurd tag (apart _ closes)

theorem firstFrom (h : Stops e src (fun _ => False) start stop interrupted) (le : start ≤ stop) (on : e.server) :
    src.FirstFrom "<?" start stop := by
  refine ⟨le, h.clear on, ?_⟩
  cases eq : interrupted with
  | true => exact .inl (h.server eq).2
  | false => exact .inr ((h.ended eq).resolve_right id)

/-- Without a server the run goes on to the end. -/
theorem atEnd (h : Stops e src (fun _ => False) start stop interrupted) (off : e.server = false) : stop = src.size := by
  cases eq : interrupted with
  | true => exact absurd ((h.server eq).1.symm.trans off) (by decide)
  | false => exact (h.ended eq).resolve_right id

end Stops

end Gloss

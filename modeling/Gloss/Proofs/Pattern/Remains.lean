import Gloss.Proofs.Pattern.Resumed
import Gloss.Proofs.Regex.Everywhere

/-!
What a pattern takes, read off the text from the cursor on. A pattern for what is left of a token may be looser than the
token's own: it stops at the first character that may close the token, whatever escapes that character. So what it takes
is a function of the text that comes, and it is what is left of the token where the two agree.
-/
namespace Gloss

open Text (Spot Source)

/-- A backslash that is paired in front of a text pairs nothing in it. -/
theorem unpaired_append_of_paired {v : List Char} (paired : unpaired v = false) (w : List Char) :
    unpaired (v ++ w) = unpaired w := by
  fun_induction unpaired v with
  | case1 => rfl
  | case2 c => exact unpaired_cons (by simpa using paired) w
  | case3 d rest ih => exact ih paired
  | case4 c d rest plain ih => exact (unpaired_cons plain _).trans (ih paired)

namespace Regex

section Rounds

variable {body : Regex} {after : Spot → Prop} {s t : Spot} {m mt : Marks}

/-- Greedy rounds end where no round leads on. -/
theorem Cycles.stuck (h : Cycles body.Matches body.Picks true after 0 none s m t mt) :
    ¬ LeadsTo body.Matches (LeadsTo (Repeats body.Matches 0 none) after) t := by
  generalize low : 0 = lo, high : none = hi at h
  induction h with
  | must => cases low
  | more _ _ _ _ ih =>
    subst high
    exact ih low rfl
  | leave unwanted =>
    subst high
    exact unwanted rfl (by simp)

/-- Where anything may come behind them, they end where no round matches. -/
theorem Cycles.no_more (h : Cycles body.Matches body.Picks true after 0 none s m t mt) (everywhere : ∀ u, after u)
    (n : Marks) (u : Spot) (mu : Marks) : ¬ body.Matches t n u mu :=
  fun matched => h.stuck ⟨n, u, mu, matched, mu, u, mu, .none u mu, everywhere u⟩

/-- What may be left out is left out only where it does not match. -/
theorem picks_optional (h : (Regex.times 0 (some 1) true body).Picks (fun _ => True) s m t mt) :
    body.Picks (LeadsTo (Repeats body.Matches 0 (some 0)) fun _ => True) s m t mt ∨
      (t = s ∧ mt = m ∧ ∀ n u mu, ¬ body.Matches s n u mu) := by
  cases h with
  | more _ _ first rest =>
    cases rest with
    | more room => exact absurd rfl room
    | leave => exact .inl first
  | leave unwanted =>
    refine .inr ⟨rfl, rfl, fun n u mu matched => unwanted rfl (by simp) ?_⟩
    exact ⟨n, u, mu, matched, mu, u, mu, .none u mu, trivial⟩

/-- A part that may be left out is picked where it is picked by itself, or left out where it does not match. -/
theorem picks_optional_of (h : body.Picks (LeadsTo (Repeats body.Matches 0 (some 0)) after) s m t mt ∨
    (t = s ∧ mt = m ∧ ∀ n u mu, ¬ body.Matches s n u mu)) : (Regex.times 0 (some 1) true body).Picks after s m t mt := by
  rcases h with picked | ⟨rfl, rfl, never⟩
  · exact .more (by simp) (by simp) picked (.leave fun _ room => absurd rfl room)
  · exact .leave fun _ _ ⟨n, u, mu, matched, _⟩ => never n u mu matched

end Rounds

/-- Does the expression read a backslash only together with the character that it escapes? -/
def pairs : Regex → Bool
  | .empty => true
  | .text chars => !chars.contains '\\'
  | .set members => !members.mem '\\'
  | .look _ => true
  | .group _ body => body.pairs
  | .times _ _ _ body => body.pairs
  | .seq (.text ['\\']) (.set _) => true
  | .seq a b => a.pairs && b.pairs
  | .alt a b => a.pairs && b.pairs

theorem Rounds.pairs {R : Spot → Marks → Spot → Marks → Prop} {n : Nat} {s t : Spot} {m mt : Marks}
    (each : ∀ s m t mt, R s m t mt → ∃ w, Spot.Reads s w t ∧ ∀ rest, unpaired (w ++ rest) = unpaired rest)
    (h : Rounds R n s m t mt) : ∃ w, Spot.Reads s w t ∧ ∀ rest, unpaired (w ++ rest) = unpaired rest := by
  induction n generalizing s m with
  | zero =>
    obtain ⟨rfl, _⟩ := h
    exact ⟨[], .refl _, fun _ => rfl⟩
  | succ n ih =>
    obtain ⟨u, mu, first, rest⟩ := h
    obtain ⟨v, readsV, keptV⟩ := each _ _ _ _ first
    obtain ⟨w, readsW, keptW⟩ := ih rest
    refine ⟨v ++ w, readsV.trans readsW, fun rest => ?_⟩
    rw [List.append_assoc, keptV, keptW]

/-- What such an expression reads leaves nothing unpaired. -/
theorem Matches.pairs {r : Regex} {s t : Spot} {m mt : Marks} (pairs : r.pairs) (h : r.Matches s m t mt) :
    ∃ w, Spot.Reads s w t ∧ ∀ rest, unpaired (w ++ rest) = unpaired rest := by
  fun_induction Regex.pairs r generalizing s t m mt with
  | case1 =>
    obtain ⟨rfl, _⟩ := h
    exact ⟨[], .refl _, fun _ => rfl⟩
  | case2 chars =>
    obtain ⟨reads, _⟩ := h
    exact ⟨chars, reads, unpaired_append (by simpa using pairs)⟩
  | case3 members =>
    obtain ⟨c, mem, reads, _⟩ := h
    refine ⟨[c], reads, unpaired_cons ?_⟩
    rintro rfl
    simp [mem] at pairs
  | case4 a =>
    obtain ⟨_, rfl, _⟩ := h
    exact ⟨[], .refl _, fun _ => rfl⟩
  | case5 i body ih =>
    obtain ⟨inner, matched, _⟩ := h
    exact ih pairs matched
  | case6 lo hi greedy body ih =>
    obtain ⟨n, _, _, rounds⟩ := h
    exact rounds.pairs fun s m t mt => ih pairs
  | case7 members =>
    obtain ⟨u, _, ⟨slash, _⟩, c, _, reads, _⟩ := h
    exact ⟨['\\', c], slash.trans reads, unpaired_escape c⟩
  | case8 a b _ ihA ihB =>
    simp only [Bool.and_eq_true] at pairs
    obtain ⟨u, mu, first, second⟩ := h
    obtain ⟨v, readsV, keptV⟩ := ihA pairs.1 first
    obtain ⟨w, readsW, keptW⟩ := ihB pairs.2 second
    refine ⟨v ++ w, readsV.trans readsW, fun rest => ?_⟩
    rw [List.append_assoc, keptV, keptW]
  | case9 a b ihA ihB =>
    simp only [Bool.and_eq_true] at pairs
    rcases h with matched | matched
    · exact ihA pairs.1 matched
    · exact ihB pairs.2 matched

end Regex

/-- The text up to the first of a closing character and of others that it does not go past, with the closing one. -/
def upTo (close : Char) (stops : List Char) : List Char → List Char
  | [] => []
  | c :: rest => if c = close then [close] else if c ∈ stops then [] else c :: upTo close stops rest

section UpTo

variable {close : Char} {stops : List Char}

theorem upTo_append {x : List Char} (plain : ∀ c ∈ x, c ∉ close :: stops) (z : List Char) :
    upTo close stops (x ++ z) = x ++ upTo close stops z := by
  induction x with
  | nil => rfl
  | cons c x ih =>
    rw [List.forall_mem_cons, List.mem_cons, not_or] at plain
    rw [List.cons_append, upTo, if_neg plain.1.1, if_neg plain.1.2, ih plain.2, List.cons_append]

/-- What is in front of it is plain; then comes the closing character, or one that it does not go past, or nothing. -/
theorem upTo_cases (close : Char) (stops z : List Char) : ∃ x rest, (∀ c ∈ x, c ∉ close :: stops) ∧ z = x ++ rest ∧
    ((∃ more, rest = close :: more ∧ upTo close stops z = x ++ [close]) ∨
      (upTo close stops z = x ∧ ∀ c, rest.head? = some c → c ≠ close ∧ c ∈ stops)) := by
  fun_induction upTo close stops z with
  | case1 => exact ⟨[], [], by simp, rfl, .inr ⟨rfl, by simp⟩⟩
  | case2 rest => exact ⟨[], close :: rest, by simp, rfl, .inl ⟨rest, rfl, rfl⟩⟩
  | case3 c rest other stop => exact ⟨[], c :: rest, by simp, rfl, .inr ⟨rfl, by simpa using ⟨other, stop⟩⟩⟩
  | case4 c rest other go ih =>
    obtain ⟨x, behind, plain, rfl, last⟩ := ih
    refine ⟨c :: x, behind, ?_, rfl, ?_⟩
    · rw [List.forall_mem_cons, List.mem_cons, not_or]
      exact ⟨⟨other, go⟩, plain⟩
    · rcases last with ⟨more, rfl, eq⟩ | ⟨eq, stop⟩
      · exact .inl ⟨more, rfl, by rw [eq, List.cons_append]⟩
      · exact .inr ⟨by rw [eq], stop⟩

end UpTo

namespace Regex

theorem CharSet.mem_iff_of_allBut {members : CharSet} {others : List Char} (all : members.allBut others)
    (none_ : others.all (!members.mem ·)) (c : Char) : members.mem c ↔ c ∉ others := by
  refine ⟨fun mem other => ?_, CharSet.mem_of_allBut all⟩
  have no := List.all_eq_true.mp none_ c other
  simp [mem] at no

/-- Where no character of a set comes, no round of the set matches. -/
theorem not_matches_set {members : CharSet} {s : Spot} (stop : ∀ c, s.rest.head? = some c → members.mem c = false)
    (n : Marks) (u : Spot) (mu : Marks) : ¬ (Regex.set members).Matches s n u mu := by
  rintro ⟨c, mem, reads, _⟩
  have no := stop c (by rw [reads.rest]; rfl)
  rw [mem] at no
  cases no

theorem not_matches_text {c : Char} {s : Spot} (other : s.rest.head? ≠ some c) (n : Marks) (u : Spot) (mu : Marks) :
    ¬ (Regex.text [c]).Matches s n u mu := by
  rintro ⟨reads, _⟩
  exact other (by rw [reads.rest]; rfl)

/-- Rounds of a set read characters of it up to the first that is not in it. -/
theorem cycles_set {members : CharSet} {after : Spot → Prop} {x : List Char} (inside : ∀ c ∈ x, members.mem c)
    {s t : Spot} (reads : Spot.Reads s x t) (stop : ∀ c, t.rest.head? = some c → members.mem c = false) (m : Marks) :
    Cycles (Regex.set members).Matches (Regex.set members).Picks true after 0 none s m t m := by
  induction x generalizing s with
  | nil =>
    obtain rfl := reads.eq_of_nil
    exact .leave fun _ _ ⟨n, u, mu, matched, _⟩ => not_matches_set stop n u mu matched
  | cons c x ih =>
    rw [List.forall_mem_cons] at inside
    obtain ⟨u, first, rest⟩ := Spot.Reads.split (show Spot.Reads s ([c] ++ x) t from reads)
    exact .more (by simp) (by simp) ⟨c, inside.1, first, rfl⟩ (ih inside.2 rest)

/-- Characters of a set, and the closing character behind them if it is there. -/
theorem picks_upTo {close : Char} {stops : List Char} {members : CharSet} (mem : ∀ c, members.mem c ↔ c ∉ close :: stops)
    (s : Spot) : ∃ t, Spot.Reads s (upTo close stops s.rest) t ∧
      (Regex.seq (.times 0 none true (.set members)) (.times 0 (some 1) true (.text [close]))).Picks (fun _ => True)
        s [] t [] := by
  obtain ⟨x, rest, plain, whole, last⟩ := upTo_cases close stops s.rest
  obtain ⟨u, reads⟩ : ∃ u, Spot.Reads s x u := ⟨_, .of_rest whole⟩
  obtain rfl : rest = u.rest := List.append_cancel_left (whole.symm.trans reads.rest)
  have inside : ∀ c ∈ x, members.mem c := fun c member => (mem c).mpr (plain c member)
  have stop : (∀ c, u.rest.head? = some c → c ∈ close :: stops) → ∀ c, u.rest.head? = some c → members.mem c = false :=
    fun listed c head => Bool.eq_false_iff.mpr fun yes => (mem c).mp yes (listed c head)
  rcases last with ⟨more, here, eq⟩ | ⟨eq, other⟩
  · refine ⟨_, eq ▸ reads.trans (.step here), u, [], cycles_set inside reads (stop ?_) _,
      picks_optional_of (.inl ⟨.step here, rfl⟩)⟩
    simp [here]
  · exact ⟨u, eq ▸ reads, u, [], cycles_set inside reads (stop fun c head => List.mem_cons_of_mem _ (other c head).2) _,
      picks_optional_of (.inr ⟨rfl, rfl, not_matches_text fun head => (other _ head).1 rfl⟩)⟩

end Regex

namespace Pattern

variable {p : Pattern}

/-- A pattern that picks a part of the text from wherever it stands takes that part. -/
theorem takes_iff_left {left : List Char → List Char}
    (picks : ∀ s : Spot, ∃ t, Spot.Reads s (left s.rest) t ∧ p.parsed.regex.Picks (fun _ => True) s [] t [])
    {before word behind : List Char} : p.Takes before word behind ↔ word = left (word ++ behind) := by
  have rest : ∀ {s : Spot}, Spot.Reads (.start (before ++ word ++ behind)) before s → s.rest = word ++ behind := by
    intro s first
    have whole := first.rest
    rw [Spot.start_rest, List.append_assoc] at whole
    exact (List.append_cancel_left whole).symm
  rw [takes_iff]
  constructor
  · rintro ⟨s, t, marks, first, second, reports⟩
    obtain ⟨t', reads, picked⟩ := picks s
    have same := reports_of_picks picked
    rw [Reports] at reports same
    cases reports.symm.trans same
    rw [← rest first]
    exact second.word_eq reads
  · intro eq
    obtain ⟨s, first⟩ : ∃ s, Spot.Reads (.start (before ++ word ++ behind)) before s :=
      ⟨_, .of_rest (by rw [Spot.start_rest, List.append_assoc])⟩
    obtain ⟨t, reads, picked⟩ := picks s
    rw [rest first, ← eq] at reads
    exact ⟨s, t, [], first, reads, reports_of_picks picked⟩

theorem takes_upTo {close : Char} (stops : List Char) (members : Regex.CharSet)
    (regex : p.parsed.regex = .seq (.times 0 none true (.set members)) (.times 0 (some 1) true (.text [close])))
    (all : members.allBut (close :: stops)) (none_ : (close :: stops).all (!members.mem ·))
    {before word behind : List Char} : p.Takes before word behind ↔ word = upTo close stops (word ++ behind) := by
  refine takes_iff_left fun s => ?_
  rw [regex]
  exact Regex.picks_upTo (Regex.CharSet.mem_iff_of_allBut all none_) s

/-- A token of an opening, rounds and a closing that may be missing: either it is closed, or neither another round nor a
closing matches where it ends. -/
theorem takes_open_or_closed {opening : List Char} {body close : Regex}
    (regex : p.parsed.regex = .seq (.text opening) (.seq (.times 0 none true body) (.times 0 (some 1) true close)))
    (guarded : p.parsed.regex.guarded) (pairs : body.pairs) {before word behind : List Char}
    (takes : p.Takes before word behind) :
    ∃ (y c : List Char) (e t : Spot) (m mt : Regex.Marks), word = opening ++ y ++ c ∧ unpaired y = false ∧
      Spot.Reads e c t ∧ t.rest = behind ∧
      (close.Picks (Regex.LeadsTo (Regex.Repeats close.Matches 0 (some 0)) fun _ => True) e m t mt ∨
        (c = [] ∧ (∀ n u mu, ¬ body.Matches t n u mu) ∧ ∀ n u mu, ¬ close.Matches t n u mu)) := by
  obtain ⟨s, t, marks, first, second, reports⟩ := takes_iff.mp takes
  have picked := reports.picks guarded
  rw [regex] at picked
  obtain ⟨o, _, ⟨opens, _⟩, e, me, rounds, closes⟩ := picked
  obtain ⟨y, readsY, kept⟩ := Regex.Matches.pairs (r := .times 0 none true body) pairs
    (Regex.Cycles.repeats (fun _ _ _ _ _ each => each.matches) rounds)
  obtain ⟨c, readsC⟩ := closes.matches.reads
  have rest : t.rest = behind := by
    have whole := (first.trans second).rest
    rw [Spot.start_rest] at whole
    exact (List.append_cancel_left whole).symm
  refine ⟨y, c, e, t, me, marks, ?_, by simpa [unpaired] using kept [], readsC, rest, ?_⟩
  · rw [List.append_assoc]
    exact second.word_eq (opens.trans (readsY.trans readsC))
  · rcases Regex.picks_optional closes with closed | ⟨rfl, _, never⟩
    · exact .inl closed
    · -- Behind the rounds the closing may be left out, so they go on as long as they can.
      have everywhere : ∀ u, Regex.LeadsTo (Regex.times 0 (some 1) true close).Matches (fun _ => True) u :=
        fun u => ⟨[], u, [], .none u [], trivial⟩
      exact .inr ⟨readsC.word_eq (.refl _), rounds.no_more everywhere, never⟩

end Pattern

/-- A cut that is not within the closing leaves the closing, behind what else is left. -/
theorem Delimiting.Cut.leaves {d : Delimiting} {p r y : List Char} (cut : d.Cut p r)
    (word : p ++ r = d.opening ++ y ++ d.closing) (paired : d.escapes → unpaired y = false) :
    ∃ z, p ++ z = d.opening ++ y ∧ r = z ++ d.closing := by
  obtain ⟨z, eq⟩ : p <+: d.opening ++ y :=
    List.prefix_of_prefix_length_le (List.prefix_append p r) (word ▸ List.prefix_append _ _) (cut.before y word paired)
  refine ⟨z, eq, ?_⟩
  rw [← eq, List.append_assoc] at word
  exact List.append_cancel_left word

end Gloss

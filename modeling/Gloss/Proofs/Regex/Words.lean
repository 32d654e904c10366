import Gloss.Proofs.Regex.Language

/-!
Properties of the texts that an expression matches, as far as the expression shows them: how long they are at
least, which characters do not occur in them and with which they do not begin, and whether there is a match at
every spot. Each property is a function of the expression that can be evaluated, with the theorem that says
what it means.
-/
namespace Gloss.Regex

open Text (Spot)

section

variable {R : Spot → Marks → Spot → Marks → Prop} {r : Regex} {s t : Spot} {m mt : Marks} {w : List Char}

/-- The spots of rounds have a word between them that is made of the words of the rounds. -/
theorem Rounds.word {P : List Char → Prop} (nil : P []) (append : ∀ v w, P v → P w → P (v ++ w))
    (each : ∀ s m t mt, R s m t mt → ∃ w, Spot.Reads s w t ∧ P w) {n : Nat} (h : Rounds R n s m t mt) :
    ∃ w, Spot.Reads s w t ∧ P w := by
  induction n generalizing s m with
  | zero =>
    obtain ⟨rfl, rfl⟩ := h
    exact ⟨[], Spot.Reads.refl t, nil⟩
  | succ n ih =>
    obtain ⟨u, mu, first, more⟩ := h
    obtain ⟨v, readsV, holdsV⟩ := each s m u mu first
    obtain ⟨w, readsW, holdsW⟩ := ih more
    exact ⟨v ++ w, readsV.trans readsW, append v w holdsV holdsW⟩

/-- Every round is at least so long, so rounds are that often as long. -/
theorem Rounds.length {k n : Nat}
    (each : ∀ s m t mt, R s m t mt → ∃ w, Spot.Reads s w t ∧ k ≤ w.length) (h : Rounds R n s m t mt) :
    ∃ w, Spot.Reads s w t ∧ n * k ≤ w.length := by
  induction n generalizing s m with
  | zero =>
    obtain ⟨rfl, rfl⟩ := h
    exact ⟨[], Spot.Reads.refl t, by simp⟩
  | succ n ih =>
    obtain ⟨u, mu, first, more⟩ := h
    obtain ⟨v, readsV, longV⟩ := each s m u mu first
    obtain ⟨w, readsW, longW⟩ := ih more
    refine ⟨v ++ w, readsV.trans readsW, ?_⟩
    rw [Nat.succ_mul, List.length_append]
    omega

/-- A match is no shorter than the least length of the expression. -/
theorem Matches.minLength_le {n : Nat} (least : r.minLength = some n) (h : r.Matches s m t mt) :
    ∃ w, Spot.Reads s w t ∧ n ≤ w.length := by
  induction r generalizing s m t mt n with
  | empty =>
    obtain ⟨rfl, _⟩ := h
    simp only [minLength, Option.some.injEq] at least
    exact ⟨[], Spot.Reads.refl t, by simp [← least]⟩
  | text chars =>
    simp only [minLength, Option.some.injEq] at least
    exact ⟨chars, h.1, by omega⟩
  | set members =>
    obtain ⟨c, _, reads, _⟩ := h
    simp only [minLength] at least
    split at least
    · cases least
    · simp only [Option.some.injEq] at least
      exact ⟨[c], reads, by simp [← least]⟩
  | look a =>
    obtain ⟨_, rfl, _⟩ := h
    simp only [minLength, Option.some.injEq] at least
    exact ⟨[], Spot.Reads.refl t, by simp [← least]⟩
  | group i body ih =>
    obtain ⟨inner, matched, _⟩ := h
    exact ih least matched
  | times lo hi greedy body ih =>
    obtain ⟨k, low, _, rounds⟩ := h
    simp only [minLength, Option.map_eq_some_iff] at least
    obtain ⟨each, eq, rfl⟩ := least
    obtain ⟨w, reads, long⟩ := rounds.length fun s m t mt => ih eq
    exact ⟨w, reads, Nat.le_trans (Nat.mul_le_mul_right each low) long⟩
  | seq a b ihA ihB =>
    obtain ⟨u, mu, first, second⟩ := h
    simp only [minLength, Option.bind_eq_some_iff, Option.map_eq_some_iff] at least
    obtain ⟨i, leastA, j, leastB, rfl⟩ := least
    obtain ⟨v, readsV, longV⟩ := ihA leastA first
    obtain ⟨w, readsW, longW⟩ := ihB leastB second
    exact ⟨v ++ w, readsV.trans readsW, by rw [List.length_append]; omega⟩
  | alt a b ihA ihB =>
    simp only [minLength, Option.bind_eq_some_iff, Option.map_eq_some_iff] at least
    obtain ⟨i, leastA, j, leastB, rfl⟩ := least
    rcases h with matched | matched
    · obtain ⟨w, reads, long⟩ := ihA leastA matched
      exact ⟨w, reads, by omega⟩
    · obtain ⟨w, reads, long⟩ := ihB leastB matched
      exact ⟨w, reads, by omega⟩

theorem Matches.consumes (consumes : r.consumes) (h : r.Matches s m t mt) : s.pos < t.pos := by
  simp only [Regex.consumes, Option.any_eq_true] at consumes
  obtain ⟨n, least, positive⟩ := consumes
  obtain ⟨w, reads, long⟩ := h.minLength_le least
  simp only [decide_eq_true_eq] at positive
  have := Text.length_le_byteSize w
  have := reads.pos
  omega

end

/-- Does the character occur in no match? -/
def avoids (c : Char) : Regex → Bool
  | .empty => true
  | .text chars => !chars.contains c
  | .set members => !members.mem c
  | .look _ => true
  | .group _ body => body.avoids c
  | .times _ _ _ body => body.avoids c
  | .seq a b => a.avoids c && b.avoids c
  | .alt a b => a.avoids c && b.avoids c

theorem Matches.avoids {r : Regex} {s t : Spot} {m mt : Marks} {c : Char} (avoids : r.avoids c)
    (h : r.Matches s m t mt) : ∃ w, Spot.Reads s w t ∧ c ∉ w := by
  induction r generalizing s m t mt with
  | empty =>
    obtain ⟨rfl, _⟩ := h
    exact ⟨[], Spot.Reads.refl t, by simp⟩
  | text chars =>
    simp only [Regex.avoids, Bool.not_eq_true', List.contains_eq_mem, decide_eq_false_iff_not] at avoids
    exact ⟨chars, h.1, avoids⟩
  | set members =>
    obtain ⟨d, mem, reads, _⟩ := h
    refine ⟨[d], reads, ?_⟩
    simp only [List.mem_singleton]
    rintro rfl
    simp [Regex.avoids, mem] at avoids
  | look a =>
    obtain ⟨_, rfl, _⟩ := h
    exact ⟨[], Spot.Reads.refl t, by simp⟩
  | group i body ih =>
    obtain ⟨inner, matched, _⟩ := h
    exact ih avoids matched
  | times lo hi greedy body ih =>
    obtain ⟨n, _, _, rounds⟩ := h
    refine rounds.word (by simp) ?_ fun s m t mt => ih avoids
    intro v w absentV absentW
    simp [absentV, absentW]
  | seq a b ihA ihB =>
    obtain ⟨u, mu, first, second⟩ := h
    simp only [Regex.avoids, Bool.and_eq_true] at avoids
    obtain ⟨v, readsV, absentV⟩ := ihA avoids.1 first
    obtain ⟨w, readsW, absentW⟩ := ihB avoids.2 second
    exact ⟨v ++ w, readsV.trans readsW, by simp [absentV, absentW]⟩
  | alt a b ihA ihB =>
    simp only [Regex.avoids, Bool.and_eq_true] at avoids
    rcases h with matched | matched
    · exact ihA avoids.1 matched
    · exact ihB avoids.2 matched

/-- Does the expression stand for texts that hold the character alone or not at all? -/
def lone (c : Char) : Regex → Bool
  | .set _ => true
  | .alt a b => lone c a && lone c b
  | r => r.avoids c

theorem eq_of_lone {c : Char} {r : Regex} {o t : Spot} {w : List Char} {m mt : Marks} (alone : lone c r)
    (h : r.Matches o m t mt) (reads : Spot.Reads o w t) (member : c ∈ w) : w = [c] := by
  have never : ∀ {r : Regex} {m mt}, r.avoids c → r.Matches o m t mt → w = [c] := by
    intro r m mt avoids matched
    obtain ⟨w', reads', absent⟩ := matched.avoids avoids
    rw [reads.word_eq reads'] at member
    exact absurd member absent
  induction r generalizing m mt with
  | set members =>
    obtain ⟨d, _, reads', _⟩ := h
    obtain rfl := reads.word_eq reads'
    rw [List.mem_singleton.mp member]
  | alt a b ihA ihB =>
    simp only [lone, Bool.and_eq_true] at alone
    rcases h with first | second
    · exact ihA alone.1 first
    · exact ihB alone.2 second
  | empty => exact never alone h
  | text => exact never alone h
  | look => exact never alone h
  | group => exact never alone h
  | times => exact never alone h
  | seq => exact never alone h

/-- Do two characters never occur in one match, for all that the expression shows? -/
def separates (c d : Char) : Regex → Bool
  | .alt a b => a.separates c d && b.separates c d
  | r => r.avoids c || r.avoids d

theorem Matches.separates {r : Regex} {s t : Spot} {m mt : Marks} {c d : Char} (separates : r.separates c d)
    (h : r.Matches s m t mt) : ∃ w, Spot.Reads s w t ∧ (c ∉ w ∨ d ∉ w) := by
  have one : ∀ r : Regex, r.Matches s m t mt → (r.avoids c || r.avoids d) = true →
      ∃ w, Spot.Reads s w t ∧ (c ∉ w ∨ d ∉ w) := by
    intro r h avoids
    rcases Bool.or_eq_true_iff.mp avoids with avoids | avoids
    · obtain ⟨w, reads, absent⟩ := h.avoids avoids
      exact ⟨w, reads, .inl absent⟩
    · obtain ⟨w, reads, absent⟩ := h.avoids avoids
      exact ⟨w, reads, .inr absent⟩
  induction r with
  | alt a b ihA ihB =>
    simp only [Regex.separates, Bool.and_eq_true] at separates
    rcases h with matched | matched
    · exact ihA separates.1 matched
    · exact ihB separates.2 matched
  | _ => exact one _ h separates

/-- The text that all matches begin with, for all that the expression shows. -/
def lead : Regex → List Char
  | .text chars => chars
  | .seq a _ => a.lead
  | _ => []

theorem Matches.lead {r : Regex} {s t : Spot} {m mt : Marks} (h : r.Matches s m t mt) :
    ∃ w, Spot.Reads s (r.lead ++ w) t := by
  induction r generalizing t mt with
  | text chars => exact ⟨[], by simpa [Regex.lead] using h.1⟩
  | seq a b ih _ =>
    obtain ⟨u, mu, first, second⟩ := h
    obtain ⟨v, readsV⟩ := ih first
    obtain ⟨w, readsW⟩ := second.reads
    exact ⟨v ++ w, by simpa [Regex.lead] using readsV.trans readsW⟩
  | _ => exact h.reads

/-- Does no match begin with the character? -/
def headAvoids (c : Char) : Regex → Bool
  | .empty => true
  | .text chars => chars.head? != some c
  | .set members => !members.mem c
  | .look _ => true
  | .group _ body => body.headAvoids c
  | .times _ _ _ body => body.headAvoids c
  | .seq a b => a.headAvoids c && (a.consumes || b.headAvoids c)
  | .alt a b => a.headAvoids c && b.headAvoids c

theorem Matches.headAvoids {r : Regex} {s t : Spot} {m mt : Marks} {c : Char} (avoids : r.headAvoids c)
    (h : r.Matches s m t mt) : ∃ w, Spot.Reads s w t ∧ w.head? ≠ some c := by
  -- A text begins as its first part does, and as its second if the first is empty.
  have joined : ∀ v w : List Char, v.head? ≠ some c → w.head? ≠ some c → (v ++ w).head? ≠ some c := by
    intro v w headV headW
    cases v with
    | nil => exact headW
    | cons d v => exact headV
  induction r generalizing s m t mt with
  | empty =>
    obtain ⟨rfl, _⟩ := h
    exact ⟨[], Spot.Reads.refl t, by simp⟩
  | text chars =>
    simp only [Regex.headAvoids, bne_iff_ne] at avoids
    exact ⟨chars, h.1, avoids⟩
  | set members =>
    obtain ⟨d, mem, reads, _⟩ := h
    refine ⟨[d], reads, ?_⟩
    simp only [List.head?_cons, ne_eq, Option.some.injEq]
    rintro rfl
    simp [Regex.headAvoids, mem] at avoids
  | look a =>
    obtain ⟨_, rfl, _⟩ := h
    exact ⟨[], Spot.Reads.refl t, by simp⟩
  | group i body ih =>
    obtain ⟨inner, matched, _⟩ := h
    exact ih avoids matched
  | times lo hi greedy body ih =>
    obtain ⟨n, _, _, rounds⟩ := h
    exact rounds.word (P := fun w => w.head? ≠ some c) (by simp) joined fun s m t mt => ih avoids
  | seq a b ihA ihB =>
    obtain ⟨u, mu, first, second⟩ := h
    simp only [Regex.headAvoids, Bool.and_eq_true, Bool.or_eq_true] at avoids
    obtain ⟨v, readsV, headV⟩ := ihA avoids.1 first
    rcases avoids.2 with consumes | avoidsB
    · obtain ⟨w, readsW⟩ := second.reads
      have longer := first.consumes consumes
      refine ⟨v ++ w, readsV.trans readsW, ?_⟩
      cases v with
      | nil =>
        have := readsV.pos
        simp only [Text.byteSize_nil] at this
        omega
      | cons d v => exact headV
    · obtain ⟨w, readsW, headW⟩ := ihB avoidsB second
      exact ⟨v ++ w, readsV.trans readsW, joined v w headV headW⟩
  | alt a b ihA ihB =>
    simp only [Regex.headAvoids, Bool.and_eq_true] at avoids
    rcases h with matched | matched
    · exact ihA avoids.1 matched
    · exact ihB avoids.2 matched

/-- Is there a match of nothing at every spot? -/
def skippable : Regex → Bool
  | .empty => true
  | .text chars => chars.isEmpty
  | .set _ => false
  | .look _ => false
  | .group _ body => body.skippable
  | .times lo _ _ _ => lo == 0
  | .seq a b => a.skippable && b.skippable
  | .alt a b => a.skippable || b.skippable

theorem matches_of_skippable {r : Regex} (skippable : r.skippable) (s : Spot) (m : Marks) :
    ∃ mt, r.Matches s m s mt := by
  induction r generalizing m with
  | empty => exact ⟨m, rfl, rfl⟩
  | text chars =>
    simp only [Regex.skippable, List.isEmpty_iff] at skippable
    subst skippable
    exact ⟨m, Spot.Reads.refl s, rfl⟩
  | set members => cases skippable
  | look a => cases skippable
  | group i body ih =>
    obtain ⟨mt, matched⟩ := ih skippable ((2 * i, s.pos) :: m)
    exact ⟨_, mt, matched, rfl⟩
  | times lo hi greedy body ih =>
    simp only [Regex.skippable, beq_iff_eq] at skippable
    subst skippable
    exact ⟨m, 0, Nat.le_refl 0, fun _ _ => Nat.zero_le _, rfl, rfl⟩
  | seq a b ihA ihB =>
    simp only [Regex.skippable, Bool.and_eq_true] at skippable
    obtain ⟨mu, first⟩ := ihA skippable.1 m
    obtain ⟨mt, second⟩ := ihB skippable.2 mu
    exact ⟨mt, s, mu, first, second⟩
  | alt a b ihA ihB =>
    simp only [Regex.skippable, Bool.or_eq_true] at skippable
    rcases skippable with skippable | skippable
    · obtain ⟨mt, matched⟩ := ihA skippable m
      exact ⟨mt, .inl matched⟩
    · obtain ⟨mt, matched⟩ := ihB skippable m
      exact ⟨mt, .inr matched⟩

/-- A loop with something behind it matches everywhere, if at every spot what is behind it matches or a round
goes on. -/
theorem star_starts {body behind : Regex} {greedy : Bool}
    (each : ∀ s m, (∃ t mt, behind.Matches s m t mt) ∨
      ∃ c w u mu, Spot.Reads s (c :: w) u ∧ body.Matches s m u mu) (s : Spot) (m : Marks) :
    ∃ t mt, Matches (.seq (.times 0 none greedy body) behind) s m t mt := by
  have loop : ∀ k s m, s.rest.length ≤ k → ∃ n u mu t mt, Rounds body.Matches n s m u mu ∧
      behind.Matches u mu t mt := by
    intro k
    induction k with
    | zero =>
      intro s m few
      rcases each s m with ⟨t, mt, matched⟩ | ⟨c, w, u, mu, reads, _⟩
      · exact ⟨0, s, m, t, mt, ⟨rfl, rfl⟩, matched⟩
      · rw [reads.rest] at few
        simp at few
    | succ k ih =>
      intro s m few
      rcases each s m with ⟨t, mt, matched⟩ | ⟨c, w, u, mu, reads, round⟩
      · exact ⟨0, s, m, t, mt, ⟨rfl, rfl⟩, matched⟩
      · have shorter : u.rest.length ≤ k := by
          rw [reads.rest] at few
          simp only [List.cons_append, List.length_cons, List.length_append] at few
          omega
        obtain ⟨n, v, mv, t, mt, rounds, matched⟩ := ih u mu shorter
        exact ⟨n + 1, v, mv, t, mt, ⟨u, mu, round, rounds⟩, matched⟩
  obtain ⟨n, u, mu, t, mt, rounds, matched⟩ := loop _ s m (Nat.le_refl _)
  exact ⟨t, mt, u, mu, ⟨n, Nat.zero_le n, by simp, rounds⟩, matched⟩

/-- Rounds over one set read characters of the set. -/
theorem rounds_set {members : CharSet} {n : Nat} {s t : Spot} {m mt : Marks} :
    Rounds (Matches (.set members)) n s m t mt ↔
      mt = m ∧ ∃ w, Spot.Reads s w t ∧ w.length = n ∧ ∀ c ∈ w, members.mem c := by
  induction n generalizing s with
  | zero =>
    constructor
    · rintro ⟨rfl, rfl⟩
      exact ⟨rfl, [], Spot.Reads.refl t, rfl, by simp⟩
    · rintro ⟨rfl, w, reads, length, _⟩
      obtain rfl := List.length_eq_zero_iff.mp length
      exact ⟨reads.eq_of_nil, rfl⟩
  | succ n ih =>
    constructor
    · rintro ⟨u, mu, ⟨c, mem, first, rfl⟩, more⟩
      obtain ⟨rfl, w, reads, length, all⟩ := ih.mp more
      refine ⟨rfl, c :: w, first.trans reads, by simp [length], ?_⟩
      intro d member
      rcases List.mem_cons.mp member with rfl | member
      · exact mem
      · exact all d member
    · rintro ⟨rfl, w, reads, length, all⟩
      cases w with
      | nil => simp at length
      | cons c w =>
        obtain ⟨u, first, more⟩ := Spot.Reads.split (a := [c]) reads
        refine ⟨u, mt, ⟨c, all c (by simp), first, rfl⟩, ih.mpr ⟨rfl, w, more, by simpa using length, ?_⟩⟩
        intro d member
        exact all d (by simp [member])

theorem matches_times_set {members : CharSet} {lo : Nat} {hi : Option Nat} {greedy : Bool} {s t : Spot}
    {m mt : Marks} :
    Matches (.times lo hi greedy (.set members)) s m t mt ↔
      mt = m ∧ ∃ w, Spot.Reads s w t ∧ lo ≤ w.length ∧ (∀ most, hi = some most → w.length ≤ max lo most) ∧
        ∀ c ∈ w, members.mem c := by
  constructor
  · rintro ⟨n, low, high, rounds⟩
    obtain ⟨rfl, w, reads, rfl, all⟩ := rounds_set.mp rounds
    exact ⟨rfl, w, reads, low, high, all⟩
  · rintro ⟨rfl, w, reads, low, high, all⟩
    exact ⟨w.length, low, high, rounds_set.mpr ⟨rfl, w, reads, rfl, all⟩⟩

/-- What may be left out is matched or left out. -/
theorem matches_optional {body : Regex} {greedy : Bool} {s t : Spot} {m mt : Marks} :
    Matches (.times 0 (some 1) greedy body) s m t mt ↔ (t = s ∧ mt = m) ∨ body.Matches s m t mt := by
  constructor
  · rintro ⟨n, _, high, rounds⟩
    have most := high 1 rfl
    obtain rfl | rfl : n = 0 ∨ n = 1 := by omega
    · exact .inl rounds
    · obtain ⟨u, mu, matched, rfl, rfl⟩ := rounds
      exact .inr matched
  · rintro (⟨rfl, rfl⟩ | matched)
    · exact ⟨0, Nat.le_refl 0, fun _ _ => Nat.zero_le _, rfl, rfl⟩
    · exact ⟨1, by omega, by simp only [Option.some.injEq, forall_eq']; omega, t, mt, matched, rfl, rfl⟩

/-- Does the expression remember nothing? -/
def groupless : Regex → Bool
  | .group _ _ => false
  | .times _ _ _ body => body.groupless
  | .seq a b => a.groupless && b.groupless
  | .alt a b => a.groupless && b.groupless
  | _ => true

theorem Matches.marks_eq {r : Regex} {s t : Spot} {m mt : Marks} (groupless : r.groupless)
    (h : r.Matches s m t mt) : mt = m := by
  induction r generalizing s t m mt with
  | empty => exact h.2
  | text chars => exact h.2
  | set members =>
    obtain ⟨_, _, _, same⟩ := h
    exact same
  | look a => exact h.2.2
  | group i body => cases groupless
  | times lo hi greedy body ih =>
    obtain ⟨n, low, high, rounds⟩ := h
    clear low high
    induction n generalizing s m with
    | zero => exact rounds.2
    | succ n ihn =>
      obtain ⟨u, mu, first, more⟩ := rounds
      rw [← ih groupless first]
      exact ihn more
  | seq a b ihA ihB =>
    simp only [Regex.groupless, Bool.and_eq_true] at groupless
    obtain ⟨u, mu, first, second⟩ := h
    rw [← ihA groupless.1 first]
    exact ihB groupless.2 second
  | alt a b ihA ihB =>
    simp only [Regex.groupless, Bool.and_eq_true] at groupless
    rcases h with matched | matched
    · exact ihA groupless.1 matched
    · exact ihB groupless.2 matched

/-- Does the expression not look at the place that it is at? -/
def placeless : Regex → Bool
  | .look _ => false
  | .group _ body => body.placeless
  | .times _ _ _ body => body.placeless
  | .seq a b => a.placeless && b.placeless
  | .alt a b => a.placeless && b.placeless
  | _ => true

/-- What is matched in one text is matched wherever it stands. -/
theorem Matches.elsewhere {r : Regex} (placeless : r.placeless) {s t u v : Spot} {m mt : Marks} {w : List Char}
    (h : r.Matches s m t mt) (reads : Spot.Reads s w t) (again : Spot.Reads u w v) (mu : Marks) :
    ∃ mv, r.Matches u mu v mv := by
  induction r generalizing s t u v m mt mu w with
  | empty =>
    obtain ⟨rfl, _⟩ := h
    obtain rfl := reads.word_eq (Spot.Reads.refl t)
    exact ⟨mu, again.eq_of_nil, rfl⟩
  | text chars =>
    obtain rfl := reads.word_eq h.1
    exact ⟨mu, again, rfl⟩
  | set members =>
    obtain ⟨c, member, one, _⟩ := h
    obtain rfl := reads.word_eq one
    exact ⟨mu, c, member, again, rfl⟩
  | look a => cases placeless
  | group i body ih =>
    obtain ⟨inner, matched, _⟩ := h
    obtain ⟨mv, matched'⟩ := ih placeless matched reads again ((2 * i, u.pos) :: mu)
    exact ⟨_, mv, matched', rfl⟩
  | times lo hi greedy body ih =>
    obtain ⟨n, low, high, rounds⟩ := h
    suffices h : ∃ mv, Rounds body.Matches n u mu v mv by
      obtain ⟨mv, rounds'⟩ := h
      exact ⟨mv, n, low, high, rounds'⟩
    clear low high
    induction n generalizing s m u mu w with
    | zero =>
      obtain ⟨rfl, _⟩ := rounds
      obtain rfl := reads.word_eq (Spot.Reads.refl t)
      exact ⟨mu, again.eq_of_nil, rfl⟩
    | succ n ihn =>
      obtain ⟨x, mx, first, more⟩ := rounds
      obtain ⟨w₁, readsFirst⟩ := first.reads
      obtain ⟨w₂, readsMore⟩ := Rounds.reads (fun _ _ _ _ => Matches.reads) more
      obtain rfl := reads.word_eq (readsFirst.trans readsMore)
      obtain ⟨y, first', more'⟩ := again.split
      obtain ⟨my, matched⟩ := ih placeless first readsFirst first' mu
      obtain ⟨mv, rounds'⟩ := ihn readsMore more' my more
      exact ⟨mv, y, my, matched, rounds'⟩
  | seq a b ihA ihB =>
    simp only [Regex.placeless, Bool.and_eq_true] at placeless
    obtain ⟨x, mx, first, second⟩ := h
    obtain ⟨w₁, readsA⟩ := first.reads
    obtain ⟨w₂, readsB⟩ := second.reads
    obtain rfl := reads.word_eq (readsA.trans readsB)
    obtain ⟨y, first', second'⟩ := again.split
    obtain ⟨my, matchedA⟩ := ihA placeless.1 first readsA first' mu
    obtain ⟨mv, matchedB⟩ := ihB placeless.2 second readsB second' my
    exact ⟨mv, y, my, matchedA, matchedB⟩
  | alt a b ihA ihB =>
    simp only [Regex.placeless, Bool.and_eq_true] at placeless
    rcases h with matched | matched
    · obtain ⟨mv, matched'⟩ := ihA placeless.1 matched reads again mu
      exact ⟨mv, .inl matched'⟩
    · obtain ⟨mv, matched'⟩ := ihB placeless.2 matched reads again mu
      exact ⟨mv, .inr matched'⟩

/-- The two groups of an expression that is nothing but these, and remembers nothing else. -/
def twoGroups? : Regex → Option (Regex × Regex)
  | .seq (.group 1 first) (.group 2 second) =>
    if first.groupless && second.groupless then some (first, second) else none
  | _ => none

theorem twoGroups?_some {r first second : Regex} (pair : r.twoGroups? = some (first, second)) :
    r = .seq (.group 1 first) (.group 2 second) ∧ first.groupless ∧ second.groupless := by
  unfold twoGroups? at pair
  split at pair
  · next a b =>
    simp only [Option.ite_none_right_eq_some, Bool.and_eq_true, Option.some.injEq, Prod.mk.injEq] at pair
    obtain ⟨plain, rfl, rfl⟩ := pair
    exact ⟨rfl, plain⟩
  · cases pair

end Gloss.Regex

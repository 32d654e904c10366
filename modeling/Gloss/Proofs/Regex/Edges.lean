import Gloss.Proofs.Regex.Picks

/-!
Where a pick ends. A greedy repetition does not stop before a character that it could go on with, and a text
that ends with a quote does not end with anything else. From the form of an expression it is computed that no
pick of it ends between two given characters.
-/
namespace Gloss.Regex

open Text (Spot)

/-- Does the expression match at every spot before the character, for all that it shows? -/
def opens (c : Char) : Regex → Bool
  | .empty => true
  | .text chars => chars == [c]
  | .set members => members.mem c
  | .look _ => false
  | .group _ body => body.opens c
  | .times lo _ _ body => lo == 0 || (lo == 1 && body.opens c)
  | .seq a b => a.opens c && b.skippable
  | .alt a b => a.opens c || b.opens c

theorem matches_of_opens {r : Regex} {c : Char} (opens : r.opens c) {s : Spot} (before : s.rest.head? = some c)
    (m : Marks) : ∃ t mt, r.Matches s m t mt := by
  obtain ⟨rest, text⟩ : ∃ rest, s.rest = c :: rest := by
    cases eq : s.rest with
    | nil => simp [eq] at before
    | cons d rest =>
      simp only [eq, List.head?_cons, Option.some.injEq] at before
      exact ⟨rest, by rw [before]⟩
  induction r generalizing m with
  | empty => exact ⟨s, m, rfl, rfl⟩
  | text chars =>
    simp only [Regex.opens, beq_iff_eq] at opens
    subst opens
    exact ⟨_, m, Spot.Reads.step text, rfl⟩
  | set members => exact ⟨_, m, c, opens, Spot.Reads.step text, rfl⟩
  | look a => cases opens
  | group i body ih =>
    obtain ⟨t, inner, matched⟩ := ih opens ((2 * i, s.pos) :: m)
    exact ⟨t, _, inner, matched, rfl⟩
  | times lo hi greedy body ih =>
    simp only [Regex.opens, Bool.or_eq_true, Bool.and_eq_true, beq_iff_eq] at opens
    rcases opens with rfl | ⟨rfl, opens⟩
    · exact ⟨s, m, Repeats.none s m⟩
    · obtain ⟨t, mt, matched⟩ := ih opens m
      exact ⟨t, mt, 1, Nat.le_refl 1, fun _ _ => Nat.le_max_left _ _, t, mt, matched, rfl, rfl⟩
  | seq a b ihA ihB =>
    simp only [Regex.opens, Bool.and_eq_true] at opens
    obtain ⟨t, mt, first⟩ := ihA opens.1 m
    obtain ⟨mu, second⟩ := matches_of_skippable opens.2 t mt
    exact ⟨t, mu, t, mt, first, second⟩
  | alt a b ihA ihB =>
    simp only [Regex.opens, Bool.or_eq_true] at opens
    rcases opens with opens | opens
    · obtain ⟨t, mt, matched⟩ := ihA opens m
      exact ⟨t, mt, .inl matched⟩
    · obtain ⟨t, mt, matched⟩ := ihB opens m
      exact ⟨t, mt, .inr matched⟩

/-- Does no pick stop before the character, if the rest can be matched everywhere? -/
def swallows (c : Char) : Regex → Bool
  | .look .textEnd => true
  | .look .lineEnd => c != '\n'
  | .group _ body => body.swallows c
  | .times _ none true body => body.opens c
  | .seq _ b => b.swallows c
  | .alt a b => a.swallows c && b.swallows c
  | _ => false

/-- A greedy repetition leaves only where its body does not match. -/
theorem Cycles.swallows {body : Regex} {c : Char} {after : Spot → Prop} {lo : Nat} {s t : Spot} {m mt : Marks}
    (opens : body.opens c) (everywhere : ∀ u, after u)
    (h : Cycles body.Matches body.Picks true after lo none s m t mt) : t.rest.head? ≠ some c := by
  generalize eq : (none : Option Nat) = hi at h
  induction h with
  | must _ _ ih =>
    subst eq
    exact ih rfl
  | more _ _ _ _ ih =>
    subst eq
    exact ih rfl
  | @leave hi s m unwanted =>
    subst eq
    intro before
    obtain ⟨t, mt, matched⟩ := matches_of_opens opens before m
    exact unwanted rfl (by simp) ⟨m, t, mt, matched, mt, t, mt, Repeats.none t mt, everywhere t⟩

theorem Picks.swallows {r : Regex} {c : Char} {after : Spot → Prop} {s t : Spot} {m mt : Marks}
    (swallows : r.swallows c) (everywhere : ∀ u, after u) (h : r.Picks after s m t mt) : t.rest.head? ≠ some c := by
  induction r generalizing s m t mt with
  | empty => cases swallows
  | text => cases swallows
  | set => cases swallows
  | look a =>
    obtain ⟨holds, rfl, _⟩ := h
    cases a with
    | textEnd => simp_all [Assertion.holds]
    | lineEnd =>
      intro before
      simp only [Assertion.holds, before, Bool.or_eq_true, List.isEmpty_iff, beq_iff_eq, Option.some.injEq] at holds
      simp only [Regex.swallows, bne_iff_ne] at swallows
      rcases holds with empty | newline
      · simp [empty] at before
      · exact swallows newline
    | _ => cases swallows
  | group i body ih =>
    obtain ⟨inner, picked, _⟩ := h
    exact ih swallows picked
  | times lo hi greedy body =>
    cases hi with
    | some => cases swallows
    | none =>
      cases greedy with
      | false => cases swallows
      | true => exact Cycles.swallows swallows everywhere h
  | seq a b _ ihB =>
    obtain ⟨u, mu, _, second⟩ := h
    exact ihB swallows second
  | alt a b ihA ihB =>
    simp only [Regex.swallows, Bool.and_eq_true] at swallows
    rcases h with first | ⟨_, second⟩
    · exact ihA swallows.1 first
    · exact ihB swallows.2 second

/-- Does no match end with the character? -/
def lastAvoids (c : Char) : Regex → Bool
  | .empty => true
  | .text chars => chars.getLast? != some c
  | .set members => !members.mem c
  | .look _ => true
  | .group _ body => body.lastAvoids c
  | .times _ _ _ body => body.lastAvoids c
  | .seq a b => b.lastAvoids c && (b.consumes || a.lastAvoids c)
  | .alt a b => a.lastAvoids c && b.lastAvoids c

theorem Matches.lastAvoids {r : Regex} {s t : Spot} {m mt : Marks} {c : Char} (avoids : r.lastAvoids c)
    (h : r.Matches s m t mt) : ∃ w, Spot.Reads s w t ∧ w.getLast? ≠ some c := by
  -- A text ends as its second part does, and as its first if the second is empty.
  have joined : ∀ v w : List Char, v.getLast? ≠ some c → w.getLast? ≠ some c → (v ++ w).getLast? ≠ some c := by
    intro v w lastV lastW
    rw [List.getLast?_append]
    cases eq : w.getLast? with
    | none => simpa [eq] using lastV
    | some d => simpa [eq] using lastW
  induction r generalizing s m t mt with
  | empty =>
    obtain ⟨rfl, _⟩ := h
    exact ⟨[], Spot.Reads.refl t, by simp⟩
  | text chars =>
    simp only [Regex.lastAvoids, bne_iff_ne] at avoids
    exact ⟨chars, h.1, avoids⟩
  | set members =>
    obtain ⟨d, mem, reads, _⟩ := h
    refine ⟨[d], reads, ?_⟩
    simp only [List.getLast?_singleton, ne_eq, Option.some.injEq]
    rintro rfl
    simp [Regex.lastAvoids, mem] at avoids
  | look a =>
    obtain ⟨_, rfl, _⟩ := h
    exact ⟨[], Spot.Reads.refl t, by simp⟩
  | group i body ih =>
    obtain ⟨inner, matched, _⟩ := h
    exact ih avoids matched
  | times lo hi greedy body ih =>
    obtain ⟨n, _, _, rounds⟩ := h
    exact rounds.word (by simp) joined fun s m t mt => ih avoids
  | seq a b ihA ihB =>
    obtain ⟨u, mu, first, second⟩ := h
    simp only [Regex.lastAvoids, Bool.and_eq_true, Bool.or_eq_true] at avoids
    obtain ⟨w, readsW, lastW⟩ := ihB avoids.1 second
    rcases avoids.2 with consumes | avoidsA
    · obtain ⟨v, readsV⟩ := first.reads
      have long := second.consumes consumes
      refine ⟨v ++ w, readsV.trans readsW, ?_⟩
      cases eq : w.getLast? with
      | none =>
        have pos := readsW.pos
        rw [List.getLast?_eq_none_iff.mp eq, Text.byteSize_nil] at pos
        omega
      | some d =>
        rw [List.getLast?_append, eq]
        simpa [eq] using lastW
    · obtain ⟨v, readsV, lastV⟩ := ihA avoidsA first
      exact ⟨v ++ w, readsV.trans readsW, joined v w lastV lastW⟩
  | alt a b ihA ihB =>
    simp only [Regex.lastAvoids, Bool.and_eq_true] at avoids
    rcases h with matched | matched
    · exact ihA avoids.1 matched
    · exact ihB avoids.2 matched

/-- Two characters stand on the two sides of a spot. -/
def Between (c d : Char) (s : Spot) : Prop := s.before = some c ∧ s.rest.head? = some d

/-- A match that does not end with the character does not lead to a spot behind it, unless it is empty. -/
theorem Matches.before_ne {r : Regex} {s t : Spot} {m mt : Marks} {c : Char} (avoids : r.lastAvoids c)
    (h : r.Matches s m t mt) : t = s ∨ t.before ≠ some c := by
  obtain ⟨w, reads, last⟩ := h.lastAvoids avoids
  cases eq : w.getLast? with
  | none =>
    rw [List.getLast?_eq_none_iff.mp eq] at reads
    exact .inl reads.eq_of_nil
  | some d =>
    right
    rw [reads.before, eq, Option.some_or]
    rwa [eq] at last

/-- Does no pick end between the two characters, for all that the expression shows? -/
def apart (c d : Char) : Regex → Bool
  | .group _ body => body.apart c d
  | .alt a b => a.apart c d && b.apart c d
  | .seq a b =>
    b.apart c d || (a.apart c d && b.skippable && b.lastAvoids c) ||
      ((Regex.seq a b).consumes && (Regex.seq a b).lastAvoids c)
  | r => r.swallows d || (r.consumes && r.lastAvoids c)

theorem leadsTo_of_skippable {r : Regex} (skippable : r.skippable) {after : Spot → Prop} (everywhere : ∀ u, after u)
    (u : Spot) : LeadsTo r.Matches after u := by
  obtain ⟨mt, matched⟩ := matches_of_skippable skippable u []
  exact ⟨[], u, mt, matched, everywhere u⟩

theorem Picks.apart {r : Regex} {c d : Char} {after : Spot → Prop} {s t : Spot} {m mt : Marks} (apart : r.apart c d)
    (everywhere : ∀ u, after u) (h : r.Picks after s m t mt) : ¬ Between c d t := by
  have filled : ∀ {r : Regex} {s t : Spot} {m mt : Marks}, r.consumes → r.lastAvoids c → r.Matches s m t mt →
      ¬ Between c d t := by
    intro r s t m mt consumes avoids matched between
    rcases matched.before_ne avoids with rfl | other
    · have := matched.consumes consumes
      omega
    · exact other between.1
  have single : ∀ {r : Regex} {s t : Spot} {m mt : Marks}, (r.swallows d || (r.consumes && r.lastAvoids c)) = true →
      r.Picks after s m t mt → ¬ Between c d t := by
    intro r s t m mt ok picked between
    simp only [Bool.or_eq_true, Bool.and_eq_true] at ok
    rcases ok with swallows | ⟨consumes, avoids⟩
    · exact Picks.swallows swallows everywhere picked between.2
    · exact filled consumes avoids picked.matches between
  induction r generalizing after s m t mt with
  | empty => exact single apart h
  | text => exact single apart h
  | set => exact single apart h
  | look => exact single apart h
  | times => exact single apart h
  | group i body ih =>
    obtain ⟨inner, picked, _⟩ := h
    exact ih apart everywhere picked single
  | seq a b ihA ihB =>
    have whole := h.matches
    obtain ⟨u, mu, first, second⟩ := h
    simp only [Regex.apart, Bool.or_eq_true, Bool.and_eq_true] at apart
    rcases apart with (apart | ⟨⟨apart, skippable⟩, avoids⟩) | ⟨consumes, avoids⟩
    · exact ihB apart everywhere second single
    · intro between
      rcases second.matches.before_ne avoids with rfl | other
      · have open_ := fun u => leadsTo_of_skippable skippable everywhere u
        refine ihA apart open_ first ?_ between
        intro r s t m mt ok picked between
        simp only [Bool.or_eq_true, Bool.and_eq_true] at ok
        rcases ok with swallows | ⟨consumes, avoids⟩
        · exact Picks.swallows swallows open_ picked between.2
        · exact filled consumes avoids picked.matches between
      · exact other between.1
    · exact filled consumes avoids whole
  | alt a b ihA ihB =>
    simp only [Regex.apart, Bool.and_eq_true] at apart
    rcases h with first | ⟨_, second⟩
    · exact ihA apart.1 everywhere first single
    · exact ihB apart.2 everywhere second single

/-- The same, but for matches of one character. -/
def apartOrLone (c d : Char) : Regex → Bool
  | .text [_] => true
  | .set _ => true
  | .alt a b => a.apartOrLone c d && b.apartOrLone c d
  | r => r.apart c d

theorem Picks.apartOrLone {r : Regex} {c d : Char} {after : Spot → Prop} {s t : Spot} {m mt : Marks}
    (apart : r.apartOrLone c d) (everywhere : ∀ u, after u) (h : r.Picks after s m t mt) (between : Between c d t) :
    Spot.Reads s [c] t := by
  -- What is read is one character, and it is the one before the spot.
  have lone : ∀ x, Spot.Reads s [x] t → Spot.Reads s [c] t := by
    intro x reads
    have before := reads.before
    rw [between.1, List.getLast?_singleton, Option.some_or, Option.some.injEq] at before
    rwa [← before] at reads
  have never : ∀ r : Regex, r.apart c d → r.Picks after s m t mt → Spot.Reads s [c] t :=
    fun r apart picked => absurd between (Picks.apart apart everywhere picked)
  induction r with
  | empty => exact never _ apart h
  | text chars =>
    match chars, apart, h with
    | [x], _, picked => exact lone x picked.1
    | [], apart, picked => exact never _ apart picked
    | _ :: _ :: _, apart, picked => exact never _ apart picked
  | set members =>
    obtain ⟨x, _, reads, _⟩ := h
    exact lone x reads
  | look => exact never _ apart h
  | group => exact never _ apart h
  | times => exact never _ apart h
  | seq => exact never _ apart h
  | alt a b ihA ihB =>
    simp only [Regex.apartOrLone, Bool.and_eq_true] at apart
    rcases h with first | ⟨_, second⟩
    · exact ihA apart.1 first
    · exact ihB apart.2 second

end Gloss.Regex

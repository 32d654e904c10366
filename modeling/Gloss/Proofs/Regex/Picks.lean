import Gloss.Proofs.Regex.Preferred
import Gloss.Proofs.Regex.Words

/-!
The match that an expression picks. Which of its matches an expression prefers at a spot depends on what comes
behind it: the first branch of a choice is taken if the rest can be matched behind it, and a greedy repetition
goes on as long as the rest can be matched behind one more round. So a pick is a relation like a match, with a
condition on the spots from which the rest can be matched.
-/
namespace Gloss.Regex

open Text (Spot)

/-- A step of the relation leads to a spot with the condition. -/
def LeadsTo (R : Spot → Marks → Spot → Marks → Prop) (after : Spot → Prop) (s : Spot) : Prop :=
  ∃ m t mt, R s m t mt ∧ after t

/-- One round less, if they are counted. -/
abbrev fewer (hi : Option Nat) : Option Nat := hi.map (· - 1)

/-- The rounds of a repetition. `R` is what its body matches and `P` what it picks, before spots with a condition:
a round is taken before those from which the rounds behind it can go on to where the repetition may end. -/
inductive Cycles (R : Spot → Marks → Spot → Marks → Prop)
    (P : (Spot → Prop) → Spot → Marks → Spot → Marks → Prop) (greedy : Bool) (after : Spot → Prop) :
    Nat → Option Nat → Spot → Marks → Spot → Marks → Prop where
  | must {lo : Nat} {hi : Option Nat} {s u t : Spot} {m mu mt : Marks}
      (first : P (LeadsTo (Repeats R lo (fewer hi)) after) s m u mu)
      (rest : Cycles R P greedy after lo (fewer hi) u mu t mt) : Cycles R P greedy after (lo + 1) hi s m t mt
  | more {hi : Option Nat} {s u t : Spot} {m mu mt : Marks} (room : hi ≠ some 0) (wanted : greedy = false → ¬ after s)
      (first : P (LeadsTo (Repeats R 0 (fewer hi)) after) s m u mu)
      (rest : Cycles R P greedy after 0 (fewer hi) u mu t mt) : Cycles R P greedy after 0 hi s m t mt
  | leave {hi : Option Nat} {s : Spot} {m : Marks}
      (unwanted : greedy = true → hi ≠ some 0 → ¬ LeadsTo R (LeadsTo (Repeats R 0 (fewer hi)) after) s) :
      Cycles R P greedy after 0 hi s m s m

/-- The expression picks the text from one spot to another, where the rest can be matched from spots with a
condition. -/
def Picks : Regex → (Spot → Prop) → Spot → Marks → Spot → Marks → Prop
  | .empty, _, s, m, t, m' => t = s ∧ m' = m
  | .text chars, _, s, m, t, m' => Spot.Reads s chars t ∧ m' = m
  | .set members, _, s, m, t, m' => ∃ c, members.mem c ∧ Spot.Reads s [c] t ∧ m' = m
  | .look a, _, s, m, t, m' => a.holds s ∧ t = s ∧ m' = m
  | .group i body, after, s, m, t, m' =>
    ∃ inner, body.Picks after s ((2 * i, s.pos) :: m) t inner ∧ m' = (2 * i + 1, t.pos) :: inner
  | .times lo hi greedy body, after, s, m, t, m' => Cycles body.Matches body.Picks greedy after lo hi s m t m'
  | .seq a b, after, s, m, t, m' => ∃ u mu, a.Picks (LeadsTo b.Matches after) s m u mu ∧ b.Picks after u mu t m'
  | .alt a b, after, s, m, t, m' =>
    a.Picks after s m t m' ∨ (¬ LeadsTo a.Matches after s ∧ b.Picks after s m t m')

theorem picks_times (lo : Nat) (hi : Option Nat) (greedy : Bool) (body : Regex) :
    Picks (.times lo hi greedy body) =
      fun after s m t mt => Cycles body.Matches body.Picks greedy after lo hi s m t mt := rfl

section Cycles

variable {R : Spot → Marks → Spot → Marks → Prop} {P : (Spot → Prop) → Spot → Marks → Spot → Marks → Prop}
  {greedy : Bool} {after : Spot → Prop} {lo : Nat} {hi : Option Nat} {s t u : Spot} {m mt mu : Marks}

/-- One round more in front of others. -/
theorem Repeats.cons (first : R s m u mu) (rest : Repeats R lo (fewer hi) u mu t mt) :
    Repeats R (lo + 1) hi s m t mt := by
  obtain ⟨n, low, high, rounds⟩ := rest
  refine ⟨n + 1, by omega, ?_, u, mu, first, rounds⟩
  rintro most rfl
  have := high (most - 1) rfl
  omega

theorem Repeats.cons_zero (room : hi ≠ some 0) (first : R s m u mu) (rest : Repeats R 0 (fewer hi) u mu t mt) :
    Repeats R 0 hi s m t mt := by
  obtain ⟨n, low, high, rounds⟩ := rest
  refine ⟨n + 1, Nat.zero_le _, ?_, u, mu, first, rounds⟩
  rintro most rfl
  have := high (most - 1) rfl
  have : most ≠ 0 := fun eq => room (by rw [eq])
  omega

theorem Repeats.uncons (h : Repeats R (lo + 1) hi s m t mt) :
    ∃ u mu, R s m u mu ∧ Repeats R lo (fewer hi) u mu t mt := by
  obtain ⟨n, low, high, rounds⟩ := h
  obtain ⟨n, rfl⟩ := Nat.exists_eq_succ_of_ne_zero (n := n) (by omega)
  obtain ⟨u, mu, first, rounds⟩ := rounds
  refine ⟨u, mu, first, n, by omega, ?_, rounds⟩
  intro most eq
  cases hi with
  | none => cases eq
  | some top =>
    simp only [fewer, Option.map_some, Option.some.injEq] at eq
    have := high top rfl
    omega

/-- Rounds that can be left out are none, or one and others. -/
theorem Repeats.zero_cases (h : Repeats R 0 hi s m t mt) :
    (t = s ∧ mt = m) ∨ (hi ≠ some 0 ∧ ∃ u mu, R s m u mu ∧ Repeats R 0 (fewer hi) u mu t mt) := by
  obtain ⟨n, low, high, rounds⟩ := h
  cases n with
  | zero => exact .inl rounds
  | succ n =>
    obtain ⟨u, mu, first, rounds⟩ := rounds
    refine .inr ⟨?_, u, mu, first, n, Nat.zero_le _, ?_, rounds⟩
    · rintro rfl
      have := high 0 rfl
      omega
    · intro most eq
      cases hi with
      | none => cases eq
      | some top =>
        simp only [fewer, Option.map_some, Option.some.injEq] at eq
        have := high top rfl
        omega

theorem Repeats.none (s : Spot) (m : Marks) : Repeats R 0 hi s m s m :=
  ⟨0, Nat.le_refl 0, fun _ _ => Nat.zero_le _, rfl, rfl⟩

/-- Rounds that are picked are matched. -/
theorem Cycles.repeats (each : ∀ after s m t mt, P after s m t mt → R s m t mt)
    (h : Cycles R P greedy after lo hi s m t mt) : Repeats R lo hi s m t mt := by
  induction h with
  | must first _ ih => exact ih.cons (each _ _ _ _ _ first)
  | more room _ first _ ih => exact ih.cons_zero room (each _ _ _ _ _ first)
  | leave => exact .none _ _

end Cycles

/-- What an expression picks it matches. -/
theorem Picks.matches {r : Regex} {after : Spot → Prop} {s t : Spot} {m mt : Marks} (h : r.Picks after s m t mt) :
    r.Matches s m t mt := by
  induction r generalizing after s t m mt with
  | empty => exact h
  | text => exact h
  | set => exact h
  | look => exact h
  | group i body ih =>
    obtain ⟨inner, picked, eq⟩ := h
    exact ⟨inner, ih picked, eq⟩
  | times lo hi greedy body ih => exact Cycles.repeats (fun _ _ _ _ _ picked => ih picked) h
  | seq a b ihA ihB =>
    obtain ⟨u, mu, first, second⟩ := h
    exact ⟨u, mu, ihA first, ihB second⟩
  | alt a b ihA ihB =>
    rcases h with first | ⟨_, second⟩
    · exact .inl (ihA first)
    · exact .inr (ihB second)

/-- Every repetition without end reads something in each round. -/
def guarded : Regex → Bool
  | .group _ body => body.guarded
  | .times _ hi _ body => body.guarded && (hi.isSome || body.consumes)
  | .seq a b => a.guarded && b.guarded
  | .alt a b => a.guarded && b.guarded
  | _ => true

/-- Rounds are picked where there are some that lead on, if each reads something or they are counted. The number
of rounds to come falls, or the text that is left. -/
theorem Cycles.exists {body : Regex} {greedy : Bool} {after : Spot → Prop} {lo : Nat} {hi : Option Nat} {s : Spot}
    (ih : ∀ {after s} (m : Marks), LeadsTo body.Matches after s → ∃ t mt, body.Picks after s m t mt ∧ after t)
    (ends : hi.isSome || body.consumes) (m : Marks) (leads : LeadsTo (Repeats body.Matches lo hi) after s) :
    ∃ t mt, Cycles body.Matches body.Picks greedy after lo hi s m t mt ∧ after t := by
  generalize size : lo + hi.getD s.rest.length = n
  induction n using Nat.strongRecOn generalizing lo hi s m with
  | _ n less =>
    -- The rounds behind one that was picked.
    have onward : ∀ {lo' : Nat} {u : Spot} {mu : Marks}, body.Matches s m u mu →
        lo' + (fewer hi).getD u.rest.length < n → LeadsTo (Repeats body.Matches lo' (fewer hi)) after u →
        ∃ t mt, Cycles body.Matches body.Picks greedy after lo' (fewer hi) u mu t mt ∧ after t := by
      intro lo' u mu _ smaller leads
      refine less _ smaller ?_ mu leads rfl
      cases hi <;> exact ends
    cases lo with
    | succ lo =>
      obtain ⟨m', t, mt, repeats, ends'⟩ := leads
      obtain ⟨u, mu, first, rest⟩ := repeats.uncons
      have leadsS : LeadsTo body.Matches (LeadsTo (Repeats body.Matches lo (fewer hi)) after) s :=
        ⟨m', u, mu, first, mu, t, mt, rest, ends'⟩
      obtain ⟨u, mu, picked, leadsU⟩ := ih m leadsS
      obtain ⟨_, reads⟩ := picked.matches.reads
      have short := reads.length_le
      have smaller : lo + (fewer hi).getD u.rest.length < n := by
        cases hi with
        | none =>
          simp only [Option.map_none, Option.getD_none] at size ⊢
          omega
        | some top =>
          simp only [Option.map_some, Option.getD_some] at size ⊢
          omega
      obtain ⟨t, mt, rest, ends'⟩ := onward picked.matches smaller leadsU
      exact ⟨t, mt, .must picked rest, ends'⟩
    | zero =>
      -- One round more, where that leads on.
      have goOn : hi ≠ some 0 → (greedy = false → ¬ after s) →
          LeadsTo body.Matches (LeadsTo (Repeats body.Matches 0 (fewer hi)) after) s →
          ∃ t mt, Cycles body.Matches body.Picks greedy after 0 hi s m t mt ∧ after t := by
        intro room wanted leads
        obtain ⟨u, mu, picked, leadsU⟩ := ih m leads
        obtain ⟨_, reads⟩ := picked.matches.reads
        have smaller : 0 + (fewer hi).getD u.rest.length < n := by
          cases hi with
          | none =>
            have := reads.length_lt (Matches.consumes (by simpa using ends) picked.matches)
            simp only [Option.map_none, Option.getD_none] at size ⊢
            omega
          | some top =>
            have : top ≠ 0 := fun eq => room (by rw [eq])
            simp only [Option.map_some, Option.getD_some] at size ⊢
            omega
        obtain ⟨t, mt, rest, ends'⟩ := onward picked.matches smaller leadsU
        exact ⟨t, mt, .more room wanted picked rest, ends'⟩
      have cases_ : after s ∨
          (hi ≠ some 0 ∧ LeadsTo body.Matches (LeadsTo (Repeats body.Matches 0 (fewer hi)) after) s) := by
        obtain ⟨m', t, mt, repeats, ends'⟩ := leads
        rcases repeats.zero_cases with ⟨rfl, rfl⟩ | ⟨room, u, mu, first, rest⟩
        · exact .inl ends'
        · exact .inr ⟨room, m', u, mu, first, mu, t, mt, rest, ends'⟩
      by_cases further : hi ≠ some 0 ∧ LeadsTo body.Matches (LeadsTo (Repeats body.Matches 0 (fewer hi)) after) s
      · by_cases wanted : greedy = false → ¬ after s
        · exact goOn further.1 wanted further.2
        · have lazy : greedy = false ∧ after s := by
            by_cases lazy : greedy = false <;> simp_all
          exact ⟨s, m, .leave (fun eager => by rw [lazy.1] at eager; cases eager), lazy.2⟩
      · rcases cases_ with here | further'
        · exact ⟨s, m, .leave fun _ room leads => further ⟨room, leads⟩, here⟩
        · exact absurd further' further

/-- Where an expression matches so that the rest can be matched, it picks such a match. -/
theorem Picks.exists {r : Regex} (guarded : r.guarded) {after : Spot → Prop} {s : Spot} (m : Marks)
    (leads : LeadsTo r.Matches after s) : ∃ t mt, r.Picks after s m t mt ∧ after t := by
  induction r generalizing after s m with
  | empty =>
    obtain ⟨_, t, _, ⟨rfl, _⟩, ends⟩ := leads
    exact ⟨t, m, ⟨rfl, rfl⟩, ends⟩
  | text chars =>
    obtain ⟨_, t, _, ⟨reads, _⟩, ends⟩ := leads
    exact ⟨t, m, ⟨reads, rfl⟩, ends⟩
  | set members =>
    obtain ⟨_, t, _, ⟨c, mem, reads, _⟩, ends⟩ := leads
    exact ⟨t, m, ⟨c, mem, reads, rfl⟩, ends⟩
  | look a =>
    obtain ⟨_, t, _, ⟨holds, rfl, _⟩, ends⟩ := leads
    exact ⟨t, m, ⟨holds, rfl, rfl⟩, ends⟩
  | group i body ih =>
    obtain ⟨m', t, mt, ⟨inner, matched, _⟩, ends⟩ := leads
    obtain ⟨t, inner, picked, ends⟩ := ih guarded ((2 * i, s.pos) :: m) ⟨_, t, inner, matched, ends⟩
    exact ⟨t, _, ⟨inner, picked, rfl⟩, ends⟩
  | times lo hi greedy body ih =>
    simp only [Regex.guarded, Bool.and_eq_true] at guarded
    exact Cycles.exists (ih guarded.1) guarded.2 m leads
  | seq a b ihA ihB =>
    simp only [Regex.guarded, Bool.and_eq_true] at guarded
    obtain ⟨m', t, mt, ⟨u, mu, first, second⟩, ends⟩ := leads
    have leadsA : LeadsTo a.Matches (LeadsTo b.Matches after) s := ⟨m', u, mu, first, mu, t, mt, second, ends⟩
    obtain ⟨u, mu, pickedA, leadsU⟩ := ihA guarded.1 m leadsA
    obtain ⟨t, mt, pickedB, ends⟩ := ihB guarded.2 mu leadsU
    exact ⟨t, mt, ⟨u, mu, pickedA, pickedB⟩, ends⟩
  | alt a b ihA ihB =>
    simp only [Regex.guarded, Bool.and_eq_true] at guarded
    by_cases first : LeadsTo a.Matches after s
    · obtain ⟨t, mt, picked, ends⟩ := ihA guarded.1 m first
      exact ⟨t, mt, .inl picked, ends⟩
    · have second : LeadsTo b.Matches after s := by
        obtain ⟨m', t, mt, matched | matched, ends⟩ := leads
        · exact absurd ⟨m', t, mt, matched, ends⟩ first
        · exact ⟨m', t, mt, matched, ends⟩
      obtain ⟨t, mt, picked, ends⟩ := ihB guarded.2 m second
      exact ⟨t, mt, .inr ⟨first, picked⟩, ends⟩

/-- The preferred way from a place leads to a match. -/
def Preferred (code : Array Instr) (stop : Spot) (final : Marks) (p : Nat) (s : Spot) (m : Marks) : Prop :=
  ∃ n, Best code stop final n p s m

namespace Program

variable {A B : Program → Program} {R S : Spot → Marks → Spot → Marks → Prop}
  {P Q : (Spot → Prop) → Spot → Marks → Spot → Marks → Prop} {code : Array Instr} {p : Program} {s t stop : Spot}
  {m mt final : Marks} {greedy : Bool}

/-- Where a match can be reached through what is put in front of a program. -/
theorem Realizes.live (h : Realizes A R) (holds : Holds code p.code.size (A p)) :
    Live code (A p).start = LeadsTo R (Live code p.start) := by
  funext s
  apply propext
  constructor
  · intro live
    obtain ⟨stop, final, n, ends⟩ := live.ends []
    obtain ⟨_, _, t, mt, rel, more⟩ := h.sound holds ends
    exact ⟨[], t, mt, rel, more.live⟩
  · rintro ⟨m, t, mt, rel, live⟩
    obtain ⟨stop, final, n, ends⟩ := live.ends mt
    obtain ⟨k, ends⟩ := h.complete holds rel ends
    exact ends.live

/-- What is put in front of a program leads on to its start by what is picked before spots from which a match
can be reached there. -/
structure Prefers (put : Program → Program) (P : (Spot → Prop) → Spot → Marks → Spot → Marks → Prop) : Prop where
  best : ∀ {p : Program} {code : Array Instr} {stop s t : Spot} {final m mt : Marks},
    Holds code p.code.size (put p) → P (Live code p.start) s m t mt → Preferred code stop final p.start t mt →
    Preferred code stop final (put p).start s m

theorem Prefers.congr (h : Prefers A P) (same : ∀ after s m t mt, Q after s m t mt → P after s m t mt) :
    Prefers A Q :=
  ⟨fun holds picked best => h.best holds (same _ _ _ _ _ picked) best⟩

theorem prefers_id : Prefers (fun p => p) (fun _ s m t mt => t = s ∧ mt = m) := by
  constructor
  rintro p code stop s t final m mt _ ⟨rfl, rfl⟩ best
  exact best

theorem Prefers.comp (first : Prefers A P) (second : Prefers B Q) (growsA : ∀ p, Grows p (A p))
    (realizes : Realizes B S) :
    Prefers (fun p => A (B p)) (fun after s m t mt => ∃ u mu, P (LeadsTo S after) s m u mu ∧ Q after u mu t mt) := by
  constructor
  rintro p code stop s t final m mt holds ⟨u, mu, picked, picked'⟩ best
  have inner := holds.of_grows (growsA _)
  rw [← realizes.live inner] at picked
  exact first.best (holds.mono (realizes.grows p).size) picked (second.best inner picked' best)

theorem prefers_chars (members : CharSet) : Prefers (fun p => p.put (.chars members)) (Picks (.set members)) := by
  constructor
  rintro p code stop s t final m mt holds ⟨c, mem, reads, rfl⟩ ⟨n, best⟩
  obtain ⟨rest, text, more⟩ := reads.cons_inv
  rw [more.eq_of_nil] at best
  exact ⟨n + 1, .chars (holds.put (Nat.le_refl _)) text mem best⟩

theorem prefers_look (a : Assertion) : Prefers (fun p => p.put (.look a)) (Picks (.look a)) := by
  constructor
  rintro p code stop s t final m mt holds ⟨true_, rfl, rfl⟩ ⟨n, best⟩
  exact ⟨n + 1, .look (holds.put (Nat.le_refl _)) true_ best⟩

theorem prefers_mark (slot : Nat) :
    Prefers (fun p => p.put (.mark slot)) (fun _ s m t mt => t = s ∧ mt = (slot, s.pos) :: m) := by
  constructor
  rintro p code stop s t final m mt holds ⟨rfl, rfl⟩ ⟨n, best⟩
  exact ⟨n + 1, .mark (holds.put (Nat.le_refl _)) best⟩

theorem prefers_text (chars : List Char) :
    Prefers (fun p => chars.foldr (fun c p => p.put (.chars (.single c))) p) (Picks (.text chars)) := by
  induction chars with
  | nil =>
    refine prefers_id.congr ?_
    rintro _ s m t mt ⟨reads, rfl⟩
    exact ⟨reads.eq_of_nil, rfl⟩
  | cons c chars ih =>
    refine ((prefers_chars (.single c)).comp ih (fun p => put_grows p _) (realizes_text chars)).congr ?_
    rintro _ s m t mt ⟨reads, rfl⟩
    obtain ⟨u, first, more⟩ := Spot.Reads.split (a := [c]) reads
    exact ⟨u, mt, ⟨c, CharSet.mem_single.mpr rfl, first, rfl⟩, more, rfl⟩

/-- A choice goes on at its place for one more round, unless it would rather leave and can. -/
theorem Turns.enter {place one two : Nat} (turn : Turns code greedy place one two)
    (wanted : greedy = false → ¬ Live code two s) (best : Preferred code stop final one s m) :
    Preferred code stop final place s m := by
  obtain ⟨n, best⟩ := best
  cases greedy with
  | true => exact ⟨n + 1, .first turn best⟩
  | false => exact ⟨n + 1, .second turn (wanted rfl) best⟩

theorem Turns.leave {place one two : Nat} (turn : Turns code greedy place one two)
    (unwanted : greedy = true → ¬ Live code one s) (best : Preferred code stop final two s m) :
    Preferred code stop final place s m := by
  obtain ⟨n, best⟩ := best
  cases greedy with
  | true => exact ⟨n + 1, .second turn (unwanted rfl) best⟩
  | false => exact ⟨n + 1, .first turn best⟩

theorem prefers_alt (first : Prefers A P) (second : Prefers B Q) (realizes : Realizes A R) (grows : ∀ p, Grows p (B p)) :
    Prefers (fun p => (A ⟨(B p).code, p.start⟩).putFork true (B p).start)
      (fun after s m t mt => P after s m t mt ∨ (¬ LeadsTo R after s ∧ Q after s m t mt)) := by
  constructor
  rintro p code stop s t final m mt holds picked best
  have growsFirst : Grows (B p) (A ⟨(B p).code, p.start⟩) := by
    have grows := realizes.grows ⟨(B p).code, p.start⟩
    exact ⟨grows.size, grows.keeps⟩
  have growsFork := putFork_grows (A ⟨(B p).code, p.start⟩) true (B p).start
  have turn := Holds.turn holds ((grows p).trans growsFirst).size
  have blockA : Holds code (B p).code.size (A ⟨(B p).code, p.start⟩) :=
    (holds.of_grows growsFork).mono (grows p).size
  rcases picked with picked | ⟨dead, picked⟩
  · exact turn.enter (fun no => by cases no) (first.best (p := ⟨(B p).code, p.start⟩) blockA picked best)
  · have live := realizes.live (p := ⟨(B p).code, p.start⟩) blockA
    refine turn.leave (fun _ => ?_) (second.best (holds.of_grows (growsFirst.trans growsFork)) picked best)
    rw [live]
    exact dead

theorem putTimes_succ (A : Program → Program) (n : Nat) (p : Program) :
    putTimes A (n + 1) p = A (putTimes A n p) := by
  induction n generalizing p with
  | zero => rfl
  | succ n ih => exact ih (A p)

theorem putOptional_succ (A : Program → Program) (greedy : Bool) (exit n : Nat) (p : Program) :
    putOptional A greedy exit (n + 1) p = (A (putOptional A greedy exit n p)).putFork greedy exit := by
  induction n generalizing p with
  | zero => rfl
  | succ n ih => exact ih ((A p).putFork greedy exit)

/-- Rounds that can be left out, counted. -/
theorem prefers_optional (body : Prefers A P) (realizes : Realizes A R) (greedy : Bool) (n : Nat) :
    Prefers (fun p => putOptional A greedy p.start n p)
      (fun after s m t mt => Cycles R P greedy after 0 (some n) s m t mt) := by
  constructor
  rintro p code stop s t final m mt holds cycles best
  induction n generalizing s m with
  | zero =>
    cases cycles with
    | more room => exact absurd rfl room
    | leave => exact best
  | succ n ih =>
    have bounded := realizes_bounded realizes greedy 0 n
    simp only [Nat.sub_zero, putTimes] at bounded
    rw [putOptional_succ] at holds ⊢
    have growsBody := realizes.grows (putOptional A greedy p.start n p)
    have growsFork := putFork_grows (A (putOptional A greedy p.start n p)) greedy p.start
    have growsRest := putOptional_grows realizes greedy p.start n p
    have turn := Holds.turn holds (growsRest.trans growsBody).size
    have rest := holds.of_grows (growsBody.trans growsFork)
    have round := (holds.of_grows growsFork).mono growsRest.size
    have liveRest := bounded.live rest
    have liveRound := realizes.live round
    rw [liveRest] at liveRound
    cases cycles with
    | more _ wanted first more =>
      refine turn.enter wanted (body.best round ?_ (ih rest more))
      rw [liveRest]
      exact first
    | leave unwanted =>
      refine turn.leave ?_ best
      intro eager
      rw [liveRound]
      exact unwanted eager (by simp)

/-- Rounds of which some cannot be left out, counted. -/
theorem prefers_bounded (body : Prefers A P) (realizes : Realizes A R) (greedy : Bool) (lo most : Nat) :
    Prefers (fun p => putTimes A lo (putOptional A greedy p.start (most - lo) p))
      (fun after s m t mt => Cycles R P greedy after lo (some most) s m t mt) := by
  constructor
  rintro p code stop s t final m mt holds cycles best
  induction lo generalizing most s m with
  | zero => exact (prefers_optional body realizes greedy most).best holds cycles best
  | succ lo ih =>
    rw [show most - (lo + 1) = most - 1 - lo by omega, putTimes_succ] at holds ⊢
    have bounded := realizes_bounded realizes greedy lo (most - 1)
    have rest := holds.of_grows (realizes.grows _)
    have round := holds.mono (bounded.grows p).size
    cases cycles with
    | must first more =>
      refine body.best round ?_ (ih (most - 1) rest more)
      rw [bounded.live rest]
      exact first

section Loop

variable {put : Program → Program}

/-- The choice behind the body of a loop leads to what can come after any number of rounds. -/
theorem live_turn (realizes : Realizes A R) (holds : Holds code p.code.size (putLoop A greedy p)) :
    Live code p.code.size = LeadsTo (Repeats R 0 none) (Live code p.start) := by
  have star : Realizes (putStar A greedy) (Repeats R 0 none) :=
    (realizes_star realizes greedy).congr fun _ _ _ _ => repeats_zero.symm
  have whole : Holds code p.code.size (putStar A greedy p) := holds
  exact star.live whole

/-- Rounds from the choice behind the body of a loop. -/
theorem preferred_turn (body : Prefers A P) (realizes : Realizes A R)
    (holds : Holds code p.code.size (putLoop A greedy p))
    (cycles : Cycles R P greedy (Live code p.start) 0 none s m t mt)
    (best : Preferred code stop final p.start t mt) : Preferred code stop final p.code.size s m := by
  obtain ⟨round, turn⟩ := Holds.putLoop realizes holds
  have liveTurn : Live code p.loopBase.start = _ := live_turn realizes holds
  have liveRound := realizes.live round
  rw [liveTurn] at liveRound
  generalize low : 0 = lo, high : none = hi at cycles
  induction cycles with
  | must => cases low
  | more _ wanted first _ ih =>
    subst high
    refine turn.enter wanted (body.best round ?_ (ih best rfl rfl))
    rw [liveTurn]
    exact first
  | leave unwanted =>
    subst high
    refine turn.leave ?_ best
    intro eager
    rw [liveRound]
    exact unwanted eager (by simp)

theorem prefers_star (body : Prefers A P) (realizes : Realizes A R) (greedy : Bool) :
    Prefers (putStar A greedy) (fun after s m t mt => Cycles R P greedy after 0 none s m t mt) := by
  constructor
  rintro p code stop s t final m mt holds cycles best
  have whole : Holds code p.code.size (putLoop A greedy p) := holds
  exact preferred_turn body realizes whole cycles best

/-- A round of a loop from its start. -/
theorem preferred_loop (body : Prefers A P) (realizes : Realizes A R)
    (holds : Holds code p.code.size (putLoop A greedy p)) {u : Spot} {mu : Marks}
    (first : P (LeadsTo (Repeats R 0 none) (Live code p.start)) s m u mu)
    (rest : Cycles R P greedy (Live code p.start) 0 none u mu t mt) (best : Preferred code stop final p.start t mt) :
    Preferred code stop final (putLoop A greedy p).start s m := by
  obtain ⟨round, _⟩ := Holds.putLoop realizes holds
  rw [putLoop_start]
  refine body.best round ?_ (preferred_turn body realizes holds rest best)
  have liveTurn : Live code p.loopBase.start = _ := live_turn realizes holds
  rw [liveTurn]
  exact first

theorem prefers_forkedLoop (body : Prefers A P) (realizes : Realizes A R) (greedy : Bool) :
    Prefers (fun p => (putLoop A greedy p).putFork greedy p.start)
      (fun after s m t mt => Cycles R P greedy after 0 none s m t mt) := by
  constructor
  rintro p code stop s t final m mt holds cycles best
  have growsFork := putFork_grows (putLoop A greedy p) greedy p.start
  have loop := holds.of_grows growsFork
  have turn := Holds.turn holds (putLoop_grows realizes greedy p).size
  obtain ⟨round, _⟩ := Holds.putLoop realizes loop
  have liveTurn : Live code p.loopBase.start = _ := live_turn realizes loop
  have liveRound := realizes.live round
  rw [liveTurn] at liveRound
  cases cycles with
  | more _ wanted first rest => exact turn.enter wanted (preferred_loop body realizes loop first rest best)
  | leave unwanted =>
    refine turn.leave ?_ best
    intro eager
    rw [putLoop_start, liveRound]
    exact unwanted eager (by simp)

/-- Rounds without end, behind some that cannot be left out. -/
theorem prefers_unbounded (body : Prefers A P) (realizes : Realizes A R) (greedy : Bool) (lo : Nat) :
    Prefers (fun p => putTimes A lo (putLoop A greedy p))
      (fun after s m t mt => Cycles R P greedy after (lo + 1) none s m t mt) := by
  constructor
  rintro p code stop s t final m mt holds cycles best
  induction lo generalizing s m with
  | zero =>
    cases cycles with
    | must first rest => exact preferred_loop body realizes holds first rest best
  | succ lo ih =>
    rw [putTimes_succ] at holds ⊢
    have unbounded := realizes_unbounded realizes greedy lo
    have rest := holds.of_grows (realizes.grows _)
    have round := holds.mono (unbounded.grows p).size
    cases cycles with
    | must first more =>
      refine body.best round ?_ (ih rest more)
      rw [unbounded.live rest]
      exact first

end Loop

end Program

open Program in
/-- The code of an expression leads on by the text that the expression picks. -/
theorem assemble_prefers (r : Regex) : Prefers r.assemble r.Picks := by
  induction r with
  | empty => exact prefers_id
  | text chars => exact prefers_text chars
  | set members => exact prefers_chars members
  | look a => exact prefers_look a
  | group i body ih =>
    have marks := realizes_mark (2 * i + 1)
    refine ((prefers_mark (2 * i)).comp (ih.comp (prefers_mark (2 * i + 1)) body.assemble_realizes.grows marks)
      (fun p => put_grows p _) (body.assemble_realizes.comp marks)).congr ?_
    rintro after s m t mt ⟨inner, picked, rfl⟩
    refine ⟨s, _, ⟨rfl, rfl⟩, t, inner, ?_, rfl, rfl⟩
    have same : LeadsTo (fun s m t mt => t = s ∧ mt = (2 * i + 1, s.pos) :: m) after = after := by
      funext u
      apply propext
      constructor
      · rintro ⟨_, _, _, ⟨rfl, _⟩, holds⟩
        exact holds
      · intro holds
        exact ⟨[], u, _, ⟨rfl, rfl⟩, holds⟩
    rw [same]
    exact picked
  | seq a b ihA ihB => exact ihA.comp ihB a.assemble_realizes.grows b.assemble_realizes
  | alt a b ihA ihB => exact prefers_alt ihA ihB a.assemble_realizes b.assemble_realizes.grows
  | times lo hi greedy body ih =>
    have realizes := body.assemble_realizes
    cases hi with
    | some most => exact prefers_bounded ih realizes greedy lo most
    | none =>
      cases lo with
      | zero =>
        by_cases consumes : body.consumes
        · simpa only [assemble, consumes, if_true, picks_times] using prefers_star ih realizes greedy
        · simpa only [assemble, consumes, Bool.false_eq_true, if_false, picks_times] using
            prefers_forkedLoop ih realizes greedy
      | succ lo => exact prefers_unbounded ih realizes greedy lo

/-- A search reports what the expression picks. -/
theorem matchAt_of_picks {r : Regex} {s t : Spot} {mt : Marks} (picked : r.Picks (fun _ => True) s [] t mt) :
    r.program.matchAt s = some ⟨s.pos, t, mt⟩ := by
  have realizes := r.assemble_realizes
  have holds : Program.Holds r.program.code 1 r.program := fun _ _ _ => rfl
  have last : r.program.code[0]? = some .accept := by
    rw [program, (realizes.grows ⟨#[.accept], 0⟩).keeps 0 (by simp)]
    rfl
  have live : Live r.program.code 0 = fun _ => True := by
    funext u
    exact eq_true (.accept last)
  rw [← live] at picked
  obtain ⟨n, best⟩ := r.assemble_prefers.best (p := ⟨#[.accept], 0⟩) holds picked ⟨0, .accept last⟩
  exact Program.matchAt_best best

end Gloss.Regex

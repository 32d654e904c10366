import Gloss.Proofs.Regex.Leftmost

/-!
Which match is found. Of the ways from a spot, the preferred one takes the first branch of a choice whenever a
match can be reached from there, and else the second. A search that follows all ways side by side reports the
match at the end of that way: it never comes to a place twice before the same character, and the ways in front
of it lead nowhere.
-/
namespace Gloss.Regex

open Text (Spot)

/-- The preferred way from a place and a spot, with the number of its steps and the match at its end. -/
inductive Best (code : Array Instr) (stop : Spot) (final : List (Nat × Nat)) :
    Nat → Nat → Spot → List (Nat × Nat) → Prop where
  | accept {p : Nat} (at_ : code[p]? = some .accept) : Best code stop final 0 p stop final
  | chars {n p next : Nat} {s : Spot} {m : List (Nat × Nat)} {members : CharSet} {c : Char}
      {rest : List Char} (at_ : code[p]? = some (.chars members next)) (text : s.rest = c :: rest)
      (mem : members.mem c) (onward : Best code stop final n next (s.step c rest) m) :
      Best code stop final (n + 1) p s m
  | look {n p next : Nat} {s : Spot} {m : List (Nat × Nat)} {a : Assertion}
      (at_ : code[p]? = some (.look a next)) (holds : a.holds s)
      (onward : Best code stop final n next s m) : Best code stop final (n + 1) p s m
  | mark {n p next slot : Nat} {s : Spot} {m : List (Nat × Nat)}
      (at_ : code[p]? = some (.mark slot next))
      (onward : Best code stop final n next s ((slot, s.pos) :: m)) : Best code stop final (n + 1) p s m
  | first {n p one two : Nat} {s : Spot} {m : List (Nat × Nat)} (at_ : code[p]? = some (.fork one two))
      (onward : Best code stop final n one s m) : Best code stop final (n + 1) p s m
  | second {n p one two : Nat} {s : Spot} {m : List (Nat × Nat)} (at_ : code[p]? = some (.fork one two))
      (dead : ¬ Live code one s) (onward : Best code stop final n two s m) : Best code stop final (n + 1) p s m

section Best

variable {code : Array Instr} {stop s : Spot} {final m : List (Nat × Nat)} {n p : Nat}

theorem Best.live (h : Best code stop final n p s m) : Live code p s := by
  induction h with
  | accept at_ => exact .accept at_
  | chars at_ text mem _ ih => exact .chars at_ text mem ih
  | look at_ holds _ ih => exact .look at_ holds ih
  | mark at_ _ ih => exact .mark at_ ih
  | first at_ _ ih => exact .first at_ ih
  | second at_ _ _ ih => exact .second at_ ih

/-! What an instruction makes of the preferred way that begins at it. -/

theorem Best.of_accept (h : Best code stop final n p s m) (at_ : code[p]? = some .accept) :
    n = 0 ∧ s = stop ∧ m = final := by
  cases h with
  | accept => exact ⟨rfl, rfl, rfl⟩
  | chars at' | look at' | mark at' | first at' | second at' =>
    rw [at_] at at'
    cases at'

theorem Best.of_chars {members : CharSet} {next : Nat} (h : Best code stop final n p s m)
    (at_ : code[p]? = some (.chars members next)) :
    ∃ k c rest, n = k + 1 ∧ s.rest = c :: rest ∧ members.mem c ∧ Best code stop final k next (s.step c rest) m := by
  cases h with
  | chars at' text mem onward =>
    rw [at_] at at'
    cases at'
    exact ⟨_, _, _, rfl, text, mem, onward⟩
  | accept at' | look at' | mark at' | first at' | second at' =>
    rw [at_] at at'
    cases at'

theorem Best.of_look {a : Assertion} {next : Nat} (h : Best code stop final n p s m)
    (at_ : code[p]? = some (.look a next)) :
    ∃ k, n = k + 1 ∧ a.holds s ∧ Best code stop final k next s m := by
  cases h with
  | look at' holds onward =>
    rw [at_] at at'
    cases at'
    exact ⟨_, rfl, holds, onward⟩
  | accept at' | chars at' | mark at' | first at' | second at' =>
    rw [at_] at at'
    cases at'

theorem Best.of_mark {slot next : Nat} (h : Best code stop final n p s m)
    (at_ : code[p]? = some (.mark slot next)) :
    ∃ k, n = k + 1 ∧ Best code stop final k next s ((slot, s.pos) :: m) := by
  cases h with
  | mark at' onward =>
    rw [at_] at at'
    cases at'
    exact ⟨_, rfl, onward⟩
  | accept at' | chars at' | look at' | first at' | second at' =>
    rw [at_] at at'
    cases at'

theorem Best.of_fork {one two : Nat} (h : Best code stop final n p s m)
    (at_ : code[p]? = some (.fork one two)) :
    ∃ k, n = k + 1 ∧
      (Best code stop final k one s m ∨ ¬ Live code one s ∧ Best code stop final k two s m) := by
  cases h with
  | first at' onward =>
    rw [at_] at at'
    cases at'
    exact ⟨_, rfl, .inl onward⟩
  | second at' dead onward =>
    rw [at_] at at'
    cases at'
    exact ⟨_, rfl, .inr ⟨dead, onward⟩⟩
  | accept at' | chars at' | look at' | mark at' =>
    rw [at_] at at'
    cases at'

/-- There is one preferred way from a place, whatever is remembered on it. -/
theorem Best.length_eq {stop' : Spot} {final' m' : List (Nat × Nat)} {n' : Nat}
    (h : Best code stop final n p s m) (h' : Best code stop' final' n' p s m') : n = n' := by
  induction h generalizing n' m' with
  | accept at_ => exact (h'.of_accept at_).1.symm
  | chars at_ text _ _ ih =>
    obtain ⟨k, c, rest, rfl, text', _, onward⟩ := h'.of_chars at_
    rw [text] at text'
    cases text'
    rw [ih onward]
  | look at_ _ _ ih =>
    obtain ⟨k, rfl, _, onward⟩ := h'.of_look at_
    rw [ih onward]
  | mark at_ _ ih =>
    obtain ⟨k, rfl, onward⟩ := h'.of_mark at_
    rw [ih onward]
  | first at_ more ih =>
    obtain ⟨k, rfl, onward | ⟨dead, _⟩⟩ := h'.of_fork at_
    · rw [ih onward]
    · exact absurd more.live dead
  | second at_ dead _ ih =>
    obtain ⟨k, rfl, onward | ⟨_, onward⟩⟩ := h'.of_fork at_
    · exact absurd onward.live dead
    · rw [ih onward]

end Best

/-- None of the ways behind the next character leads to a match. -/
def DeadOnward (code : Array Instr) (s : Spot) (f : Front) : Prop :=
  ∀ c rest, s.rest = c :: rest → ∀ u ∈ f.onward, ¬ Live code u.place (s.step c rest)

/-- What a front makes of the preferred way, `n` steps from its end: it is accepted here, or it goes on behind
the next character with fewer steps left, and whatever comes before it there leads nowhere. -/
inductive Led (code : Array Instr) (stop : Spot) (final : List (Nat × Nat)) (start n : Nat) (s : Spot)
    (out : Front) : Prop where
  | here {u : Thread} (same : s = stop) (accepted : out.accepted = some u) (from_ : u.start = start)
      (marks : u.marks = final) (dead : DeadOnward code s out)
  | onward {c : Char} {rest : List Char} {k : Nat} {l r : List Thread} {t : Thread}
      (text : s.rest = c :: rest) (less : k < n) (split : out.onward.reverse = l ++ t :: r)
      (dead : ∀ u ∈ l, ¬ Live code u.place (s.step c rest))
      (best : Best code stop final k t.place (s.step c rest) t.marks) (from_ : t.start = start)

section Led

variable {code : Array Instr} {stop s : Spot} {final : List (Nat × Nat)} {start n : Nat} {t : Thread}
  {todo l r new : List Thread} {f g out : Front}

theorem Led.mono {k : Nat} (h : Led code stop final start k s out) (le : k ≤ n) :
    Led code stop final start n s out := by
  cases h with
  | here same accepted from_ marks dead => exact .here same accepted from_ marks dead
  | onward text less split dead best from_ => exact .onward text (Nat.lt_of_lt_of_le less le) split dead best from_

/-- The places that were visited before the preferred way comes to them are dead, or were visited by that way
itself, farther from its end. -/
def Passed (code : Array Instr) (s : Spot) (n : Nat) (f : Front) : Prop :=
  ∀ q, f.seen.testBit q → Live code q s → ∃ stop final m k, n < k ∧ Best code stop final k q s m

theorem Passed.fresh (h : Passed code s n f) {m : List (Nat × Nat)} {p : Nat}
    (best : Best code stop final n p s m) : f.seen.testBit p = false := by
  cases seen : f.seen.testBit p with
  | false => rfl
  | true =>
    obtain ⟨_, _, _, k, less, other⟩ := h p seen best.live
    have := best.length_eq other
    omega

/-- The preferred way passes a place itself. -/
theorem Passed.visit (h : Passed code s (n + 1) f) {m : List (Nat × Nat)} {p : Nat}
    (best : Best code stop final (n + 1) p s m) : Passed code s n (f.visit p) := by
  intro q seen live
  rw [visit_testBit, Bool.or_eq_true, decide_eq_true_eq] at seen
  rcases seen with seen | rfl
  · obtain ⟨stop', final', m', k, less, other⟩ := h q seen live
    exact ⟨stop', final', m', k, by omega, other⟩
  · exact ⟨stop, final, m, n + 1, Nat.lt_succ_self n, best⟩

/-- A way that leads nowhere changes nothing for the preferred one. -/
theorem Hopped.passed (h : Hopped code s t f new g) (dead : ¬ Live code t.place s)
    (passed : Passed code s n f) (onward : DeadOnward code s f) : Passed code s n g ∧ DeadOnward code s g := by
  obtain ⟨_, _, seen, added⟩ := h.of_dead dead
  refine ⟨?_, ?_⟩
  · intro q bit live
    rw [seen q live] at bit
    exact passed q bit live
  · intro c rest text u member
    rcases added with same | ⟨v, c', rest', eq, text', deadV⟩
    · rw [same] at member
      exact onward c rest text u member
    · rw [text] at text'
      cases text'
      rw [eq] at member
      rcases List.mem_cons.mp member with rfl | member
      · exact deadV
      · exact onward c rest text u member

/-- What a step makes of the preferred way when it comes to it: the way is accepted, goes on behind the next
character, or stays in front of what is still to be done, behind ways that lead nowhere. -/
inductive Took (code : Array Instr) (stop s : Spot) (final : List (Nat × Nat)) (n : Nat) (t : Thread) (f : Front) :
    List Thread → Front → Prop where
  | accepted (same : s = stop) (marks : t.marks = final) :
      Took code stop s final n t f [] { f.visit t.place with accepted := some t }
  | onward {k : Nat} {c : Char} {rest : List Char} {u : Thread} (text : s.rest = c :: rest) (less : k < n)
      (from_ : u.start = t.start) (best : Best code stop final k u.place (s.step c rest) u.marks) :
      Took code stop s final n t f [] { f.visit t.place with onward := u :: f.onward }
  | still {k : Nat} {l r : List Thread} {u : Thread} (less : n = k + 1) (dead : ∀ w ∈ l, ¬ Live code w.place s)
      (from_ : u.start = t.start) (best : Best code stop final k u.place s u.marks) :
      Took code stop s final n t f (l ++ u :: r) (f.visit t.place)

theorem Hopped.took (h : Hopped code s t f new g) (fresh : f.seen.testBit t.place = false)
    (best : Best code stop final n t.place s t.marks) : Took code stop s final n t f new g := by
  cases h with
  | idle cause =>
    rcases cause with seen | absent
    · rw [fresh] at seen
      cases seen
    · cases best.live <;> simp_all
  | missed _ at_ other =>
    obtain ⟨k, c, rest, _, text, mem, _⟩ := best.of_chars at_
    simp [text, mem] at other
  | failed _ at_ fails =>
    obtain ⟨k, _, holds, _⟩ := best.of_look at_
    exact absurd holds fails
  | accept _ at_ =>
    obtain ⟨_, same, marks⟩ := best.of_accept at_
    exact .accepted same marks
  | chars _ at_ text mem =>
    obtain ⟨k, c', rest', rfl, text', _, more⟩ := best.of_chars at_
    rw [text] at text'
    cases text'
    exact .onward text (Nat.lt_succ_self k) rfl more
  | look _ at_ =>
    obtain ⟨k, less, _, more⟩ := best.of_look at_
    exact .still (l := []) less (by simp) rfl more
  | mark _ at_ =>
    obtain ⟨k, less, more⟩ := best.of_mark at_
    exact .still (l := []) less (by simp) rfl more
  | @fork one two _ at_ =>
    obtain ⟨k, less, more | ⟨deadOne, more⟩⟩ := best.of_fork at_
    · exact .still (l := []) less (by simp) rfl more
    · refine .still (l := [{ t with place := one }]) less ?_ rfl more
      intro w member
      rw [List.mem_singleton.mp member]
      exact deadOne

/-- The list of ways is followed by induction. A dead way in front of the preferred one leaves only dead ways; the
preferred one itself comes to a place that was not passed, and takes a step. -/
theorem Follows.led (h : Follows code s todo f out) (open_ : f.accepted = none) (eq : todo = l ++ t :: r)
    (dead : ∀ u ∈ l, ¬ Live code u.place s) (best : Best code stop final n t.place s t.marks)
    (passed : Passed code s n f) (onward : DeadOnward code s f) : Led code stop final t.start n s out := by
  induction h generalizing l t r n with
  | done => simp at eq
  | @stop u todo f accepted =>
    have spec := hop_spec code s u f
    cases l with
    | cons v l =>
      obtain ⟨rfl, _⟩ := List.cons.inj eq
      obtain ⟨_, same, _⟩ := spec.of_dead (dead u (by simp))
      rw [same, open_] at accepted
      cases accepted
    | nil =>
      obtain ⟨rfl, rfl⟩ := List.cons.inj eq
      have took := spec.took (passed.fresh best) best
      generalize (hop code s u f).1 = new, (hop code s u f).2 = g at took accepted ⊢
      cases took with
      | accepted same marks => exact .here same rfl rfl marks onward
      | onward | still =>
        have found : f.accepted.isSome := accepted
        rw [open_] at found
        cases found
  | @next u todo f out still more ih =>
    have spec := hop_spec code s u f
    cases l with
    | cons v l =>
      obtain ⟨rfl, rfl⟩ := List.cons.inj eq
      have deadU := dead u (by simp)
      obtain ⟨deadNew, _⟩ := spec.of_dead deadU
      obtain ⟨passed', onward'⟩ := spec.passed deadU passed onward
      refine ih still (l := (hop code s u f).1 ++ l) (List.append_assoc _ _ _).symm ?_ best passed' onward'
      intro w member
      rcases List.mem_append.mp member with member | member
      · exact deadNew w member
      · exact dead w (by simp [member])
    | nil =>
      obtain ⟨rfl, rfl⟩ := List.cons.inj eq
      have took := spec.took (passed.fresh best) best
      generalize (hop code s u f).1 = new, (hop code s u f).2 = g at took still more ih
      cases took with
      | accepted => cases still
      | onward text less from_ best' =>
        -- Whatever comes later is less preferred.
        obtain ⟨extra, added⟩ := more.onward_extends
        refine .onward (l := f.onward.reverse) (r := extra.reverse) text less ?_ ?_ best' from_
        · rw [added]
          simp
        · intro w member
          exact onward _ _ text w (List.mem_reverse.mp member)
      | still less dead' from_ best' =>
        subst less
        have led := ih still (List.append_assoc _ _ _) dead' best' (passed.visit best) onward
        rw [from_] at led
        exact led.mono (Nat.le_succ _)

end Led

namespace Program

variable {p : Program}

/-- Following ways finds the end of the preferred one, if those before it lead nowhere. -/
theorem pursue_best {n pos : Nat} {before : Option Char} {rest : List Char} {threads l r : List Thread}
    {t : Thread} {best : Option Found} {stop : Spot} {final : List (Nat × Nat)}
    (few : threads.length ≤ p.code.size + 3) (eq : threads = l ++ t :: r)
    (dead : ∀ u ∈ l, ¬ Live p.code u.place ⟨pos, before, rest⟩)
    (preferred : Best p.code stop final n t.place ⟨pos, before, rest⟩ t.marks) :
    p.pursue threads best pos before rest = some ⟨t.start, stop, final⟩ := by
  induction rest generalizing threads l t r best n pos before with
  | nil =>
    have led := (frontAt_follows (s := ⟨pos, before, []⟩) few).led rfl eq dead preferred (by simp [Passed])
      (by simp [DeadOnward])
    cases led with
    | here same accepted from_ marks =>
      subst same
      simp only [pursue, settled, accepted, from_, marks]
    | onward text => cases text
  | cons c rest ih =>
    have led := (frontAt_follows (s := ⟨pos, before, c :: rest⟩) few).led rfl eq dead preferred (by simp [Passed])
      (by simp [DeadOnward])
    have bound := frontAt_onward_length (s := ⟨pos, before, c :: rest⟩) few
    rw [pursue]
    cases led with
    | here same accepted from_ marks deadOnward =>
      subst same
      simp only [settled, accepted, from_, marks]
      refine pursue_dead (by omega) ?_
      intro u member
      exact deadOnward c rest rfl u (List.mem_reverse.mp member)
    | onward text _ split deadPre more from_ =>
      cases text
      rw [← from_]
      exact ih (by omega) split deadPre more

theorem matchAt_best {n : Nat} {s stop : Spot} {final : List (Nat × Nat)}
    (preferred : Best p.code stop final n p.start s []) : p.matchAt s = some ⟨s.pos, stop, final⟩ :=
  pursue_best (t := ⟨p.start, s.pos, []⟩) (by simp) (List.nil_append _).symm (by simp) preferred

end Program

end Gloss.Regex

import Gloss.Proofs.Regex.Leftmost

/-!
What an expression matches, apart from preferences. The program of an expression leads from a spot to another
just when the expression matches the text between them.

Each way to put code in front of a program is compared with a relation between spots. The comparison is about
any code in which the block stands, so it holds at every place of a larger program.
-/
namespace Gloss.Regex

open Text (Spot)

/-- Offsets remembered under numbers, latest first. -/
abbrev Marks := List (Nat × Nat)

/-- A number of rounds of a relation, one after another. -/
def Rounds (R : Spot → Marks → Spot → Marks → Prop) : Nat → Spot → Marks → Spot → Marks → Prop
  | 0, s, m, t, m' => t = s ∧ m' = m
  | n + 1, s, m, t, m' => ∃ u mu, R s m u mu ∧ Rounds R n u mu t m'

/-- At least `lo` rounds of a relation, and at most `hi` if that is more. -/
def Repeats (R : Spot → Marks → Spot → Marks → Prop) (lo : Nat) (hi : Option Nat) (s : Spot) (m : Marks) (t : Spot)
    (m' : Marks) : Prop :=
  ∃ n, lo ≤ n ∧ (∀ most, hi = some most → n ≤ max lo most) ∧ Rounds R n s m t m'

/-- The expression matches the text from one spot to another, and remembers the offsets of its groups. -/
def Matches : Regex → Spot → Marks → Spot → Marks → Prop
  | .empty, s, m, t, m' => t = s ∧ m' = m
  | .text chars, s, m, t, m' => Spot.Reads s chars t ∧ m' = m
  | .set members, s, m, t, m' => ∃ c, members.mem c ∧ Spot.Reads s [c] t ∧ m' = m
  | .look a, s, m, t, m' => a.holds s ∧ t = s ∧ m' = m
  | .group i body, s, m, t, m' =>
    ∃ inner, body.Matches s ((2 * i, s.pos) :: m) t inner ∧ m' = (2 * i + 1, t.pos) :: inner
  | .times lo hi _ body, s, m, t, m' => Repeats body.Matches lo hi s m t m'
  | .seq a b, s, m, t, m' => ∃ u mu, a.Matches s m u mu ∧ b.Matches u mu t m'
  | .alt a b, s, m, t, m' => a.Matches s m t m' ∨ b.Matches s m t m'

theorem matches_times (lo : Nat) (hi : Option Nat) (greedy : Bool) (body : Regex) :
    Matches (.times lo hi greedy body) = Repeats body.Matches lo hi := rfl

section Rounds

variable {R : Spot → Marks → Spot → Marks → Prop} {n : Nat} {s t u : Spot} {m mt mu : Marks}

theorem Rounds.snoc (front : Rounds R n s m t mt) (last : R t mt u mu) : Rounds R (n + 1) s m u mu := by
  induction n generalizing s m with
  | zero =>
    obtain ⟨rfl, rfl⟩ := front
    exact ⟨u, mu, last, rfl, rfl⟩
  | succ n ih =>
    obtain ⟨v, mv, first, more⟩ := front
    exact ⟨v, mv, first, ih more⟩

theorem Rounds.snoc_inv (h : Rounds R (n + 1) s m u mu) :
    ∃ t mt, Rounds R n s m t mt ∧ R t mt u mu := by
  induction n generalizing s m with
  | zero =>
    obtain ⟨v, mv, first, rfl, rfl⟩ := h
    exact ⟨s, m, ⟨rfl, rfl⟩, first⟩
  | succ n ih =>
    obtain ⟨v, mv, first, more⟩ := h
    obtain ⟨t, mt, front, last⟩ := ih more
    exact ⟨t, mt, ⟨v, mv, first, front⟩, last⟩

theorem Rounds.append {k : Nat} (front : Rounds R n s m t mt) (back : Rounds R k t mt u mu) :
    Rounds R (n + k) s m u mu := by
  induction n generalizing s m with
  | zero =>
    obtain ⟨rfl, rfl⟩ := front
    simpa using back
  | succ n ih =>
    obtain ⟨v, mv, first, more⟩ := front
    rw [Nat.succ_add]
    exact ⟨v, mv, first, ih more⟩

theorem Rounds.split {k : Nat} (h : Rounds R (n + k) s m u mu) :
    ∃ t mt, Rounds R n s m t mt ∧ Rounds R k t mt u mu := by
  induction n generalizing s m with
  | zero => exact ⟨s, m, ⟨rfl, rfl⟩, by simpa using h⟩
  | succ n ih =>
    rw [Nat.succ_add] at h
    obtain ⟨v, mv, first, more⟩ := h
    obtain ⟨t, mt, front, back⟩ := ih more
    exact ⟨t, mt, ⟨v, mv, first, front⟩, back⟩

end Rounds

/-- Each round goes on in the text, so all of them do. -/
theorem Rounds.reads {R : Spot → Marks → Spot → Marks → Prop}
    (each : ∀ s m t mt, R s m t mt → ∃ w, Spot.Reads s w t) {n : Nat} {s t : Spot} {m mt : Marks}
    (h : Rounds R n s m t mt) : ∃ w, Spot.Reads s w t := by
  induction n generalizing s m with
  | zero =>
    obtain ⟨rfl, rfl⟩ := h
    exact ⟨[], Spot.Reads.refl t⟩
  | succ n ih =>
    obtain ⟨u, mu, first, more⟩ := h
    obtain ⟨v, readsV⟩ := each s m u mu first
    obtain ⟨w, readsW⟩ := ih more
    exact ⟨v ++ w, readsV.trans readsW⟩

/-- A match goes on in the text. -/
theorem Matches.reads {r : Regex} {s t : Spot} {m mt : Marks} (h : r.Matches s m t mt) :
    ∃ w, Spot.Reads s w t := by
  induction r generalizing s t m mt with
  | empty =>
    obtain ⟨rfl, _⟩ := h
    exact ⟨[], Spot.Reads.refl t⟩
  | text chars => exact ⟨chars, h.1⟩
  | set members =>
    obtain ⟨c, _, reads, _⟩ := h
    exact ⟨[c], reads⟩
  | look a =>
    obtain ⟨_, rfl, _⟩ := h
    exact ⟨[], Spot.Reads.refl t⟩
  | group i body ih =>
    obtain ⟨inner, matched, _⟩ := h
    exact ih matched
  | times lo hi greedy body ih =>
    obtain ⟨n, _, _, rounds⟩ := h
    exact rounds.reads fun s m t mt => ih
  | seq a b ihA ihB =>
    obtain ⟨u, mu, first, second⟩ := h
    obtain ⟨v, readsV⟩ := ihA first
    obtain ⟨w, readsW⟩ := ihB second
    exact ⟨v ++ w, readsV.trans readsW⟩
  | alt a b ihA ihB =>
    rcases h with matched | matched
    · exact ihA matched
    · exact ihB matched

theorem CharSet.mem_single {c d : Char} : (single d).mem c ↔ c = d := by
  simp only [mem, single, range, Unicode.RangeTable.holds]
  constructor
  · intro h
    exact Char.ext (UInt32.toNat_inj.mp (by simp_all; omega))
  · rintro rfl
    simp

namespace Program

/-- The code of the second program is that of the first with more behind it. -/
structure Grows (p q : Program) : Prop where
  size : p.code.size ≤ q.code.size
  keeps : ∀ i, i < p.code.size → q.code[i]? = p.code[i]?

theorem Grows.refl (p : Program) : Grows p p := ⟨Nat.le_refl _, fun _ _ => rfl⟩

theorem Grows.trans {p q r : Program} (first : Grows p q) (second : Grows q r) : Grows p r := by
  refine ⟨Nat.le_trans first.size second.size, ?_⟩
  intro i lt
  rw [second.keeps i (Nat.lt_of_lt_of_le lt first.size), first.keeps i lt]

/-- Code that holds what a program has from an index on. -/
def Holds (code : Array Instr) (base : Nat) (p : Program) : Prop :=
  ∀ i, base ≤ i → i < p.code.size → code[i]? = p.code[i]?

theorem Holds.mono {code : Array Instr} {base base' : Nat} {p : Program} (h : Holds code base p)
    (le : base ≤ base') : Holds code base' p :=
  fun i above lt => h i (Nat.le_trans le above) lt

/-- Code that holds a larger program holds the smaller one. -/
theorem Holds.of_grows {code : Array Instr} {base : Nat} {p q : Program} (h : Holds code base q)
    (grows : Grows p q) : Holds code base p := by
  intro i above lt
  rw [h i above (Nat.lt_of_lt_of_le lt grows.size), grows.keeps i lt]

/-- What is put in front of a program leads on to its start, by the text of a relation. -/
structure Realizes (put : Program → Program) (R : Spot → Marks → Spot → Marks → Prop) : Prop where
  grows : ∀ p, Grows p (put p)
  sound : ∀ {p code stop final n s m}, Holds code p.code.size (put p) →
    Ends code stop final n (put p).start s m →
    ∃ k ≤ n, ∃ t mt, R s m t mt ∧ Ends code stop final k p.start t mt
  complete : ∀ {p code stop final k s m t mt}, Holds code p.code.size (put p) → R s m t mt →
    Ends code stop final k p.start t mt → ∃ n, Ends code stop final n (put p).start s m

section Realizes

variable {A B : Program → Program} {R S : Spot → Marks → Spot → Marks → Prop}

theorem Realizes.congr (h : Realizes A R) (same : ∀ s m t mt, R s m t mt ↔ S s m t mt) : Realizes A S := by
  refine ⟨h.grows, ?_, ?_⟩
  · intro p code stop final n s m holds ends
    obtain ⟨k, le, t, mt, rel, more⟩ := h.sound holds ends
    exact ⟨k, le, t, mt, (same s m t mt).mp rel, more⟩
  · intro p code stop final k s m t mt holds rel ends
    exact h.complete holds ((same s m t mt).mpr rel) ends

theorem realizes_id : Realizes (fun p => p) (fun s m t mt => t = s ∧ mt = m) := by
  refine ⟨Grows.refl, ?_, ?_⟩
  · intro p code stop final n s m _ ends
    exact ⟨n, Nat.le_refl n, s, m, ⟨rfl, rfl⟩, ends⟩
  · rintro p code stop final k s m t mt _ ⟨rfl, rfl⟩ ends
    exact ⟨k, ends⟩

theorem Realizes.comp (first : Realizes A R) (second : Realizes B S) :
    Realizes (fun p => A (B p)) (fun s m t mt => ∃ u mu, R s m u mu ∧ S u mu t mt) := by
  refine ⟨fun p => (second.grows p).trans (first.grows (B p)), ?_, ?_⟩
  · intro p code stop final n s m holds ends
    obtain ⟨j, leJ, u, mu, rel, ends⟩ := first.sound (holds.mono (second.grows p).size) ends
    obtain ⟨k, leK, t, mt, rel', ends⟩ := second.sound (holds.of_grows (first.grows _)) ends
    exact ⟨k, Nat.le_trans leK leJ, t, mt, ⟨u, mu, rel, rel'⟩, ends⟩
  · rintro p code stop final k s m t mt holds ⟨u, mu, rel, rel'⟩ ends
    obtain ⟨j, ends⟩ := second.complete (holds.of_grows (first.grows _)) rel' ends
    exact first.complete (holds.mono (second.grows p).size) rel ends

theorem put_grows (p : Program) (f : Nat → Instr) : Grows p (p.put f) := by
  refine ⟨by simp [put], ?_⟩
  intro i lt
  simp [put, Array.getElem?_push, Nat.ne_of_lt lt]

theorem Holds.put {code : Array Instr} {base : Nat} {p : Program} {f : Nat → Instr}
    (h : Holds code base (p.put f)) (le : base ≤ p.code.size) :
    code[(p.put f).start]? = some (f p.start) := by
  have here := h p.code.size le (by simp [Program.put])
  simpa [Program.put] using here

/-- One instruction that leads on in one way. -/
theorem realizes_put {f : Nat → Instr} (sound : ∀ {code : Array Instr} {p next stop final n s m},
      code[p]? = some (f next) → Ends code stop final n p s m →
      ∃ k ≤ n, ∃ t mt, R s m t mt ∧ Ends code stop final k next t mt)
    (complete : ∀ {code : Array Instr} {p next stop final k s m t mt}, code[p]? = some (f next) →
      R s m t mt → Ends code stop final k next t mt → Ends code stop final (k + 1) p s m) :
    Realizes (fun p => p.put f) R := by
  refine ⟨fun p => put_grows p f, ?_, ?_⟩
  · intro p code stop final n s m holds ends
    exact sound (holds.put (Nat.le_refl _)) ends
  · intro p code stop final k s m t mt holds rel ends
    exact ⟨k + 1, complete (holds.put (Nat.le_refl _)) rel ends⟩

theorem realizes_chars (members : CharSet) :
    Realizes (fun p => p.put (.chars members)) (Matches (.set members)) := by
  refine realizes_put ?_ ?_
  · intro code p next stop final n s m at_ ends
    cases ends with
    | @chars n _ _ _ _ _ c rest at' text mem onward =>
      rw [at_] at at'
      cases at'
      exact ⟨n, Nat.le_succ n, _, m, ⟨c, mem, Spot.Reads.step text, rfl⟩, onward⟩
    | accept at' | look at' | mark at' | first at' | second at' =>
      rw [at_] at at'
      cases at'
  · rintro code p next stop final k s m t mt at_ ⟨c, mem, reads, rfl⟩ ends
    obtain ⟨rest, text, more⟩ := reads.cons_inv
    rw [more.eq_of_nil] at ends
    exact .chars at_ text mem ends

theorem realizes_look (a : Assertion) : Realizes (fun p => p.put (.look a)) (Matches (.look a)) := by
  refine realizes_put ?_ ?_
  · intro code p next stop final n s m at_ ends
    cases ends with
    | @look n _ _ _ _ _ at' holds onward =>
      rw [at_] at at'
      cases at'
      exact ⟨n, Nat.le_succ n, s, m, ⟨holds, rfl, rfl⟩, onward⟩
    | accept at' | chars at' | mark at' | first at' | second at' =>
      rw [at_] at at'
      cases at'
  · rintro code p next stop final k s m t mt at_ ⟨holds, rfl, rfl⟩ ends
    exact .look at_ holds ends

theorem realizes_mark (slot : Nat) :
    Realizes (fun p => p.put (.mark slot)) (fun s m t mt => t = s ∧ mt = (slot, s.pos) :: m) := by
  refine realizes_put ?_ ?_
  · intro code p next stop final n s m at_ ends
    cases ends with
    | @mark n _ _ _ _ _ at' onward =>
      rw [at_] at at'
      cases at'
      exact ⟨n, Nat.le_succ n, s, _, ⟨rfl, rfl⟩, onward⟩
    | accept at' | chars at' | look at' | first at' | second at' =>
      rw [at_] at at'
      cases at'
  · rintro code p next stop final k s m t mt at_ ⟨rfl, rfl⟩ ends
    exact .mark at_ ends

/-- A choice leads on at one of two places. -/
theorem ends_fork {code : Array Instr} {p one two n : Nat} {stop s : Spot} {final m : Marks}
    (at_ : code[p]? = some (.fork one two)) (ends : Ends code stop final n p s m) :
    ∃ k, k + 1 = n ∧ (Ends code stop final k one s m ∨ Ends code stop final k two s m) := by
  cases ends with
  | @first n _ _ _ _ _ at' onward =>
    rw [at_] at at'
    cases at'
    exact ⟨n, rfl, .inl onward⟩
  | @second n _ _ _ _ _ at' onward =>
    rw [at_] at at'
    cases at'
    exact ⟨n, rfl, .inr onward⟩
  | accept at' | chars at' | look at' | mark at' =>
    rw [at_] at at'
    cases at'

/-- A choice between two places, in one order of preference or the other. -/
def Forks (code : Array Instr) (p one two : Nat) : Prop :=
  code[p]? = some (.fork one two) ∨ code[p]? = some (.fork two one)

theorem Forks.sound {code : Array Instr} {p one two n : Nat} {stop s : Spot} {final m : Marks}
    (h : Forks code p one two) (ends : Ends code stop final n p s m) :
    ∃ k, k + 1 = n ∧ (Ends code stop final k one s m ∨ Ends code stop final k two s m) := by
  rcases h with at_ | at_
  · exact ends_fork at_ ends
  · obtain ⟨k, eq, cases_⟩ := ends_fork at_ ends
    exact ⟨k, eq, cases_.symm⟩

theorem Forks.left {code : Array Instr} {p one two n : Nat} {stop s : Spot} {final m : Marks}
    (h : Forks code p one two) (ends : Ends code stop final n one s m) :
    Ends code stop final (n + 1) p s m := by
  rcases h with at_ | at_
  · exact .first at_ ends
  · exact .second at_ ends

theorem Forks.right {code : Array Instr} {p one two n : Nat} {stop s : Spot} {final m : Marks}
    (h : Forks code p one two) (ends : Ends code stop final n two s m) :
    Ends code stop final (n + 1) p s m :=
  Forks.left h.symm ends

/-- A choice in which the first place is preferred if it is greedy. -/
def Turns (code : Array Instr) (greedy : Bool) (p one two : Nat) : Prop :=
  code[p]? = some (if greedy then .fork one two else .fork two one)

theorem Turns.forks {code : Array Instr} {greedy : Bool} {p one two : Nat} (h : Turns code greedy p one two) :
    Forks code p one two := by
  cases greedy with
  | true => exact .inl h
  | false => exact .inr h

theorem Holds.turn {code : Array Instr} {base exit : Nat} {p : Program} {greedy : Bool}
    (h : Holds code base (p.putFork greedy exit)) (le : base ≤ p.code.size) :
    Turns code greedy (p.putFork greedy exit).start p.start exit :=
  Holds.put h le

theorem Holds.putFork {code : Array Instr} {base exit : Nat} {p : Program} {greedy : Bool}
    (h : Holds code base (p.putFork greedy exit)) (le : base ≤ p.code.size) :
    Forks code (p.putFork greedy exit).start p.start exit :=
  (h.turn le).forks

theorem putFork_grows (p : Program) (greedy : Bool) (exit : Nat) : Grows p (p.putFork greedy exit) :=
  put_grows p _

theorem realizes_times (h : Realizes A R) (n : Nat) : Realizes (putTimes A n) (Rounds R n) := by
  induction n with
  | zero => exact realizes_id
  | succ n ih =>
    refine (ih.comp h).congr ?_
    intro s m t mt
    constructor
    · rintro ⟨u, mu, front, last⟩
      exact front.snoc last
    · exact Rounds.snoc_inv

theorem putOptional_grows (h : Realizes A R) (greedy : Bool) (exit n : Nat) (p : Program) :
    Grows p (putOptional A greedy exit n p) := by
  induction n generalizing p with
  | zero => exact Grows.refl p
  | succ n ih => exact ((h.grows p).trans (putFork_grows _ greedy exit)).trans (ih _)

/-- Rounds that can be left out end at the exit, and after all of them at the start of the program. -/
theorem putOptional_sound (h : Realizes A R) {greedy : Bool} {exit n k : Nat} {p : Program}
    {code : Array Instr} {stop s : Spot} {final m : Marks}
    (holds : Holds code p.code.size (putOptional A greedy exit n p))
    (ends : Ends code stop final k (putOptional A greedy exit n p).start s m) :
    ∃ i ≤ k, ∃ j ≤ n, ∃ t mt, Rounds R j s m t mt ∧
      (Ends code stop final i exit t mt ∨ (j = n ∧ Ends code stop final i p.start t mt)) := by
  induction n generalizing p with
  | zero => exact ⟨k, Nat.le_refl k, 0, Nat.le_refl 0, s, m, ⟨rfl, rfl⟩, .inr ⟨rfl, ends⟩⟩
  | succ n ih =>
    have growsBody := h.grows p
    have growsFork := putFork_grows (A p) greedy exit
    have growsRest := putOptional_grows h greedy exit n ((A p).putFork greedy exit)
    obtain ⟨i, leI, j, leJ, t, mt, rounds, behind⟩ :=
      ih (holds.mono (growsBody.trans growsFork).size) ends
    rcases behind with atExit | ⟨rfl, atStart⟩
    · exact ⟨i, leI, j, by omega, t, mt, rounds, .inl atExit⟩
    · have fork := Holds.putFork (holds.of_grows growsRest) growsBody.size
      obtain ⟨i', eq, inside | atExit⟩ := fork.sound atStart
      · obtain ⟨i'', le, u, mu, rel, ends⟩ :=
          h.sound (holds.of_grows (growsFork.trans growsRest)) inside
        exact ⟨i'', by omega, j + 1, Nat.le_refl _, u, mu, rounds.snoc rel, .inr ⟨rfl, ends⟩⟩
      · exact ⟨i', by omega, j, by omega, t, mt, rounds, .inl atExit⟩

theorem putOptional_complete (h : Realizes A R) {greedy : Bool} {exit n j k : Nat} {p : Program}
    {code : Array Instr} {stop s t : Spot} {final m mt : Marks}
    (holds : Holds code p.code.size (putOptional A greedy exit n p)) (le : j ≤ n)
    (rounds : Rounds R j s m t mt) (early : j < n → Ends code stop final k exit t mt)
    (late : j = n → Ends code stop final k p.start t mt) :
    ∃ i, Ends code stop final i (putOptional A greedy exit n p).start s m := by
  induction n generalizing p j k t mt with
  | zero =>
    obtain rfl : j = 0 := by omega
    obtain ⟨rfl, rfl⟩ := rounds
    exact ⟨k, late rfl⟩
  | succ n ih =>
    have growsBody := h.grows p
    have growsFork := putFork_grows (A p) greedy exit
    have growsRest := putOptional_grows h greedy exit n ((A p).putFork greedy exit)
    have fork := Holds.putFork (holds.of_grows growsRest) growsBody.size
    have holds' := holds.mono (growsBody.trans growsFork).size
    by_cases all : j = n + 1
    · subst all
      obtain ⟨u, mu, front, last⟩ := rounds.snoc_inv
      obtain ⟨i, ends⟩ := h.complete (holds.of_grows (growsFork.trans growsRest)) last (late rfl)
      exact ih holds' (Nat.le_refl n) front (by omega) (fun _ => fork.left ends)
    · have ends := early (by omega)
      by_cases last : j = n
      · exact ih holds' (by omega) rounds (by omega) (fun _ => fork.right ends)
      · exact ih holds' (by omega) rounds (fun _ => ends) (by omega)

theorem realizes_optional (h : Realizes A R) (greedy : Bool) (n : Nat) :
    Realizes (fun p => putOptional A greedy p.start n p)
      (fun s m t mt => ∃ j ≤ n, Rounds R j s m t mt) := by
  refine ⟨fun p => putOptional_grows h greedy p.start n p, ?_, ?_⟩
  · intro p code stop final k s m holds ends
    obtain ⟨i, leI, j, leJ, t, mt, rounds, behind⟩ := putOptional_sound h holds ends
    rcases behind with ends | ⟨_, ends⟩ <;> exact ⟨i, leI, t, mt, ⟨j, leJ, rounds⟩, ends⟩
  · rintro p code stop final k s m t mt holds ⟨j, le, rounds⟩ ends
    exact putOptional_complete h holds le rounds (fun _ => ends) (fun _ => ends)

/-- The program before the body of a loop is put in front of it. -/
def loopBase (p : Program) : Program := ⟨p.code.push .accept, p.code.size⟩

theorem putLoop_start (greedy : Bool) (p : Program) : (putLoop A greedy p).start = (A p.loopBase).start :=
  rfl

theorem putLoop_size (greedy : Bool) (p : Program) :
    (putLoop A greedy p).code.size = (A p.loopBase).code.size := by
  simp [putLoop, loopBase]

theorem putLoop_other {greedy : Bool} {p : Program} {i : Nat} (ne : i ≠ p.code.size) :
    (putLoop A greedy p).code[i]? = (A p.loopBase).code[i]? := by
  simp only [putLoop, loopBase]
  rw [Array.getElem?_setIfInBounds_ne (fun eq => ne eq.symm)]

theorem putLoop_grows (h : Realizes A R) (greedy : Bool) (p : Program) : Grows p (putLoop A greedy p) := by
  have grows := h.grows p.loopBase
  refine ⟨?_, ?_⟩
  · have := grows.size
    simp only [loopBase, Array.size_push] at this
    rw [putLoop_size]
    simp only [loopBase]
    omega
  · intro i lt
    have base : i < p.loopBase.code.size := by
      simp only [loopBase, Array.size_push]
      omega
    rw [putLoop_other (Nat.ne_of_lt lt), grows.keeps i base]
    simp [loopBase, Array.getElem?_push, Nat.ne_of_lt lt]

/-- Code that holds a loop holds its body, and the choice behind the body. -/
theorem Holds.putLoop {code : Array Instr} {greedy : Bool} {p : Program} (h : Realizes A R)
    (holds : Holds code p.code.size (putLoop A greedy p)) :
    Holds code p.loopBase.code.size (A p.loopBase) ∧
      Turns code greedy p.code.size (A p.loopBase).start p.start := by
  have grows := h.grows p.loopBase
  have bound : p.code.size < (A p.loopBase).code.size := by
    have := grows.size
    simp only [loopBase, Array.size_push] at this
    simp only [loopBase]
    omega
  refine ⟨?_, ?_⟩
  · intro i above lt
    simp only [loopBase, Array.size_push] at above
    rw [holds i (by omega) (by rw [putLoop_size]; exact lt), putLoop_other (by omega)]
  · have here := holds p.code.size (Nat.le_refl _) (by rw [putLoop_size]; exact bound)
    have turn : (Program.putLoop A greedy p).code[p.code.size]? =
        some (if greedy then .fork (A p.loopBase).start p.start
          else .fork p.start (A p.loopBase).start) := by
      simp only [Program.putLoop]
      exact Array.getElem?_setIfInBounds_self_of_lt bound
    rw [turn] at here
    exact here

/-- A loop passes its body once or more often. -/
theorem putLoop_sound (h : Realizes A R) {greedy : Bool} {n : Nat} {p : Program} {code : Array Instr}
    {stop s : Spot} {final m : Marks} (holds : Holds code p.code.size (putLoop A greedy p))
    (ends : Ends code stop final n (putLoop A greedy p).start s m) :
    ∃ k ≤ n, ∃ j t mt, Rounds R (j + 1) s m t mt ∧ Ends code stop final k p.start t mt := by
  obtain ⟨body, fork⟩ := Holds.putLoop h holds
  rw [putLoop_start] at ends
  induction n using Nat.strongRecOn generalizing s m with
  | _ n ih =>
    obtain ⟨k, le, t, mt, rel, more⟩ := h.sound body ends
    obtain ⟨k', eq, again | leave⟩ := fork.forks.sound more
    · obtain ⟨i, leI, j, u, mu, rounds, ends⟩ := ih k' (by omega) again
      exact ⟨i, by omega, j + 1, u, mu, ⟨t, mt, rel, rounds⟩, ends⟩
    · exact ⟨k', by omega, 0, t, mt, ⟨t, mt, rel, rfl, rfl⟩, leave⟩

theorem putLoop_complete (h : Realizes A R) {greedy : Bool} {j k : Nat} {p : Program} {code : Array Instr}
    {stop s t : Spot} {final m mt : Marks} (holds : Holds code p.code.size (putLoop A greedy p))
    (rounds : Rounds R (j + 1) s m t mt) (ends : Ends code stop final k p.start t mt) :
    ∃ n, Ends code stop final n (putLoop A greedy p).start s m := by
  obtain ⟨body, fork⟩ := Holds.putLoop h holds
  rw [putLoop_start]
  induction j generalizing s m with
  | zero =>
    obtain ⟨u, mu, rel, rfl, rfl⟩ := rounds
    exact h.complete body rel (fork.forks.right ends)
  | succ j ih =>
    obtain ⟨u, mu, rel, more⟩ := rounds
    obtain ⟨n, again⟩ := ih more
    exact h.complete body rel (fork.forks.left again)

theorem realizes_loop (h : Realizes A R) (greedy : Bool) :
    Realizes (putLoop A greedy) (fun s m t mt => ∃ j, Rounds R (j + 1) s m t mt) := by
  refine ⟨putLoop_grows h greedy, ?_, ?_⟩
  · intro p code stop final n s m holds ends
    obtain ⟨k, le, j, t, mt, rounds, more⟩ := putLoop_sound h holds ends
    exact ⟨k, le, t, mt, ⟨j, rounds⟩, more⟩
  · rintro p code stop final k s m t mt holds ⟨j, rounds⟩ ends
    exact putLoop_complete h holds rounds ends

/-- A loop that is entered at its choice may leave the body out. -/
theorem realizes_star (h : Realizes A R) (greedy : Bool) :
    Realizes (putStar A greedy) (fun s m t mt => ∃ j, Rounds R j s m t mt) := by
  have loops : ∀ {p code}, Holds code p.code.size (putStar A greedy p) →
      Holds code p.code.size (putLoop A greedy p) := fun holds => holds
  have grows := putLoop_grows h greedy
  refine ⟨fun p => ⟨(grows p).size, (grows p).keeps⟩, ?_, ?_⟩
  · intro p code stop final n s m holds ends
    obtain ⟨_, fork⟩ := Holds.putLoop h (loops holds)
    obtain ⟨n', eq, enter | leave⟩ := fork.forks.sound ends
    · obtain ⟨k, le, j, t, mt, rounds, more⟩ := putLoop_sound h (loops holds) enter
      exact ⟨k, by omega, t, mt, ⟨j + 1, rounds⟩, more⟩
    · exact ⟨n', by omega, s, m, ⟨0, rfl, rfl⟩, leave⟩
  · rintro p code stop final k s m t mt holds ⟨j, rounds⟩ ends
    obtain ⟨_, fork⟩ := Holds.putLoop h (loops holds)
    cases j with
    | zero =>
      obtain ⟨rfl, rfl⟩ := rounds
      exact ⟨k + 1, fork.forks.right ends⟩
    | succ j =>
      obtain ⟨n, enter⟩ := putLoop_complete h (loops holds) rounds ends
      exact ⟨n + 1, fork.forks.left enter⟩

/-- A choice in front of a loop that leads past it. -/
theorem realizes_forkedLoop (h : Realizes A R) (greedy : Bool) :
    Realizes (fun p => (putLoop A greedy p).putFork greedy p.start)
      (fun s m t mt => ∃ j, Rounds R j s m t mt) := by
  refine ⟨fun p => (putLoop_grows h greedy p).trans (putFork_grows _ _ _), ?_, ?_⟩
  · intro p code stop final n s m holds ends
    have fork := Holds.putFork holds (putLoop_grows h greedy p).size
    obtain ⟨n', eq, enter | leave⟩ := fork.sound ends
    · obtain ⟨k, le, j, t, mt, rounds, more⟩ :=
        putLoop_sound h (holds.of_grows (putFork_grows _ _ _)) enter
      exact ⟨k, by omega, t, mt, ⟨j + 1, rounds⟩, more⟩
    · exact ⟨n', by omega, s, m, ⟨0, rfl, rfl⟩, leave⟩
  · rintro p code stop final k s m t mt holds ⟨j, rounds⟩ ends
    have fork := Holds.putFork holds (putLoop_grows h greedy p).size
    cases j with
    | zero =>
      obtain ⟨rfl, rfl⟩ := rounds
      exact ⟨k + 1, fork.right ends⟩
    | succ j =>
      obtain ⟨n, enter⟩ := putLoop_complete h (holds.of_grows (putFork_grows _ _ _)) rounds ends
      exact ⟨n + 1, fork.left enter⟩

/-- Rounds of which some can be left out. -/
theorem realizes_bounded (h : Realizes A R) (greedy : Bool) (lo most : Nat) :
    Realizes (fun p => putTimes A lo (putOptional A greedy p.start (most - lo) p)) (Repeats R lo (some most)) := by
  refine ((realizes_times h lo).comp (realizes_optional h greedy (most - lo))).congr ?_
  intro s m t mt
  constructor
  · rintro ⟨u, mu, front, j, le, back⟩
    exact ⟨lo + j, by omega, by simp only [Option.some.injEq, forall_eq']; omega, front.append back⟩
  · rintro ⟨n, low, high, rounds⟩
    have := high most rfl
    obtain ⟨j, rfl⟩ := Nat.exists_eq_add_of_le low
    obtain ⟨u, mu, front, back⟩ := rounds.split
    exact ⟨u, mu, front, j, by omega, back⟩

theorem repeats_zero {s t : Spot} {m mt : Marks} : Repeats R 0 none s m t mt ↔ ∃ j, Rounds R j s m t mt := by
  constructor
  · rintro ⟨j, _, _, rounds⟩
    exact ⟨j, rounds⟩
  · rintro ⟨j, rounds⟩
    exact ⟨j, Nat.zero_le j, by simp, rounds⟩

/-- Rounds without end, behind some that cannot be left out. -/
theorem realizes_unbounded (h : Realizes A R) (greedy : Bool) (lo : Nat) :
    Realizes (fun p => putTimes A lo (putLoop A greedy p)) (Repeats R (lo + 1) none) := by
  refine ((realizes_times h lo).comp (realizes_loop h greedy)).congr ?_
  intro s m t mt
  constructor
  · rintro ⟨u, mu, front, j, back⟩
    exact ⟨lo + (j + 1), by omega, by simp, front.append back⟩
  · rintro ⟨n, low, _, rounds⟩
    obtain ⟨j, rfl⟩ := Nat.exists_eq_add_of_le low
    rw [show lo + 1 + j = lo + (j + 1) by omega] at rounds
    obtain ⟨u, mu, front, back⟩ := rounds.split
    exact ⟨u, mu, front, j, back⟩

theorem realizes_alt (first : Realizes A R) (second : Realizes B S) :
    Realizes (fun p => (A ⟨(B p).code, p.start⟩).putFork true (B p).start)
      (fun s m t mt => R s m t mt ∨ S s m t mt) := by
  have growsFirst : ∀ p, Grows (B p) (A ⟨(B p).code, p.start⟩) := by
    intro p
    have grows := first.grows ⟨(B p).code, p.start⟩
    exact ⟨grows.size, grows.keeps⟩
  have growsFork : ∀ p, Grows (A ⟨(B p).code, p.start⟩)
      ((A ⟨(B p).code, p.start⟩).putFork true (B p).start) := fun p => putFork_grows _ _ _
  refine ⟨fun p => ((second.grows p).trans (growsFirst p)).trans (growsFork p), ?_, ?_⟩
  · intro p code stop final n s m holds ends
    have fork := Holds.putFork holds ((second.grows p).trans (growsFirst p)).size
    obtain ⟨n', eq, left | right⟩ := fork.sound ends
    · have block := (holds.of_grows (growsFork p)).mono (second.grows p).size
      obtain ⟨k, le, t, mt, rel, more⟩ := first.sound block left
      exact ⟨k, by omega, t, mt, .inl rel, more⟩
    · have block := holds.of_grows ((growsFirst p).trans (growsFork p))
      obtain ⟨k, le, t, mt, rel, more⟩ := second.sound block right
      exact ⟨k, by omega, t, mt, .inr rel, more⟩
  · rintro p code stop final k s m t mt holds (rel | rel) ends
    · have fork := Holds.putFork holds ((second.grows p).trans (growsFirst p)).size
      have block := (holds.of_grows (growsFork p)).mono (second.grows p).size
      obtain ⟨n, left⟩ := first.complete (p := ⟨(B p).code, p.start⟩) block rel ends
      exact ⟨n + 1, fork.left left⟩
    · have fork := Holds.putFork holds ((second.grows p).trans (growsFirst p)).size
      have block := holds.of_grows ((growsFirst p).trans (growsFork p))
      obtain ⟨n, right⟩ := second.complete block rel ends
      exact ⟨n + 1, fork.right right⟩

theorem realizes_text (chars : List Char) :
    Realizes (fun p => chars.foldr (fun c p => p.put (.chars (.single c))) p) (Matches (.text chars)) := by
  induction chars with
  | nil =>
    refine realizes_id.congr ?_
    intro s m t mt
    constructor
    · rintro ⟨rfl, rfl⟩
      exact ⟨Spot.Reads.refl t, rfl⟩
    · rintro ⟨reads, rfl⟩
      exact ⟨reads.eq_of_nil, rfl⟩
  | cons c chars ih =>
    refine ((realizes_chars (.single c)).comp ih).congr ?_
    intro s m t mt
    constructor
    · rintro ⟨u, mu, ⟨d, mem, first, rfl⟩, more, rfl⟩
      obtain rfl : d = c := CharSet.mem_single.mp mem
      exact ⟨first.trans more, rfl⟩
    · rintro ⟨reads, rfl⟩
      obtain ⟨u, first, more⟩ := Spot.Reads.split (a := [c]) reads
      exact ⟨u, mt, ⟨c, CharSet.mem_single.mpr rfl, first, rfl⟩, more, rfl⟩

end Realizes

end Program

open Program in
/-- The code of an expression leads on by the text that the expression matches. -/
theorem assemble_realizes (r : Regex) : Realizes r.assemble r.Matches := by
  induction r with
  | empty => exact realizes_id
  | text chars => exact realizes_text chars
  | set members => exact realizes_chars members
  | look a => exact realizes_look a
  | group i body ih =>
    refine ((realizes_mark (2 * i)).comp (ih.comp (realizes_mark (2 * i + 1)))).congr ?_
    intro s m t mt
    constructor
    · rintro ⟨u, mu, ⟨rfl, rfl⟩, v, mv, inner, rfl, rfl⟩
      exact ⟨mv, inner, rfl⟩
    · rintro ⟨inner, body, rfl⟩
      exact ⟨s, _, ⟨rfl, rfl⟩, t, inner, body, rfl, rfl⟩
  | seq a b ihA ihB => exact ihA.comp ihB
  | alt a b ihA ihB => exact realizes_alt ihA ihB
  | times lo hi greedy body ih =>
    cases hi with
    | some most => exact realizes_bounded ih greedy lo most
    | none =>
      cases lo with
      | zero =>
        by_cases consumes : body.consumes
        · simpa only [assemble, consumes, if_true, matches_times] using
            (realizes_star ih greedy).congr fun _ _ _ _ => repeats_zero.symm
        · simpa only [assemble, consumes, Bool.false_eq_true, if_false, matches_times] using
            (realizes_forkedLoop ih greedy).congr fun _ _ _ _ => repeats_zero.symm
      | succ lo => exact realizes_unbounded ih greedy lo

/-- The program of an expression leads to the end of the matches of the expression. -/
theorem program_ends {r : Regex} {s stop : Spot} {m final : Marks} :
    (∃ n, Ends r.program.code stop final n r.program.start s m) ↔ r.Matches s m stop final := by
  have realizes := r.assemble_realizes
  have holds : Program.Holds r.program.code 1 r.program := fun _ _ _ => rfl
  have last : r.program.code[0]? = some .accept := by
    rw [program, (realizes.grows ⟨#[.accept], 0⟩).keeps 0 (by simp)]
    rfl
  constructor
  · rintro ⟨n, ends⟩
    obtain ⟨k, _, t, mt, matched, atEnd⟩ := realizes.sound (p := ⟨#[.accept], 0⟩) holds ends
    cases atEnd with
    | accept => exact matched
    | chars at' | look at' | mark at' | first at' | second at' =>
      rw [last] at at'
      cases at'
  · intro matched
    exact realizes.complete (p := ⟨#[.accept], 0⟩) holds matched (.accept last)

theorem program_live {r : Regex} {s : Spot} :
    Live r.program.code r.program.start s ↔ ∃ stop final, r.Matches s [] stop final := by
  constructor
  · intro live
    obtain ⟨stop, final, n, ends⟩ := live.ends []
    exact ⟨stop, final, program_ends.mp ⟨n, ends⟩⟩
  · rintro ⟨stop, final, matched⟩
    obtain ⟨n, ends⟩ := program_ends.mpr matched
    exact ends.live

end Gloss.Regex

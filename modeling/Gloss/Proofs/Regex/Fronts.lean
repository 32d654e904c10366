import Gloss.Regex.Search

/-!
What one front of a search leads to. Following the ways of a list visits every instruction at most once, in
order of preference. Three facts are all that later arguments use: ways from which no match can be reached
change nothing, ways that are less preferred change nothing for those before them, and if a match can be
reached from some way of the list, then it can be reached from the front.
-/
namespace Gloss.Regex

open Text (Spot)

/-- A match can be reached from the instruction at a place, before the text at a spot. -/
inductive Live (code : Array Instr) : Nat → Spot → Prop where
  | accept {p : Nat} {s : Spot} (at_ : code[p]? = some .accept) : Live code p s
  | chars {p next : Nat} {s : Spot} {members : CharSet} {c : Char} {rest : List Char}
      (at_ : code[p]? = some (.chars members next)) (text : s.rest = c :: rest)
      (mem : members.mem c) (onward : Live code next (s.step c rest)) : Live code p s
  | look {p next : Nat} {s : Spot} {a : Assertion} (at_ : code[p]? = some (.look a next))
      (holds : a.holds s) (onward : Live code next s) : Live code p s
  | mark {p next slot : Nat} {s : Spot} (at_ : code[p]? = some (.mark slot next))
      (onward : Live code next s) : Live code p s
  | first {p one two : Nat} {s : Spot} (at_ : code[p]? = some (.fork one two))
      (onward : Live code one s) : Live code p s
  | second {p one two : Nat} {s : Spot} (at_ : code[p]? = some (.fork one two))
      (onward : Live code two s) : Live code p s

/-- The front once the instruction at a place is passed. -/
def Front.visit (f : Front) (place : Nat) : Front := { f with seen := f.seen ||| (1 <<< place) }

/-- What the instruction at which a way has come makes of it: the ways to follow next, and the front. -/
def hop (code : Array Instr) (s : Spot) (t : Thread) (f : Front) : List Thread × Front :=
  if f.seen.testBit t.place then ([], f)
  else
    match code[t.place]? with
    | none => ([], f)
    | some .accept => ([], { f.visit t.place with accepted := some t })
    | some (.chars members next) =>
      if s.rest.head?.any members.mem then
        ([], { f.visit t.place with onward := { t with place := next } :: f.onward })
      else ([], f.visit t.place)
    | some (.look a next) => (if a.holds s then [{ t with place := next }] else [], f.visit t.place)
    | some (.mark slot next) =>
      ([{ t with place := next, marks := (slot, s.pos) :: t.marks }], f.visit t.place)
    | some (.fork first second) =>
      ([{ t with place := first }, { t with place := second }], f.visit t.place)

theorem follow_nil (code : Array Instr) (s : Spot) (fuel : Nat) (f : Front) :
    follow code s fuel [] f = f := by
  cases fuel <;> rfl

/-- Following a list takes one hop after another. -/
theorem follow_cons {code : Array Instr} {s : Spot} {fuel : Nat} {t : Thread} {todo : List Thread}
    {f : Front} (open_ : f.accepted = none) :
    follow code s (fuel + 1) (t :: todo) f =
      if (hop code s t f).2.accepted.isSome then (hop code s t f).2
      else follow code s fuel ((hop code s t f).1 ++ todo) (hop code s t f).2 := by
  simp only [follow, hop]
  by_cases seen : f.seen.testBit t.place
  · simp [seen, open_]
  · by_cases bound : t.place < code.size
    · simp only [seen, bound, dif_pos, Array.getElem?_eq_getElem, Bool.false_eq_true, if_false]
      cases instr : code[t.place] with
      | accept => simp [Front.visit]
      | chars members next =>
        cases text : s.rest with
        | nil => simp [Front.visit, open_]
        | cons c rest => by_cases mem : members.mem c <;> simp [Front.visit, open_, mem]
      | look a next => by_cases holds : a.holds s <;> simp [Front.visit, open_, holds]
      | mark slot next => simp [Front.visit, open_]
      | fork first second => simp [Front.visit, open_]
    · have none_ : code[t.place]? = none := Array.getElem?_eq_none (by omega)
      simp [seen, bound, open_]

theorem visit_testBit (f : Front) (p q : Nat) :
    (f.visit p).seen.testBit q = (f.seen.testBit q || decide (p = q)) := by
  simp [Front.visit, Nat.one_shiftLeft, Nat.testBit_two_pow]

@[simp] theorem visit_onward (f : Front) (p : Nat) : (f.visit p).onward = f.onward := rfl

@[simp] theorem visit_accepted (f : Front) (p : Nat) : (f.visit p).accepted = f.accepted := rfl

/-- Number of places below `n` that are not in `seen`. -/
def unseen (seen : Nat) : Nat → Nat
  | 0 => 0
  | n + 1 => (if seen.testBit n then 0 else 1) + unseen seen n

theorem unseen_le (seen n : Nat) : unseen seen n ≤ n := by
  induction n with
  | zero => simp [unseen]
  | succ n ih =>
    simp only [unseen]
    split <;> omega

theorem unseen_visit_of_le {f : Front} {p n : Nat} (le : n ≤ p) :
    unseen (f.visit p).seen n = unseen f.seen n := by
  induction n with
  | zero => rfl
  | succ n ih =>
    have other : p ≠ n := by omega
    simp only [unseen, visit_testBit, other, decide_false, Bool.or_false]
    rw [ih (by omega)]

theorem unseen_visit {f : Front} {p n : Nat} (fresh : f.seen.testBit p = false) (lt : p < n) :
    unseen (f.visit p).seen n + 1 = unseen f.seen n := by
  induction n with
  | zero => omega
  | succ n ih =>
    simp only [unseen, visit_testBit]
    by_cases equal : p = n
    · subst equal
      rw [unseen_visit_of_le (Nat.le_refl p)]
      simp [fresh]
      omega
    · have := ih (by omega)
      simp only [equal, decide_false, Bool.or_false]
      omega

/-- Every hop takes a step off this bound. -/
def workLeft (code : Array Instr) (todo : List Thread) (f : Front) : Nat :=
  todo.length + 2 * unseen f.seen code.size

/-- What a hop can do. A way that is idle has come to a place that was passed before or to none; it is lost
where other characters come next than those asked for, and where a condition fails. -/
inductive Hopped (code : Array Instr) (s : Spot) (t : Thread) (f : Front) : List Thread → Front → Prop where
  | idle (cause : f.seen.testBit t.place ∨ code[t.place]? = none) : Hopped code s t f [] f
  | missed {members : CharSet} {next : Nat} (fresh : f.seen.testBit t.place = false)
      (at_ : code[t.place]? = some (.chars members next)) (other : ¬ s.rest.head?.any members.mem) :
      Hopped code s t f [] (f.visit t.place)
  | failed {a : Assertion} {next : Nat} (fresh : f.seen.testBit t.place = false)
      (at_ : code[t.place]? = some (.look a next)) (fails : ¬ a.holds s) :
      Hopped code s t f [] (f.visit t.place)
  | accept (fresh : f.seen.testBit t.place = false) (at_ : code[t.place]? = some .accept) :
      Hopped code s t f [] { f.visit t.place with accepted := some t }
  | chars {members : CharSet} {next : Nat} {c : Char} {rest : List Char}
      (fresh : f.seen.testBit t.place = false) (at_ : code[t.place]? = some (.chars members next))
      (text : s.rest = c :: rest) (mem : members.mem c) :
      Hopped code s t f [] { f.visit t.place with onward := { t with place := next } :: f.onward }
  | look {a : Assertion} {next : Nat} (fresh : f.seen.testBit t.place = false)
      (at_ : code[t.place]? = some (.look a next)) (holds : a.holds s) :
      Hopped code s t f [{ t with place := next }] (f.visit t.place)
  | mark {slot next : Nat} (fresh : f.seen.testBit t.place = false)
      (at_ : code[t.place]? = some (.mark slot next)) :
      Hopped code s t f [{ t with place := next, marks := (slot, s.pos) :: t.marks }] (f.visit t.place)
  | fork {first second : Nat} (fresh : f.seen.testBit t.place = false)
      (at_ : code[t.place]? = some (.fork first second)) :
      Hopped code s t f [{ t with place := first }, { t with place := second }] (f.visit t.place)

theorem hop_spec (code : Array Instr) (s : Spot) (t : Thread) (f : Front) :
    Hopped code s t f (hop code s t f).1 (hop code s t f).2 := by
  by_cases seen : f.seen.testBit t.place
  · simp only [hop, seen, if_true]
    exact .idle (.inl seen)
  · have fresh : f.seen.testBit t.place = false := by simpa using seen
    cases instr : code[t.place]? with
    | none =>
      simp only [hop, instr, seen, Bool.false_eq_true, if_false]
      exact .idle (.inr instr)
    | some i =>
      cases i with
      | accept =>
        simp only [hop, instr, seen, Bool.false_eq_true, if_false]
        exact .accept fresh instr
      | chars members next =>
        by_cases mem : s.rest.head?.any members.mem
        · cases text : s.rest with
          | nil => simp [text] at mem
          | cons c rest =>
            have member : members.mem c := by simpa [text] using mem
            simp only [hop, instr, seen, mem, Bool.false_eq_true, if_false, if_true]
            exact .chars fresh instr text member
        · simp only [hop, instr, seen, mem, Bool.false_eq_true, if_false]
          exact .missed fresh instr mem
      | look a next =>
        by_cases holds : a.holds s
        · simp only [hop, instr, seen, holds, Bool.false_eq_true, if_false, if_true]
          exact .look fresh instr holds
        · simp only [hop, instr, seen, holds, Bool.false_eq_true, if_false]
          exact .failed fresh instr holds
      | mark slot next =>
        simp only [hop, instr, seen, Bool.false_eq_true, if_false]
        exact .mark fresh instr
      | fork first second =>
        simp only [hop, instr, seen, Bool.false_eq_true, if_false]
        exact .fork fresh instr

theorem lt_size_of_instr {code : Array Instr} {p : Nat} {i : Instr} (at_ : code[p]? = some i) :
    p < code.size := by
  obtain ⟨bound, _⟩ := Array.getElem?_eq_some_iff.mp at_
  exact bound

section Hopped

variable {code : Array Instr} {s : Spot} {t : Thread} {f g : Front} {new : List Thread}

theorem Hopped.workLeft_lt (h : Hopped code s t f new g) (todo : List Thread) :
    workLeft code (new ++ todo) g < workLeft code (t :: todo) f := by
  have work := unseen_visit (f := f) (p := t.place) (n := code.size)
  cases h with
  | idle => simp [workLeft]
  | missed fresh at_ | failed fresh at_ | accept fresh at_ | chars fresh at_ | look fresh at_
  | mark fresh at_ | fork fresh at_ =>
    have := work fresh (lt_size_of_instr at_)
    simp only [workLeft, List.length_append, List.length_cons, List.length_nil]
    omega

/-- Each way behind the next character uses up a visit. -/
theorem Hopped.onward_le (h : Hopped code s t f new g) :
    g.onward.length + unseen g.seen code.size ≤ f.onward.length + unseen f.seen code.size := by
  have work := unseen_visit (f := f) (p := t.place) (n := code.size)
  cases h with
  | idle => exact Nat.le_refl _
  | missed fresh at_ | failed fresh at_ | accept fresh at_ | chars fresh at_ | look fresh at_
  | mark fresh at_ | fork fresh at_ =>
    have := work fresh (lt_size_of_instr at_)
    simp only [visit_onward, List.length_cons]
    omega

theorem Hopped.onward_extends (h : Hopped code s t f new g) : ∃ extra, g.onward = extra ++ f.onward := by
  cases h with
  | idle | missed | failed | accept | look | mark | fork => exact ⟨[], rfl⟩
  | chars => exact ⟨[_], rfl⟩

/-- Only dead ways come from a dead way, and none of them is accepted. -/
theorem Hopped.of_dead (h : Hopped code s t f new g) (dead : ¬ Live code t.place s) :
    (∀ u ∈ new, ¬ Live code u.place s) ∧ g.accepted = f.accepted ∧
      (∀ q, Live code q s → g.seen.testBit q = f.seen.testBit q) ∧
      (g.onward = f.onward ∨ ∃ u c rest, g.onward = u :: f.onward ∧ s.rest = c :: rest ∧
        ¬ Live code u.place (s.step c rest)) := by
  have other : ∀ q, Live code q s → (f.visit t.place).seen.testBit q = f.seen.testBit q := by
    intro q live
    have : t.place ≠ q := fun equal => dead (equal ▸ live)
    simp [visit_testBit, this]
  cases h with
  | idle => exact ⟨by simp, rfl, fun _ _ => rfl, .inl rfl⟩
  | missed | failed => exact ⟨by simp, rfl, other, .inl rfl⟩
  | accept _ at_ => exact absurd (Live.accept at_) dead
  | chars _ at_ text mem =>
    exact ⟨by simp, rfl, other, .inr ⟨_, _, _, rfl, text, fun live => dead (.chars at_ text mem live)⟩⟩
  | look _ at_ holds => exact ⟨by simpa using fun live => dead (.look at_ holds live), rfl, other, .inl rfl⟩
  | mark _ at_ => exact ⟨by simpa using fun live => dead (.mark at_ live), rfl, other, .inl rfl⟩
  | fork _ at_ =>
    refine ⟨?_, rfl, other, .inl rfl⟩
    simp only [List.mem_cons, List.not_mem_nil, or_false, forall_eq_or_imp, forall_eq]
    exact ⟨fun live => dead (.first at_ live), fun live => dead (.second at_ live)⟩

end Hopped

/-- A list of ways is followed from one front to another. -/
inductive Follows (code : Array Instr) (s : Spot) : List Thread → Front → Front → Prop where
  | done {f : Front} : Follows code s [] f f
  | stop {t : Thread} {todo : List Thread} {f : Front}
      (accepted : (hop code s t f).2.accepted.isSome) : Follows code s (t :: todo) f (hop code s t f).2
  | next {t : Thread} {todo : List Thread} {f out : Front}
      (open_ : (hop code s t f).2.accepted = none)
      (more : Follows code s ((hop code s t f).1 ++ todo) (hop code s t f).2 out) :
      Follows code s (t :: todo) f out

/-- With enough fuel, following a list comes to its end. -/
theorem follow_follows {code : Array Instr} {s : Spot} {fuel : Nat} {todo : List Thread} {f : Front}
    (open_ : f.accepted = none) (enough : workLeft code todo f ≤ fuel) :
    Follows code s todo f (follow code s fuel todo f) := by
  induction fuel generalizing todo f with
  | zero =>
    cases todo with
    | nil => exact .done
    | cons t todo => simp [workLeft] at enough
  | succ fuel ih =>
    cases todo with
    | nil => exact .done
    | cons t todo =>
      rw [follow_cons open_]
      split
      · exact .stop ‹_›
      · next still =>
        have still : (hop code s t f).2.accepted = none := by simpa using still
        have less := (hop_spec code s t f).workLeft_lt todo
        exact .next still (ih still (by omega))

section Follows

variable {code : Array Instr} {s : Spot} {todo : List Thread} {f out : Front}

theorem Follows.onward_extends (h : Follows code s todo f out) : ∃ extra, out.onward = extra ++ f.onward := by
  induction h with
  | done => exact ⟨[], rfl⟩
  | stop => exact (hop_spec code s _ _).onward_extends
  | next _ _ ih =>
    obtain ⟨extra, eq⟩ := ih
    obtain ⟨first, eq'⟩ := (hop_spec code s _ _).onward_extends
    exact ⟨extra ++ first, by rw [eq, eq', List.append_assoc]⟩

theorem Follows.onward_le (h : Follows code s todo f out) :
    out.onward.length + unseen out.seen code.size ≤ f.onward.length + unseen f.seen code.size := by
  induction h with
  | done => exact Nat.le_refl _
  | stop => exact (hop_spec code s _ _).onward_le
  | next _ _ ih => exact Nat.le_trans ih (hop_spec code s _ _).onward_le

theorem Follows.unique {other : Front} (h : Follows code s todo f out) (h' : Follows code s todo f other) :
    out = other := by
  induction h with
  | done =>
    cases h'
    rfl
  | stop accepted =>
    cases h' with
    | stop => rfl
    | next open_ =>
      rw [open_] at accepted
      cases accepted
  | next open_ _ ih =>
    cases h' with
    | stop accepted =>
      rw [open_] at accepted
      cases accepted
    | next _ more => exact ih more

/-- Ways behind others in a list do not change what those before them lead to. -/
theorem Follows.append_inv {first second : List Thread} (h : Follows code s (first ++ second) f out)
    (open_ : f.accepted = none) :
    ∃ mid, Follows code s first f mid ∧
      ((mid.accepted.isSome ∧ out = mid) ∨ (mid.accepted = none ∧ Follows code s second mid out)) := by
  generalize whole : first ++ second = todo at h
  induction h generalizing first with
  | done =>
    obtain ⟨rfl, rfl⟩ := List.append_eq_nil_iff.mp whole
    exact ⟨_, .done, .inr ⟨open_, .done⟩⟩
  | @stop t todo f accepted =>
    cases first with
    | nil =>
      simp only [List.nil_append] at whole
      subst whole
      exact ⟨f, .done, .inr ⟨open_, .stop accepted⟩⟩
    | cons u first =>
      simp only [List.cons_append, List.cons.injEq] at whole
      obtain ⟨rfl, rfl⟩ := whole
      exact ⟨_, .stop accepted, .inl ⟨accepted, rfl⟩⟩
  | @next t todo f out still more ih =>
    cases first with
    | nil =>
      simp only [List.nil_append] at whole
      subst whole
      exact ⟨f, .done, .inr ⟨open_, .next still more⟩⟩
    | cons u first =>
      simp only [List.cons_append, List.cons.injEq] at whole
      obtain ⟨rfl, rfl⟩ := whole
      have parts := List.append_assoc (hop code s u f).1 first second
      obtain ⟨mid, run, cases_⟩ := ih still parts
      exact ⟨mid, .next still run, cases_⟩

end Follows


/-- Two lists of ways that differ only in ways from which no match can be reached. -/
inductive SameLive (code : Array Instr) (s : Spot) : List Thread → List Thread → Prop where
  | nil : SameLive code s [] []
  | both {t : Thread} {first second : List Thread} (more : SameLive code s first second) :
      SameLive code s (t :: first) (t :: second)
  | left {t : Thread} {first second : List Thread} (dead : ¬ Live code t.place s)
      (more : SameLive code s first second) : SameLive code s (t :: first) second
  | right {t : Thread} {first second : List Thread} (dead : ¬ Live code t.place s)
      (more : SameLive code s first second) : SameLive code s first (t :: second)

section SameLive

variable {code : Array Instr} {s : Spot} {first second third fourth : List Thread}

theorem SameLive.refl (first : List Thread) : SameLive code s first first := by
  induction first with
  | nil => exact .nil
  | cons t first ih => exact .both ih

theorem SameLive.symm (h : SameLive code s first second) : SameLive code s second first := by
  induction h with
  | nil => exact .nil
  | both _ ih => exact .both ih
  | left dead _ ih => exact .right dead ih
  | right dead _ ih => exact .left dead ih

theorem SameLive.append (front : SameLive code s first second) (back : SameLive code s third fourth) :
    SameLive code s (first ++ third) (second ++ fourth) := by
  induction front with
  | nil => exact back
  | both _ ih => exact .both ih
  | left dead _ ih => exact .left dead ih
  | right dead _ ih => exact .right dead ih

theorem SameLive.reverse (h : SameLive code s first second) :
    SameLive code s first.reverse second.reverse := by
  induction h with
  | nil => exact .nil
  | both _ ih =>
    simp only [List.reverse_cons]
    exact ih.append (.both .nil)
  | @left t first second dead _ ih =>
    have last : SameLive code s [t] [] := .left dead .nil
    simpa only [List.reverse_cons, List.append_nil] using ih.append last
  | @right t first second dead _ ih =>
    have last : SameLive code s [] [t] := .right dead .nil
    simpa only [List.reverse_cons, List.append_nil] using ih.append last

/-- Dead ways in front of a list make no difference. -/
theorem SameLive.of_dead (dead : ∀ t ∈ third, ¬ Live code t.place s) (h : SameLive code s first second) :
    SameLive code s (third ++ first) second := by
  induction third with
  | nil => exact h
  | cons t third ih =>
    refine .left (dead t (by simp)) (ih ?_)
    intro u member
    exact dead u (by simp [member])

end SameLive

/-- Two fronts that differ only in what has no match ahead. -/
structure Agree (code : Array Instr) (s : Spot) (f g : Front) : Prop where
  seen : ∀ q, Live code q s → f.seen.testBit q = g.seen.testBit q
  accepted : f.accepted = g.accepted
  onward : ∀ c rest, s.rest = c :: rest → SameLive code (s.step c rest) f.onward g.onward

section Agree

variable {code : Array Instr} {s : Spot} {f g : Front} {t : Thread}

theorem Agree.refl (f : Front) : Agree code s f f :=
  ⟨fun _ _ => rfl, rfl, fun _ _ _ => SameLive.refl _⟩

theorem Agree.symm (h : Agree code s f g) : Agree code s g f :=
  ⟨fun q live => (h.seen q live).symm, h.accepted.symm, fun c rest text => (h.onward c rest text).symm⟩

theorem Agree.visit (h : Agree code s f g) (p : Nat) : Agree code s (f.visit p) (g.visit p) := by
  refine ⟨?_, h.accepted, h.onward⟩
  intro q live
  rw [visit_testBit, visit_testBit, h.seen q live]

/-- A dead way leaves a front that agrees. -/
theorem Agree.hop_dead (h : Agree code s f g) (dead : ¬ Live code t.place s) :
    Agree code s (hop code s t f).2 g := by
  obtain ⟨_, accepted, seen, onward⟩ := (hop_spec code s t f).of_dead dead
  refine ⟨?_, accepted.trans h.accepted, ?_⟩
  · intro q live
    rw [seen q live, h.seen q live]
  · intro c rest text
    rcases onward with same | ⟨u, c', rest', added, text', deadNext⟩
    · rw [same]
      exact h.onward c rest text
    · rw [text] at text'
      simp only [List.cons.injEq] at text'
      obtain ⟨rfl, rfl⟩ := text'
      rw [added]
      exact .left deadNext (h.onward c rest text)

/-- A live way is treated alike by fronts that agree. -/
theorem Agree.hop_live (h : Agree code s f g) (live : Live code t.place s) :
    (hop code s t f).1 = (hop code s t g).1 ∧ Agree code s (hop code s t f).2 (hop code s t g).2 := by
  have seen := h.seen t.place live
  have visited := h.visit t.place
  by_cases old : g.seen.testBit t.place
  · simp only [hop, seen, old, if_true]
    exact ⟨trivial, h⟩
  · cases instr : code[t.place]? with
    | none =>
      simp only [hop, seen, old, instr, Bool.false_eq_true, if_false]
      exact ⟨trivial, h⟩
    | some i =>
      cases i with
      | accept =>
        simp only [hop, seen, old, instr, Bool.false_eq_true, if_false]
        exact ⟨trivial, visited.seen, rfl, visited.onward⟩
      | chars members next =>
        by_cases mem : s.rest.head?.any members.mem
        · simp only [hop, seen, old, instr, mem, Bool.false_eq_true, if_false, if_true]
          exact ⟨trivial, visited.seen, h.accepted, fun c rest text => .both (h.onward c rest text)⟩
        · simp only [hop, seen, old, instr, mem, Bool.false_eq_true, if_false]
          exact ⟨trivial, visited⟩
      | look a next =>
        simp only [hop, seen, old, instr, Bool.false_eq_true, if_false]
        exact ⟨trivial, visited⟩
      | mark slot next =>
        simp only [hop, seen, old, instr, Bool.false_eq_true, if_false]
        exact ⟨trivial, visited⟩
      | fork one two =>
        simp only [hop, seen, old, instr, Bool.false_eq_true, if_false]
        exact ⟨trivial, visited⟩

end Agree

/-- Lists that differ only in dead ways lead to fronts that agree. The bound falls with every hop on either
side. -/
theorem Follows.agree {code : Array Instr} {s : Spot} (bound : Nat) {first second : List Thread}
    {f g outF outG : Front} (left : Follows code s first f outF) (right : Follows code s second g outG)
    (work : workLeft code first f + workLeft code second g ≤ bound)
    (same : SameLive code s first second) (h : Agree code s f g) (open_ : f.accepted = none) :
    Agree code s outF outG := by
  induction bound using Nat.strongRecOn generalizing first second f g with
  | _ bound ih =>
    have openG : g.accepted = none := h.accepted ▸ open_
    -- A dead way at the head of the left list is followed on that side alone.
    have onLeft : ∀ {t : Thread} {todo : List Thread} {second : List Thread} {f g : Front},
        Follows code s (t :: todo) f outF → Follows code s second g outG →
        workLeft code (t :: todo) f + workLeft code second g ≤ bound →
        ¬ Live code t.place s → SameLive code s todo second → Agree code s f g →
        f.accepted = none → Agree code s outF outG := by
      intro t todo second f g left right work dead same h open_
      have spec := hop_spec code s t f
      obtain ⟨deadNew, accepted, _, _⟩ := spec.of_dead dead
      have less := spec.workLeft_lt todo
      cases left with
      | stop found =>
        rw [accepted, open_] at found
        cases found
      | next still more =>
        exact ih _ (by omega) more right (Nat.le_refl _) (same.of_dead deadNew) (h.hop_dead dead) still
    cases same with
    | nil =>
      cases left
      cases right
      exact h
    | left dead same => exact onLeft left right work dead same h open_
    | @right t first second dead same =>
      -- The same step with the sides exchanged.
      have spec := hop_spec code s t g
      obtain ⟨deadNew, accepted, _, _⟩ := spec.of_dead dead
      have less := spec.workLeft_lt second
      cases right with
      | stop found =>
        rw [accepted, openG] at found
        cases found
      | next still more =>
        exact ih _ (by omega) left more (Nat.le_refl _) (same.symm.of_dead deadNew).symm
          (h.symm.hop_dead dead).symm open_
    | @both t first second same =>
      by_cases live : Live code t.place s
      · obtain ⟨new, agree⟩ := h.hop_live live
        have lessF := (hop_spec code s t f).workLeft_lt first
        have lessG := (hop_spec code s t g).workLeft_lt second
        cases left with
        | stop found =>
          cases right with
          | stop => exact agree
          | next still =>
            rw [agree.accepted, still] at found
            cases found
        | next still more =>
          cases right with
          | stop found =>
            rw [← agree.accepted, still] at found
            cases found
          | next _ moreG =>
            rw [← new] at moreG lessG
            exact ih _ (by omega) more moreG (Nat.le_refl _) ((SameLive.refl _).append same) agree still
      · exact onLeft left right work live (.right live same) h open_

/-- From one place on to another before the same character. -/
inductive Edge (code : Array Instr) (s : Spot) : Nat → Nat → Prop where
  | look {p q : Nat} {a : Assertion} (at_ : code[p]? = some (.look a q)) (holds : a.holds s) : Edge code s p q
  | mark {p q slot : Nat} (at_ : code[p]? = some (.mark slot q)) : Edge code s p q
  | first {p q two : Nat} (at_ : code[p]? = some (.fork q two)) : Edge code s p q
  | second {p q one : Nat} (at_ : code[p]? = some (.fork one q)) : Edge code s p q

/-- A place that was visited, has a way to it that is still to be followed, or holds no instruction. -/
def Covered (code : Array Instr) (todo : List Thread) (f : Front) (p : Nat) : Prop :=
  f.seen.testBit p ∨ (∃ t ∈ todo, t.place = p) ∨ code[p]? = none

/-- The places visited are closed under what they lead to. -/
structure Closed (code : Array Instr) (s : Spot) (todo : List Thread) (f : Front) : Prop where
  edge : ∀ p q, f.seen.testBit p → Edge code s p q → Covered code todo f q
  accept : ∀ p, f.seen.testBit p → code[p]? = some .accept → f.accepted.isSome
  chars : ∀ p members next c rest, f.seen.testBit p → code[p]? = some (.chars members next) →
    s.rest = c :: rest → members.mem c → ∃ t ∈ f.onward, t.place = next

section Closed

variable {code : Array Instr} {s : Spot} {t : Thread} {f g out : Front} {new todo : List Thread}

theorem Hopped.seen_iff (h : Hopped code s t f new g) (p : Nat) :
    g.seen.testBit p ↔ f.seen.testBit p ∨ (p = t.place ∧ code[t.place]?.isSome) := by
  cases h with
  | idle cause =>
    rcases cause with seen | absent
    · constructor
      · exact .inl
      · rintro (seen' | ⟨rfl, _⟩) <;> assumption
    · simp [absent]
  | missed _ at_ | failed _ at_ | accept _ at_ | chars _ at_ | look _ at_ | mark _ at_ | fork _ at_ =>
    have visited : (f.visit t.place).seen.testBit p ↔ f.seen.testBit p ∨ p = t.place := by
      rw [visit_testBit, Bool.or_eq_true, decide_eq_true_eq, @eq_comm _ t.place p]
    simpa [at_] using visited

theorem Hopped.edge (h : Hopped code s t f new g) {q : Nat} (edge : Edge code s t.place q) :
    f.seen.testBit t.place ∨ ∃ u ∈ new, u.place = q := by
  cases h with
  | idle cause =>
    rcases cause with seen | absent
    · exact .inl seen
    · cases edge <;> simp_all
  | missed | failed | accept | chars | look | mark | fork => cases edge <;> simp_all
theorem Hopped.onward_subset (h : Hopped code s t f new g) {u : Thread} (member : u ∈ f.onward) :
    u ∈ g.onward := by
  obtain ⟨extra, eq⟩ := h.onward_extends
  rw [eq]
  exact List.mem_append_right _ member

theorem Closed.hop (closed : Closed code s (t :: todo) f) (h : Hopped code s t f new g)
    (open_ : f.accepted = none) : Closed code s (new ++ todo) g := by
  -- What was covered stays so: the way that was followed has come to a place that is visited now.
  have covered : ∀ q, Covered code (t :: todo) f q → Covered code (new ++ todo) g q := by
    rintro q (seen | ⟨u, member, place⟩ | absent)
    · exact .inl ((h.seen_iff q).mpr (.inl seen))
    · rcases List.mem_cons.mp member with rfl | member
      · cases instr : code[u.place]? with
        | none => exact .inr (.inr (place ▸ instr))
        | some i => exact .inl ((h.seen_iff q).mpr (.inr ⟨place.symm, by simp [instr]⟩))
      · exact .inr (.inl ⟨u, by simp [member], place⟩)
    · exact .inr (.inr absent)
  refine ⟨?_, ?_, ?_⟩
  · intro p q seen edge
    rcases (h.seen_iff p).mp seen with old | ⟨rfl, _⟩
    · exact covered q (closed.edge p q old edge)
    · rcases h.edge edge with old | ⟨u, member, place⟩
      · exact covered q (closed.edge _ q old edge)
      · exact .inr (.inl ⟨u, by simp [member], place⟩)
  · intro p seen at_
    rcases (h.seen_iff p).mp seen with old | ⟨rfl, _⟩
    · have := closed.accept p old at_
      simp [open_] at this
    · cases h with
      | idle cause =>
        rcases cause with old | absent
        · have := closed.accept _ old at_
          simp [open_] at this
        · simp [absent] at at_
      | accept => rfl
      | missed _ at' | failed _ at' | chars _ at' | look _ at' | mark _ at' | fork _ at' =>
        simp [at_] at at'
  · intro p members next c rest seen at_ text mem
    have kept : ∀ {p}, f.seen.testBit p → code[p]? = some (.chars members next) →
        ∃ u ∈ g.onward, u.place = next := by
      intro p old at_
      obtain ⟨u, member, place⟩ := closed.chars p members next c rest old at_ text mem
      exact ⟨u, h.onward_subset member, place⟩
    rcases (h.seen_iff p).mp seen with old | ⟨rfl, _⟩
    · exact kept old at_
    · cases h with
      | idle cause =>
        rcases cause with old | absent
        · exact kept old at_
        · simp [absent] at at_
      | missed _ at' other =>
        rw [at_] at at'
        cases at'
        simp [text, mem] at other
      | chars _ at' =>
        rw [at_] at at'
        cases at'
        exact ⟨_, List.mem_cons_self, rfl⟩
      | accept _ at' | failed _ at' | look _ at' | mark _ at' | fork _ at' =>
        simp [at_] at at'

/-- Every way of a list comes to a place that is visited, unless one is accepted before. -/
theorem Follows.closed (h : Follows code s todo f out) (closed : Closed code s todo f)
    (open_ : f.accepted = none) (still : out.accepted = none) :
    Closed code s [] out ∧ (∀ p, f.seen.testBit p → out.seen.testBit p) ∧
      ∀ t ∈ todo, code[t.place]?.isSome → out.seen.testBit t.place := by
  induction h with
  | done => exact ⟨closed, fun _ seen => seen, by simp⟩
  | stop accepted =>
    rw [still] at accepted
    cases accepted
  | @next t todo f out openNext more ih =>
    have spec := hop_spec code s t f
    obtain ⟨closedOut, grows, visited⟩ := ih (closed.hop spec open_) openNext still
    have growsHere : ∀ p, f.seen.testBit p → out.seen.testBit p :=
      fun p seen => grows p ((spec.seen_iff p).mpr (.inl seen))
    refine ⟨closedOut, growsHere, ?_⟩
    intro u member present
    rcases List.mem_cons.mp member with rfl | member
    · exact grows _ ((spec.seen_iff _).mpr (.inr ⟨rfl, present⟩))
    · exact visited u (by simp [member]) present

/-- If a match can be reached from a place that was visited, it can be reached behind the next character. -/
theorem Closed.onward_live {p : Nat} (closed : Closed code s [] f) (open_ : f.accepted = none)
    (live : Live code p s) (seen : f.seen.testBit p) :
    ∃ c rest, s.rest = c :: rest ∧ ∃ u ∈ f.onward, Live code u.place (s.step c rest) := by
  have along : ∀ {p q}, f.seen.testBit p → Edge code s p q → Live code q s → f.seen.testBit q := by
    intro p q seen edge live
    rcases closed.edge p q seen edge with seen | ⟨_, member, _⟩ | absent
    · exact seen
    · cases member
    · cases live <;> simp_all
  induction live with
  | accept at_ =>
    have := closed.accept _ seen at_
    simp [open_] at this
  | chars at_ text mem onward =>
    obtain ⟨u, member, place⟩ := closed.chars _ _ _ _ _ seen at_ text mem
    exact ⟨_, _, text, u, member, place ▸ onward⟩
  | look at_ holds onward ih => exact ih closed (along seen (.look at_ holds) onward) along
  | mark at_ onward ih => exact ih closed (along seen (.mark at_) onward) along
  | first at_ onward ih => exact ih closed (along seen (.first at_) onward) along
  | second at_ onward ih => exact ih closed (along seen (.second at_) onward) along

/-- If a match can be reached from some way of a list, then one is accepted here or some way behind the next
character can reach one. -/
theorem Follows.complete (h : Follows code s todo {} out) (still : out.accepted = none)
    (member : t ∈ todo) (live : Live code t.place s) :
    ∃ c rest, s.rest = c :: rest ∧ ∃ u ∈ out.onward, Live code u.place (s.step c rest) := by
  have start : Closed code s todo {} := ⟨by simp, by simp, by simp⟩
  obtain ⟨closed, _, visited⟩ := h.closed start rfl still
  have present : code[t.place]?.isSome := by
    cases live <;> simp_all
  exact closed.onward_live still live (visited t member present)

end Closed

end Gloss.Regex

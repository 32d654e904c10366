import Gloss.Proofs.Regex.Fronts
import Gloss.Proofs.Text.Spots

/-!
What a search finds. A search follows the ways from all starts side by side; it finds the same as trying one
start after another, each on its own. So it reports the leftmost match, and which match it reports at a start
does not depend on where the search began.
-/
namespace Gloss.Regex

open Text (Spot)

/-- From the instruction at a place, the text at a spot and the offsets remembered so far, a match is reached
in some number of steps that ends at the spot `stop` with the offsets `final`. -/
inductive Ends (code : Array Instr) (stop : Spot) (final : List (Nat × Nat)) :
    Nat → Nat → Spot → List (Nat × Nat) → Prop where
  | accept {p : Nat} (at_ : code[p]? = some .accept) : Ends code stop final 0 p stop final
  | chars {n p next : Nat} {s : Spot} {m : List (Nat × Nat)} {members : CharSet} {c : Char}
      {rest : List Char} (at_ : code[p]? = some (.chars members next)) (text : s.rest = c :: rest)
      (mem : members.mem c) (onward : Ends code stop final n next (s.step c rest) m) :
      Ends code stop final (n + 1) p s m
  | look {n p next : Nat} {s : Spot} {m : List (Nat × Nat)} {a : Assertion}
      (at_ : code[p]? = some (.look a next)) (holds : a.holds s)
      (onward : Ends code stop final n next s m) : Ends code stop final (n + 1) p s m
  | mark {n p next slot : Nat} {s : Spot} {m : List (Nat × Nat)}
      (at_ : code[p]? = some (.mark slot next))
      (onward : Ends code stop final n next s ((slot, s.pos) :: m)) : Ends code stop final (n + 1) p s m
  | first {n p one two : Nat} {s : Spot} {m : List (Nat × Nat)} (at_ : code[p]? = some (.fork one two))
      (onward : Ends code stop final n one s m) : Ends code stop final (n + 1) p s m
  | second {n p one two : Nat} {s : Spot} {m : List (Nat × Nat)} (at_ : code[p]? = some (.fork one two))
      (onward : Ends code stop final n two s m) : Ends code stop final (n + 1) p s m

theorem Ends.live {code : Array Instr} {stop s : Spot} {final m : List (Nat × Nat)} {n p : Nat}
    (h : Ends code stop final n p s m) : Live code p s := by
  induction h with
  | accept at_ => exact .accept at_
  | chars at_ text mem _ ih => exact .chars at_ text mem ih
  | look at_ holds _ ih => exact .look at_ holds ih
  | mark at_ _ ih => exact .mark at_ ih
  | first at_ _ ih => exact .first at_ ih
  | second at_ _ ih => exact .second at_ ih

theorem Live.ends {code : Array Instr} {s : Spot} {p : Nat} (h : Live code p s) (m : List (Nat × Nat)) :
    ∃ stop final n, Ends code stop final n p s m := by
  induction h generalizing m with
  | accept at_ => exact ⟨_, _, _, .accept at_⟩
  | chars at_ text mem _ ih =>
    obtain ⟨stop, final, n, onward⟩ := ih m
    exact ⟨_, _, _, .chars at_ text mem onward⟩
  | look at_ holds _ ih =>
    obtain ⟨stop, final, n, onward⟩ := ih m
    exact ⟨_, _, _, .look at_ holds onward⟩
  | @mark p next slot s at_ _ ih =>
    obtain ⟨stop, final, n, onward⟩ := ih ((slot, s.pos) :: m)
    exact ⟨_, _, _, .mark at_ onward⟩
  | first at_ _ ih =>
    obtain ⟨stop, final, n, onward⟩ := ih m
    exact ⟨_, _, _, .first at_ onward⟩
  | second at_ _ ih =>
    obtain ⟨stop, final, n, onward⟩ := ih m
    exact ⟨_, _, _, .second at_ onward⟩

/-- A way that came from the place `origin` of the program at a spot: whatever it leads to can be reached from
there. -/
structure Comes (code : Array Instr) (place : Nat) (origin : Spot) (s : Spot) (t : Thread) : Prop where
  start : t.start = origin.pos
  reach : ∀ stop final n, Ends code stop final n t.place s t.marks →
    ∃ k, Ends code stop final k place origin []

section Comes

variable {code : Array Instr} {place : Nat} {origin s : Spot} {t : Thread} {f g out : Front}
  {new todo : List Thread}

/-- A hop keeps to ways that come from one place. -/
theorem Hopped.comes (h : Hopped code s t f new g) (comes : Comes code place origin s t) :
    (∀ u ∈ new, Comes code place origin s u) ∧
      (∀ u ∈ g.onward, u ∈ f.onward ∨
        ∃ c rest, s.rest = c :: rest ∧ Comes code place origin (s.step c rest) u) ∧
      ∀ u, g.accepted = some u → f.accepted = some u ∨
        (u.start = origin.pos ∧ ∃ k, Ends code s u.marks k place origin []) := by
  have reach := comes.reach
  cases h with
  | idle | missed | failed => exact ⟨by simp, fun u member => .inl member, fun u found => .inl found⟩
  | accept _ at_ =>
    refine ⟨by simp, fun u member => .inl member, ?_⟩
    intro u found
    cases found
    exact .inr ⟨comes.start, reach s t.marks 0 (.accept at_)⟩
  | @chars members next c rest _ at_ text mem =>
    refine ⟨by simp, ?_, fun u found => .inl found⟩
    intro u member
    rcases List.mem_cons.mp member with rfl | member
    · refine .inr ⟨c, rest, text, comes.start, ?_⟩
      intro stop final n ends
      exact reach stop final (n + 1) (.chars at_ text mem ends)
    · exact .inl member
  | look _ at_ holds =>
    refine ⟨?_, fun u member => .inl member, fun u found => .inl found⟩
    simp only [List.mem_singleton, forall_eq]
    exact ⟨comes.start, fun stop final n ends => reach stop final (n + 1) (.look at_ holds ends)⟩
  | mark _ at_ =>
    refine ⟨?_, fun u member => .inl member, fun u found => .inl found⟩
    simp only [List.mem_singleton, forall_eq]
    exact ⟨comes.start, fun stop final n ends => reach stop final (n + 1) (.mark at_ ends)⟩
  | fork _ at_ =>
    refine ⟨?_, fun u member => .inl member, fun u found => .inl found⟩
    simp only [List.mem_cons, List.not_mem_nil, or_false, forall_eq_or_imp, forall_eq]
    exact ⟨⟨comes.start, fun stop final n ends => reach stop final (n + 1) (.first at_ ends)⟩,
      ⟨comes.start, fun stop final n ends => reach stop final (n + 1) (.second at_ ends)⟩⟩

/-- Following a list keeps to ways that come from one place. -/
theorem Follows.comes (h : Follows code s todo f out)
    (comes : ∀ t ∈ todo, Comes code place origin s t) :
    (∀ u ∈ out.onward, u ∈ f.onward ∨
        ∃ c rest, s.rest = c :: rest ∧ Comes code place origin (s.step c rest) u) ∧
      ∀ u, out.accepted = some u → f.accepted = some u ∨
        (u.start = origin.pos ∧ ∃ k, Ends code s u.marks k place origin []) := by
  induction h with
  | done => exact ⟨fun u member => .inl member, fun u found => .inl found⟩
  | stop =>
    obtain ⟨_, onward, accepted⟩ := (hop_spec code s _ _).comes (comes _ List.mem_cons_self)
    exact ⟨onward, accepted⟩
  | @next t todo f out _ _ ih =>
    obtain ⟨new, onwardHop, acceptedHop⟩ := (hop_spec code s t f).comes (comes t (by simp))
    have comes' : ∀ u ∈ (hop code s t f).1 ++ todo, Comes code place origin s u := by
      intro u member
      rcases List.mem_append.mp member with member | member
      · exact new u member
      · exact comes u (by simp [member])
    obtain ⟨onward, accepted⟩ := ih comes'
    refine ⟨?_, ?_⟩
    · intro u member
      rcases onward u member with member | found
      · exact onwardHop u member
      · exact .inr found
    · intro u found
      rcases accepted u found with found | reached
      · exact acceptedHop u found
      · exact .inr reached

end Comes

namespace Program

variable {p : Program}

/-- The best match once a front is known. -/
def settled (f : Front) (s : Spot) (best : Option Found) : Option Found :=
  match f.accepted with
  | some t => some ⟨t.start, s, t.marks⟩
  | none => best

/-- Follows ways from a place on, with no new ones. -/
def pursue (p : Program) (threads : List Thread) (best : Option Found) (pos : Nat)
    (before : Option Char) : List Char → Option Found
  | [] => settled (p.frontAt ⟨pos, before, []⟩ threads) ⟨pos, before, []⟩ best
  | c :: rest =>
    let front := p.frontAt ⟨pos, before, c :: rest⟩ threads
    p.pursue front.onward.reverse (settled front ⟨pos, before, c :: rest⟩ best) (pos + c.utf8Size)
      (some c) rest

/-- The preferred match that starts at a spot. -/
def matchAt (p : Program) (s : Spot) : Option Found :=
  p.pursue [⟨p.start, s.pos, []⟩] none s.pos s.before s.rest

theorem frontAt_follows {s : Spot} {threads : List Thread} (few : threads.length ≤ p.code.size + 3) :
    Follows p.code s threads {} (p.frontAt s threads) := by
  refine follow_follows rfl ?_
  have := unseen_le 0 p.code.size
  simp only [workLeft]
  omega

theorem frontAt_onward_length {s : Spot} {threads : List Thread} (few : threads.length ≤ p.code.size + 3) :
    (p.frontAt s threads).onward.reverse.length ≤ p.code.size := by
  have bound := (frontAt_follows (s := s) few).onward_le
  have := unseen_le 0 p.code.size
  simp only [List.length_nil] at bound
  rw [List.length_reverse]
  omega

theorem pursue_nil (best : Option Found) (pos : Nat) (before : Option Char) (rest : List Char) :
    p.pursue [] best pos before rest = best := by
  have front : ∀ s, p.frontAt s [] = {} := fun s => follow_nil _ _ _ _
  induction rest generalizing pos before with
  | nil => simp [pursue, front, settled]
  | cons c rest ih => simp [pursue, front, settled, ih]

/-- Dead ways make no difference. -/
theorem pursue_sameLive {first second : List Thread} {best : Option Found} {pos : Nat}
    {before : Option Char} {rest : List Char} (fewFirst : first.length ≤ p.code.size + 3)
    (fewSecond : second.length ≤ p.code.size + 3) (same : SameLive p.code ⟨pos, before, rest⟩ first second) :
    p.pursue first best pos before rest = p.pursue second best pos before rest := by
  induction rest generalizing first second best pos before with
  | nil =>
    have agree := (frontAt_follows fewFirst).agree _ (frontAt_follows fewSecond) (Nat.le_refl _) same
      (Agree.refl _) rfl
    simp only [pursue, settled, agree.accepted]
  | cons c rest ih =>
    have agree := (frontAt_follows fewFirst).agree _ (frontAt_follows fewSecond) (Nat.le_refl _) same
      (Agree.refl _) rfl
    have boundFirst := frontAt_onward_length (s := ⟨pos, before, c :: rest⟩) fewFirst
    have boundSecond := frontAt_onward_length (s := ⟨pos, before, c :: rest⟩) fewSecond
    simp only [pursue, settled, agree.accepted]
    exact ih (by omega) (by omega) (agree.onward c rest rfl).reverse

theorem pursue_dead {threads : List Thread} {best : Option Found} {pos : Nat} {before : Option Char}
    {rest : List Char} (few : threads.length ≤ p.code.size + 3)
    (dead : ∀ t ∈ threads, ¬ Live p.code t.place ⟨pos, before, rest⟩) :
    p.pursue threads best pos before rest = best := by
  have same : SameLive p.code ⟨pos, before, rest⟩ (threads ++ []) [] := SameLive.of_dead dead .nil
  rw [List.append_nil] at same
  rw [pursue_sameLive few (by simp) same, pursue_nil]

/-- If a match can be reached from the first ways, then neither those behind them nor what was found before
counts. -/
theorem pursue_append_live {first second : List Thread} {t : Thread} {best other : Option Found}
    {pos : Nat} {before : Option Char} {rest : List Char}
    (few : (first ++ second).length ≤ p.code.size + 3) (member : t ∈ first)
    (live : Live p.code t.place ⟨pos, before, rest⟩) :
    p.pursue (first ++ second) best pos before rest = p.pursue first other pos before rest := by
  induction rest generalizing first second t best other pos before with
  | nil =>
    have fewFirst : first.length ≤ p.code.size + 3 := by
      rw [List.length_append] at few
      omega
    have run := frontAt_follows (s := ⟨pos, before, []⟩) fewFirst
    cases found : (p.frontAt ⟨pos, before, []⟩ first).accepted with
    | none =>
      obtain ⟨c, rest, text, _⟩ := run.complete found member live
      cases text
    | some u =>
      obtain ⟨mid, runFirst, stops⟩ := (frontAt_follows (s := ⟨pos, before, []⟩) few).append_inv rfl
      obtain rfl := run.unique runFirst
      rcases stops with ⟨_, out⟩ | ⟨still, _⟩
      · simp only [pursue, settled, out, found]
      · rw [found] at still
        cases still
  | cons c rest ih =>
    have fewFirst : first.length ≤ p.code.size + 3 := by
      rw [List.length_append] at few
      omega
    have run := frontAt_follows (s := ⟨pos, before, c :: rest⟩) fewFirst
    obtain ⟨mid, runFirst, stops⟩ := (frontAt_follows (s := ⟨pos, before, c :: rest⟩) few).append_inv rfl
    obtain rfl := run.unique runFirst
    have bound := frontAt_onward_length (s := ⟨pos, before, c :: rest⟩) few
    rcases stops with ⟨accepted, out⟩ | ⟨still, runSecond⟩
    · obtain ⟨u, found⟩ := Option.isSome_iff_exists.mp accepted
      simp only [pursue, settled, out, found]
    · obtain ⟨c', rest', text, u, memberU, liveU⟩ := run.complete still member live
      simp only [List.cons.injEq] at text
      obtain ⟨rfl, rfl⟩ := text
      obtain ⟨extra, eq⟩ := runSecond.onward_extends
      simp only [pursue, eq, List.reverse_append]
      rw [eq, List.reverse_append] at bound
      exact ih (by omega) (List.mem_reverse.mpr memberU) liveU

/-- What is found is found, whatever comes later. -/
theorem pursue_isSome_of_best {threads : List Thread} {best : Option Found} {pos : Nat}
    {before : Option Char} {rest : List Char} (found : best.isSome) :
    (p.pursue threads best pos before rest).isSome := by
  have keeps : ∀ (f : Front) (s : Spot) (best : Option Found), best.isSome → (settled f s best).isSome := by
    intro f s best found
    cases accepted : f.accepted <;> simp [settled, accepted, found]
  induction rest generalizing threads best pos before with
  | nil => exact keeps _ _ _ found
  | cons c rest ih => exact ih (keeps _ _ _ found)

/-- If a match can be reached, one is found. -/
theorem pursue_isSome_of_live {threads : List Thread} {t : Thread} {best : Option Found} {pos : Nat}
    {before : Option Char} {rest : List Char} (few : threads.length ≤ p.code.size + 3) (member : t ∈ threads)
    (live : Live p.code t.place ⟨pos, before, rest⟩) : (p.pursue threads best pos before rest).isSome := by
  -- A match found before does not count, so there might as well be one.
  have other : Found := ⟨0, ⟨0, none, []⟩, []⟩
  have eq : p.pursue (threads ++ []) best pos before rest = p.pursue threads (some other) pos before rest :=
    pursue_append_live (by simpa using few) member live
  rw [List.append_nil] at eq
  rw [eq]
  exact pursue_isSome_of_best rfl

/-- Ways at the end of a list only count if those before them lead nowhere. -/
theorem pursue_append {first second : List Thread} {pos : Nat} {before : Option Char} {rest : List Char}
    (few : (first ++ second).length ≤ p.code.size + 3) :
    p.pursue (first ++ second) none pos before rest =
      (p.pursue first none pos before rest).or (p.pursue second none pos before rest) := by
  have lengths : (first ++ second).length = first.length + second.length := List.length_append
  by_cases some_ : ∃ t ∈ first, Live p.code t.place ⟨pos, before, rest⟩
  · obtain ⟨t, member, live⟩ := some_
    have found : (p.pursue first none pos before rest).isSome := pursue_isSome_of_live (by omega) member live
    have same : p.pursue (first ++ second) none pos before rest = p.pursue first none pos before rest :=
      pursue_append_live few member live
    rw [same]
    obtain ⟨f, eq⟩ := Option.isSome_iff_exists.mp found
    simp [eq]
  · have dead : ∀ t ∈ first, ¬ Live p.code t.place ⟨pos, before, rest⟩ :=
      fun t member live => some_ ⟨t, member, live⟩
    rw [pursue_dead (by omega) dead, Option.none_or]
    exact pursue_sameLive few (by omega) (SameLive.of_dead dead (SameLive.refl second))

theorem searchFrom_some {threads : List Thread} {best : Found} {pos : Nat} {before : Option Char}
    {rest : List Char} :
    p.searchFrom threads (some best) pos before rest = p.pursue threads (some best) pos before rest := by
  induction rest generalizing threads best pos before with
  | nil =>
    rw [searchFrom]
    cases threads with
    | nil => simp [pursue_nil]
    | cons t threads => rfl
  | cons c rest ih =>
    rw [searchFrom]
    cases threads with
    | nil => simp [pursue_nil]
    | cons t threads =>
      simp only [pursue, settled, Option.isNone_some, Bool.false_eq_true, if_false, List.isEmpty_cons]
      cases (p.frontAt ⟨pos, before, c :: rest⟩ (t :: threads)).accepted <;> exact ih

/-- The ways under way come first, then the starts in order. -/
theorem searchFrom_none {threads : List Thread} {pos : Nat} {before : Option Char} {rest : List Char}
    (few : threads.length ≤ p.code.size + 2) :
    p.searchFrom threads none pos before rest =
      (p.pursue threads none pos before rest).or
        ((Spot.fromPlace pos before rest).findSome? p.matchAt) := by
  induction rest generalizing threads pos before with
  | nil =>
    rw [searchFrom]
    have joined : p.pursue (threads ++ [⟨p.start, pos, []⟩]) none pos before [] =
        (p.pursue threads none pos before []).or (p.pursue [⟨p.start, pos, []⟩] none pos before []) :=
      pursue_append (by simpa using few)
    simp only [Option.isNone_none, if_true, List.isEmpty_iff, List.append_eq_nil_iff, List.cons_ne_nil,
      and_false, if_false]
    rw [Spot.fromPlace, List.findSome?_singleton, matchAt, ← joined]
    rfl
  | cons c rest ih =>
    rw [searchFrom]
    have enough : (threads ++ [(⟨p.start, pos, []⟩ : Thread)]).length ≤ p.code.size + 3 := by simpa using few
    have joined : p.pursue (threads ++ [⟨p.start, pos, []⟩]) none pos before (c :: rest) =
        (p.pursue threads none pos before (c :: rest)).or
          (p.pursue [⟨p.start, pos, []⟩] none pos before (c :: rest)) :=
      pursue_append enough
    have bound := frontAt_onward_length (s := ⟨pos, before, c :: rest⟩) enough
    simp only [Option.isNone_none, if_true, List.isEmpty_iff, List.append_eq_nil_iff, List.cons_ne_nil,
      and_false, if_false]
    have here : (Spot.fromPlace pos before (c :: rest)).findSome? p.matchAt =
        (p.pursue [⟨p.start, pos, []⟩] none pos before (c :: rest)).or
          ((Spot.fromPlace (pos + c.utf8Size) (some c) rest).findSome? p.matchAt) := by
      simp only [Spot.fromPlace, List.findSome?_cons, matchAt]
      cases p.pursue [⟨p.start, pos, []⟩] none pos before (c :: rest) <;> rfl
    rw [here, ← Option.or_assoc, ← joined]
    simp only [pursue, settled]
    cases accepted : (p.frontAt ⟨pos, before, c :: rest⟩ (threads ++ [⟨p.start, pos, []⟩])).accepted with
    | none => exact ih (by omega)
    | some t =>
      simp only [searchFrom_some]
      have found : (p.pursue
          (p.frontAt ⟨pos, before, c :: rest⟩ (threads ++ [⟨p.start, pos, []⟩])).onward.reverse
          (some ⟨t.start, ⟨pos, before, c :: rest⟩, t.marks⟩) (pos + c.utf8Size) (some c) rest).isSome :=
        pursue_isSome_of_best rfl
      obtain ⟨f, eq⟩ := Option.isSome_iff_exists.mp found
      rw [eq, Option.some_or]

/-- A search finds what trying one spot after another finds. -/
theorem search_eq (p : Program) (s : Spot) : p.search s = s.onward.findSome? p.matchAt := by
  rw [search, searchFrom_none (by simp), pursue_nil, Option.none_or, Spot.onward]

/-- A match that the program leads to from a spot. -/
def Reached (p : Program) (origin : Spot) (f : Found) : Prop :=
  f.start = origin.pos ∧ ∃ k, Ends p.code f.stop f.marks k p.start origin []

theorem settled_reached {origin s : Spot} {threads : List Thread} {best : Option Found} {f : Found}
    (few : threads.length ≤ p.code.size + 3) (comes : ∀ t ∈ threads, Comes p.code p.start origin s t)
    (known : ∀ f, best = some f → p.Reached origin f)
    (found : settled (p.frontAt s threads) s best = some f) : p.Reached origin f := by
  obtain ⟨_, accepted⟩ := (frontAt_follows few).comes comes
  simp only [settled] at found
  split at found
  · next t eq =>
    cases found
    rcases accepted t eq with old | reached
    · cases old
    · exact reached
  · exact known f found

/-- What is found starts and ends where the program leads to. -/
theorem pursue_reached {origin : Spot} {threads : List Thread} {best : Option Found} {f : Found} {pos : Nat}
    {before : Option Char} {rest : List Char} (few : threads.length ≤ p.code.size + 3)
    (comes : ∀ t ∈ threads, Comes p.code p.start origin ⟨pos, before, rest⟩ t)
    (known : ∀ f, best = some f → p.Reached origin f)
    (found : p.pursue threads best pos before rest = some f) : p.Reached origin f := by
  induction rest generalizing threads best pos before with
  | nil => exact settled_reached few comes known found
  | cons c rest ih =>
    have bound := frontAt_onward_length (s := ⟨pos, before, c :: rest⟩) few
    obtain ⟨onward, _⟩ := (frontAt_follows (s := ⟨pos, before, c :: rest⟩) few).comes comes
    have comesNext : ∀ u ∈ (p.frontAt ⟨pos, before, c :: rest⟩ threads).onward.reverse,
        Comes p.code p.start origin ⟨pos + c.utf8Size, some c, rest⟩ u := by
      intro u member
      rcases onward u (List.mem_reverse.mp member) with old | ⟨c', rest', text, reached⟩
      · cases old
      · simp only [List.cons.injEq] at text
        obtain ⟨rfl, rfl⟩ := text
        exact reached
    exact ih (by omega) comesNext (fun f => settled_reached few comes known) found

theorem matchAt_reached {s : Spot} {f : Found} (found : p.matchAt s = some f) : p.Reached s f := by
  refine pursue_reached (by simp) ?_ (by simp) found
  simp only [List.mem_singleton, forall_eq]
  exact ⟨rfl, fun stop final n ends => ⟨n, ends⟩⟩

theorem matchAt_isSome {s : Spot} : (p.matchAt s).isSome ↔ Live p.code p.start s := by
  constructor
  · intro found
    obtain ⟨f, eq⟩ := Option.isSome_iff_exists.mp found
    obtain ⟨_, k, ends⟩ := matchAt_reached eq
    exact ends.live
  · intro live
    exact pursue_isSome_of_live (t := ⟨p.start, s.pos, []⟩) (by simp) (by simp) live

/-- A search finds the match at the first spot that has one. -/
theorem search_some {s : Spot} {f : Found} (found : p.search s = some f) :
    ∃ o w, Spot.Reads s w o ∧ p.matchAt o = some f ∧
      ∀ u v, Spot.Reads s v u → u.pos < o.pos → p.matchAt u = none := by
  rw [search_eq, List.findSome?_eq_some_iff] at found
  obtain ⟨passed, o, later, eq, here, none_⟩ := found
  obtain ⟨w, reads⟩ := Spot.mem_onward.mp (show o ∈ s.onward by simp [eq])
  refine ⟨o, w, reads, here, ?_⟩
  intro u v readsU lt
  have member : u ∈ s.onward := Spot.mem_onward.mpr ⟨v, readsU⟩
  have order := s.onward_pairwise
  rw [eq, List.pairwise_append, List.pairwise_cons] at order
  rw [eq, List.mem_append, List.mem_cons] at member
  rcases member with member | rfl | member
  · exact none_ u member
  · omega
  · have := order.2.1.1 u member
    omega

theorem search_none {s : Spot} :
    p.search s = none ↔ ∀ u w, Spot.Reads s w u → p.matchAt u = none := by
  rw [search_eq, List.findSome?_eq_none_iff]
  constructor
  · intro none_ u w reads
    exact none_ u (Spot.mem_onward.mpr ⟨w, reads⟩)
  · intro none_ u member
    obtain ⟨w, reads⟩ := Spot.mem_onward.mp member
    exact none_ u w reads

/-- A search from a later spot finds the same, unless the match is passed. -/
theorem search_restart {s t : Spot} {w : List Char} (reads : Spot.Reads s w t) :
    p.search s = p.search t ∨ ∃ f, p.search s = some f ∧ f.start < t.pos := by
  obtain ⟨passed, eq, before⟩ := reads.onward_eq
  rw [search_eq, search_eq, eq, List.findSome?_append]
  cases found : passed.findSome? p.matchAt with
  | none => exact .inl (Option.none_or)
  | some f =>
    obtain ⟨u, member, here⟩ := List.exists_of_findSome?_eq_some found
    have start := (matchAt_reached here).1
    have := before u member
    exact .inr ⟨f, rfl, by omega⟩

end Program

end Gloss.Regex

import Gloss.Proofs.Numbered
import Gloss.Registry
import Mathlib.Data.List.Basic
import Mathlib.Data.List.Induction

/-!
The registry as a map. A language that is added takes its codes from those before it, one by one, and a language that
is removed goes with all the codes that it still holds. A plain map from codes to the change that the code is due to
says the same without any entries: `owner`. The entries of a registry are the languages that still hold a code, in the
order in which they were added, each with the codes that it holds (`entries_after`).
-/
namespace Gloss.Registry

/-- A change of a registry. -/
inductive Change where
  | add (e : Entry)
  | remove (code : String)

def change (r : Registry) : Change → Registry
  | .add e => r.add e
  | .remove code => r.remove code

/-- The registry after a history of changes, the first one first. -/
def after (history : List Change) : Registry := history.foldl change {}

/-- The number of the change that a code is due to, for changes of which the latest comes first. The last language that
has the code takes it; a code that is removed frees all codes that are due to the same change. -/
def ownerBefore : List Change → String → Option Nat
  | [], _ => none
  | .add e :: earlier, code => if e.hasCode code then some earlier.length else ownerBefore earlier code
  | .remove gone :: earlier, code =>
    if ownerBefore earlier code = ownerBefore earlier gone then none else ownerBefore earlier code

/-- The number of the change that a code is due to. -/
def owner (history : List Change) (code : String) : Option Nat := ownerBefore history.reverse code

/-- A language with those of its codes that satisfy a condition, if there are any. -/
def Entry.narrow (keep : String → Bool) (e : Entry) : Option Entry :=
  let codes := e.codes.filter keep
  if codes.isEmpty then none else some { e with codes }

/-- The language that a change added, with the codes that it still holds, if there are any. -/
def standing (history : List Change) (n : Nat) : Option Entry :=
  match history[n]? with
  | some (.add e) => e.narrow fun code => owner history code == some n
  | _ => none

section Codes

variable {a b c : String} {e : Entry}

theorem sameCode_iff : sameCode a b ↔ a.map Char.toLower = b.map Char.toLower := by
  rw [sameCode, beq_iff_eq]

theorem sameCode_comm (a b : String) : sameCode a b = sameCode b a := by
  rw [Bool.eq_iff_iff, sameCode_iff, sameCode_iff, eq_comm]

theorem hasCode_iff : e.hasCode a ↔ ∃ b ∈ e.codes, sameCode b a := by
  rw [Entry.hasCode, List.any_eq_true]

theorem hasCode_of_mem (member : a ∈ e.codes) : e.hasCode a :=
  hasCode_iff.mpr ⟨a, member, sameCode_iff.mpr rfl⟩

/-- A language cannot tell two codes apart that are the same. -/
theorem hasCode_congr (same : sameCode a b) (e : Entry) : e.hasCode a = e.hasCode b := by
  rw [sameCode_iff] at same
  simp only [Entry.hasCode, sameCode, same]

theorem owner_congr (same : sameCode a b) (history : List Change) : owner history a = owner history b := by
  unfold owner
  induction history.reverse with
  | nil => rfl
  | cons latest earlier ih =>
    cases latest with
    | add e => simp only [ownerBefore, hasCode_congr same e, ih]
    | remove gone => simp only [ownerBefore, ih]

end Codes

section Narrow

variable {p q : String → Bool} {e f : Entry}

theorem narrow_eq_some (h : e.narrow p = some f) :
    f = { e with codes := e.codes.filter p } ∧ ∃ code ∈ e.codes, p code := by
  simp only [Entry.narrow] at h
  split at h
  · cases h
  · next some_ =>
    obtain ⟨code, member⟩ := List.exists_mem_of_ne_nil _ (mt List.isEmpty_iff.mpr some_)
    exact ⟨(Option.some.inj h).symm, code, List.mem_filter.mp member⟩

theorem narrow_eq_none (h : ∀ code ∈ e.codes, p code = false) : e.narrow p = none := by
  have empty : e.codes.filter p = [] := List.filter_eq_nil_iff.mpr fun code member => by simp [h code member]
  simp only [Entry.narrow, empty, List.isEmpty_nil, if_true]

theorem narrow_congr (h : ∀ code ∈ e.codes, p code = q code) : e.narrow p = e.narrow q := by
  simp only [Entry.narrow, List.filter_congr h]

/-- Narrowing twice keeps what satisfies both conditions. -/
theorem narrow_narrow (e : Entry) : (e.narrow p).bind (Entry.narrow q) = e.narrow fun code => q code && p code := by
  have both : (e.codes.filter p).filter q = e.codes.filter fun code => q code && p code := List.filter_filter
  simp only [Entry.narrow]
  split
  · next empty =>
    rw [List.isEmpty_iff.mp empty] at both
    simp [← both]
  · simp only [Option.bind_some, Entry.narrow, both]

end Narrow

theorem dropCode_eq (entries : List Entry) (code : String) :
    dropCode entries code = entries.filterMap (Entry.narrow fun c => !sameCode c code) := by
  unfold dropCode
  induction entries with
  | nil => rfl
  | cons e entries ih =>
    rw [List.map_cons, List.filter_cons, List.filterMap_cons, ih, Entry.narrow]
    cases (e.codes.filter fun c => !sameCode c code).isEmpty <;> rfl

/-- A language that is added leaves to those before it what none of its codes is the same as. -/
theorem foldl_dropCode (codes : List String) {entries : List Entry} (held : ∀ e ∈ entries, e.codes ≠ []) :
    codes.foldl dropCode entries = entries.filterMap (Entry.narrow fun c => !codes.any (sameCode · c)) := by
  induction codes generalizing entries with
  | nil =>
    have same : ∀ e ∈ entries, e.narrow (fun c => !([] : List String).any (sameCode · c)) = some e := by
      intro e member
      simp [Entry.narrow, held e member]
    rw [List.filterMap_congr same, List.filterMap_some]
    rfl
  | cons code codes ih =>
    rw [List.foldl_cons, dropCode_eq, ih, List.filterMap_filterMap]
    · congr 1
      funext e
      rw [narrow_narrow]
      refine narrow_congr fun c _ => ?_
      rw [List.any_cons, Bool.not_or, sameCode_comm c code, Bool.and_comm]
    · intro e member
      obtain ⟨f, _, narrowed⟩ := List.mem_filterMap.mp member
      obtain ⟨rfl, c, inCodes, keeps⟩ := narrow_eq_some narrowed
      exact List.ne_nil_of_mem (List.mem_filter.mpr ⟨inCodes, keeps⟩)

section Histories

variable {history : List Change} {e : Entry} {code gone : String} {n : Nat}

@[simp] theorem owner_nil (code : String) : owner [] code = none := rfl

theorem owner_add (history : List Change) (e : Entry) (code : String) :
    owner (history ++ [.add e]) code = if e.hasCode code then some history.length else owner history code := by
  rw [owner, List.reverse_append, ← List.length_reverse]
  rfl

theorem owner_remove (history : List Change) (gone code : String) :
    owner (history ++ [.remove gone]) code =
      if owner history code = owner history gone then none else owner history code := by
  rw [owner, List.reverse_append]
  rfl

theorem after_append (history : List Change) (c : Change) : after (history ++ [c]) = (after history).change c := by
  simp only [after, List.foldl_append, List.foldl_cons, List.foldl_nil]

/-- A code is due to a change that added a language with it. -/
theorem added_of_owner (h : owner history code = some n) : ∃ e, history[n]? = some (.add e) ∧ e.hasCode code := by
  induction history using List.reverseRecOn generalizing code n with
  | nil => cases h
  | append_singleton history c ih =>
    have earlier : owner history code = some n → ∃ e, (history ++ [c])[n]? = some (.add e) ∧ e.hasCode code := by
      intro h
      obtain ⟨e, found, has⟩ := ih h
      exact ⟨e, by rw [List.getElem?_append_left (List.getElem?_eq_some_iff.mp found).1, found], has⟩
    cases c with
    | add e =>
      rw [owner_add] at h
      split at h
      · next has =>
        obtain rfl := Option.some.inj h
        exact ⟨e, by simp, has⟩
      · exact earlier h
    | remove gone =>
      rw [owner_remove] at h
      split at h
      · cases h
      · exact earlier h

/-- What stands of a language are the codes that are due to the change that added it. -/
theorem standing_eq_some (h : standing history n = some e) : ∃ f, history[n]? = some (.add f) ∧
    e = { f with codes := f.codes.filter fun code => owner history code == some n } ∧ e.codes ≠ [] := by
  simp only [standing] at h
  split at h
  · next f found =>
    obtain ⟨rfl, code, member, due⟩ := narrow_eq_some h
    exact ⟨f, found, rfl, List.ne_nil_of_mem (List.mem_filter.mpr ⟨member, due⟩)⟩
  · cases h

/-- What stands of a language has the codes that are due to the change that added it. -/
theorem standing_hasCode_iff :
    (∃ e, standing history n = some e ∧ e.hasCode code) ↔ owner history code = some n := by
  constructor
  · rintro ⟨e, stands, has⟩
    obtain ⟨f, _, rfl, _⟩ := standing_eq_some stands
    obtain ⟨code', member, same⟩ := hasCode_iff.mp has
    rw [← owner_congr same]
    exact beq_iff_eq.mp (List.mem_filter.mp member).2
  · intro due
    obtain ⟨e, found, has⟩ := added_of_owner due
    obtain ⟨code', member, same⟩ := hasCode_iff.mp has
    have member' : code' ∈ e.codes.filter fun code => owner history code == some n :=
      List.mem_filter.mpr ⟨member, by rw [owner_congr same, due, beq_self_eq_true]⟩
    have some_ := mt List.isEmpty_iff.mp (List.ne_nil_of_mem member')
    refine ⟨{ e with codes := e.codes.filter fun code => owner history code == some n }, ?_,
      hasCode_iff.mpr ⟨code', member', same⟩⟩
    rw [standing, found]
    exact if_neg some_

/-- A change says what it said, whatever comes after it. -/
theorem standing_append (history : List Change) (c : Change) (less : n < history.length) :
    standing (history ++ [c]) n = match history[n]? with
      | some (.add e) => e.narrow fun code => owner (history ++ [c]) code == some n
      | _ => none := by
  rw [standing, List.getElem?_append_left less]

/-- A language that is added takes its codes from those before it. -/
theorem standing_add (e : Entry) (less : n < history.length) :
    standing (history ++ [.add e]) n =
      (standing history n).bind (Entry.narrow fun c => !e.codes.any (sameCode · c)) := by
  rw [standing_append history _ less, standing]
  split
  · rw [narrow_narrow]
    refine narrow_congr fun code _ => ?_
    rw [owner_add]
    have other : history.length ≠ n := by omega
    cases has : e.hasCode code <;> rw [Entry.hasCode] at has <;> simp [has, other]
  · rfl

/-- The language that a removed code is due to goes, with all its codes; the others stay as they are. -/
theorem standing_remove (gone : String) (less : n < history.length) :
    standing (history ++ [.remove gone]) n = (standing history n).filter fun e => !e.hasCode gone := by
  have due : ∀ code, owner (history ++ [.remove gone]) code = some n ↔
      owner history code = some n ∧ owner history gone ≠ some n := by
    intro code
    rw [owner_remove]
    split
    · next freed => simp [freed]
    · next other => exact ⟨fun eq => ⟨eq, fun eq' => other (eq.trans eq'.symm)⟩, And.left⟩
  by_cases mine : owner history gone = some n
  · obtain ⟨f, stands, has⟩ := standing_hasCode_iff.mpr mine
    rw [stands, Option.filter_some_neg (by simp [has]), standing_append history _ less]
    split
    · exact narrow_eq_none fun code _ => by simp [due, mine]
    · rfl
  · have stays : (standing history n).filter (fun e => !e.hasCode gone) = standing history n := by
      cases stands : standing history n with
      | none => rfl
      | some f =>
        have other : ¬ f.hasCode gone := fun has => mine (standing_hasCode_iff.mp ⟨f, stands, has⟩)
        exact Option.filter_some_pos (by simp [other])
    rw [stays, standing_append history _ less, standing]
    split
    · refine narrow_congr fun code _ => ?_
      rw [Bool.eq_iff_iff, beq_iff_eq, beq_iff_eq, due]
      exact ⟨And.left, fun eq => ⟨eq, mine⟩⟩
    · rfl

/-- The entries of a registry are what stands of the languages that were added. -/
theorem entries_after (history : List Change) :
    (after history).entries = (List.range history.length).filterMap (standing history) := by
  induction history using List.reverseRecOn with
  | nil => rfl
  | append_singleton history c ih =>
    -- The latest change comes last in the entries; what it does to those before it is `f`.
    have others (f : Nat → Option Entry)
        (same : ∀ n, n < history.length → standing (history ++ [c]) n = f n) :
        (List.range (history ++ [c]).length).filterMap (standing (history ++ [c])) =
          (List.range history.length).filterMap f ++ (standing (history ++ [c]) history.length).toList := by
      rw [List.length_append, List.length_singleton, List.range_succ, List.filterMap_append,
        List.filterMap_congr fun n member => same n (List.mem_range.mp member), List.filterMap_cons, List.filterMap_nil]
      cases standing (history ++ [c]) history.length <;> rfl
    have held : ∀ e ∈ (after history).entries, e.codes ≠ [] := by
      rw [ih]
      intro e member
      obtain ⟨n, _, stands⟩ := List.mem_filterMap.mp member
      obtain ⟨_, _, _, some_⟩ := standing_eq_some stands
      exact some_
    rw [after_append]
    cases c with
    | add e =>
      rw [others _ fun n less => standing_add e less, ← List.filterMap_filterMap, ← ih, ← foldl_dropCode _ held]
      have own : ∀ code ∈ e.codes, (owner (history ++ [.add e]) code == some history.length) = true := by
        intro code member
        rw [owner_add, if_pos (hasCode_of_mem member), beq_self_eq_true]
      have last : standing (history ++ [.add e]) history.length = if e.codes.isEmpty then none else some e := by
        simp [standing, Entry.narrow, List.filter_eq_self.mpr own]
      rw [last, change, add]
      cases e.codes.isEmpty <;> simp
    | remove gone =>
      rw [others _ fun n less => standing_remove gone less]
      have last : standing (history ++ [.remove gone]) history.length = none := by simp [standing]
      rw [last, Option.toList_none, List.append_nil, ← List.filter_filterMap, ← ih]
      rfl

/-- A code is found with the language that it is due to. -/
theorem found_after (history : List Change) (code : String) :
    entry? (after history) code = (owner history code).bind (standing history) := by
  have due : ∀ n, (standing history n).any (·.hasCode code) = decide (owner history code = some n) := by
    intro n
    rw [Bool.eq_iff_iff, decide_eq_true_iff, ← standing_hasCode_iff, Option.any_eq_true]
  rw [ entry?, entries_after, List.find?_filterMap]
  simp only [due]
  cases eq : owner history code with
  | none => simp
  | some n =>
    obtain ⟨e, found, _⟩ := added_of_owner eq
    have less := (List.getElem?_eq_some_iff.mp found).1
    have first : (List.range history.length).find? (fun m => decide (some n = some m)) = some n := by
      refine List.find?_eq_some_iff_getElem.mpr ⟨by simp, n, by simpa using less, by simp, ?_⟩
      intro m before
      simp only [List.getElem_range, Option.some.injEq, Bool.not_eq_true', decide_eq_false_iff_not]
      omega
    rw [first]

/-- A code is due to the last change that added a language with it, if no removal since then met a code that was due to
that change. -/
structure DueTo (history : List Change) (code : String) (n : Nat) : Prop where
  added : ∃ e, history[n]? = some (.add e) ∧ e.hasCode code
  last : ∀ m e, n < m → history[m]? = some (.add e) → ¬ e.hasCode code
  kept : ∀ m gone, n < m → history[m]? = some (.remove gone) → owner (history.take m) gone ≠ some n

theorem dueTo_append {c : Change} : DueTo (history ++ [c]) code n ↔
    (n = history.length ∧ ∃ e, c = .add e ∧ e.hasCode code) ∨
      DueTo history code n ∧ (∀ e, c = .add e → ¬ e.hasCode code) ∧
        ∀ gone, c = .remove gone → owner history gone ≠ some n := by
  have before : ∀ {m}, m < history.length → (history ++ [c]).take m = history.take m :=
    fun less => List.take_append_of_le_length (Nat.le_of_lt less)
  constructor
  · rintro ⟨⟨e, found, has⟩, last, kept⟩
    rcases getElem?_append_single.mp found with found | ⟨rfl, rfl⟩
    · have less := (List.getElem?_eq_some_iff.mp found).1
      refine .inr ⟨⟨⟨e, found, has⟩, ?_, ?_⟩, ?_, ?_⟩
      · intro m f later at_
        exact last m f later (getElem?_append_single.mpr (.inl at_))
      · intro m gone later at_
        rw [← before (List.getElem?_eq_some_iff.mp at_).1]
        exact kept m gone later (getElem?_append_single.mpr (.inl at_))
      · intro f eq
        exact last _ f less (getElem?_append_single.mpr (.inr ⟨rfl, eq⟩))
      · intro gone eq
        have := kept _ gone less (getElem?_append_single.mpr (.inr ⟨rfl, eq⟩))
        rwa [List.take_left] at this
    · exact .inl ⟨rfl, e, rfl, has⟩
  · rintro (⟨rfl, e, rfl, has⟩ | ⟨⟨⟨e, found, has⟩, last, kept⟩, notAdded, notGone⟩)
    · refine ⟨⟨e, getElem?_append_single.mpr (.inr ⟨rfl, rfl⟩), has⟩, ?_, ?_⟩
      · intro m f later at_
        rw [List.getElem?_eq_none (by simp; omega)] at at_
        cases at_
      · intro m gone later at_
        rw [List.getElem?_eq_none (by simp; omega)] at at_
        cases at_
    · refine ⟨⟨e, getElem?_append_single.mpr (.inl found), has⟩, ?_, ?_⟩
      · intro m f later at_
        rcases getElem?_append_single.mp at_ with at_ | ⟨rfl, eq⟩
        · exact last m f later at_
        · exact notAdded f eq
      · intro m gone later at_
        rcases getElem?_append_single.mp at_ with at_ | ⟨rfl, eq⟩
        · rw [before (List.getElem?_eq_some_iff.mp at_).1]
          exact kept m gone later at_
        · rw [List.take_left]
          exact notGone gone eq

theorem owner_eq_some_iff : owner history code = some n ↔ DueTo history code n := by
  induction history using List.reverseRecOn generalizing n with
  | nil =>
    constructor
    · intro no
      cases no
    · rintro ⟨⟨e, no, _⟩, _, _⟩
      cases no
  | append_singleton history c ih =>
    rw [dueTo_append, ← ih]
    cases c with
    | add e =>
      rw [owner_add]
      split
      · next has => simp [has, eq_comm (a := n)]
      · next other => simp [other]
    | remove gone =>
      rw [owner_remove]
      split
      · next freed => simp [← freed]
      · next other =>
        have differs : owner history code = some n → owner history gone ≠ some n := fun eq eq' =>
          other (eq.trans eq'.symm)
        simpa using differs

/-- No two languages have a code in common. -/
theorem entries_apart (history : List Change) :
    (after history).entries.Pairwise fun e f => ∀ c ∈ e.codes, ∀ d ∈ f.codes, ¬ sameCode c d := by
  rw [entries_after]
  refine List.Pairwise.filterMap (R := (· < ·)) _ ?_ List.pairwise_lt_range
  intro m n less e standsE f standsF c inE d inF same
  have dueM := standing_hasCode_iff.mp ⟨e, standsE, hasCode_of_mem inE⟩
  have dueN := standing_hasCode_iff.mp ⟨f, standsF, hasCode_of_mem inF⟩
  rw [owner_congr same, dueN] at dueM
  have := Option.some.inj dueM
  omega

theorem codes_ne_nil (member : e ∈ (after history).entries) : e.codes ≠ [] := by
  rw [entries_after] at member
  obtain ⟨n, _, stands⟩ := List.mem_filterMap.mp member
  obtain ⟨_, _, _, some_⟩ := standing_eq_some stands
  exact some_

theorem defaultCode_after (history : List Change) : (after history).defaultCode = none := by
  induction history using List.reverseRecOn with
  | nil => rfl
  | append_singleton history c ih =>
    rw [after_append]
    cases c <;> exact ih

/-- The best of rated codes is one of them. -/
theorem mem_of_foldl_better {α : Type} (codeOf : α → String) (rate : α → Float) (l : List α)
    (best : Option (String × Float)) {code : String} {score : Float}
    (h : l.foldl (fun best a => better best (codeOf a) (rate a)) best = some (code, score)) :
    best = some (code, score) ∨ ∃ a ∈ l, codeOf a = code := by
  induction l generalizing best with
  | nil => exact .inl h
  | cons a l ih =>
    rcases ih _ h with first | ⟨b, member, eq⟩
    · simp only [better] at first
      split at first
      · exact .inr ⟨a, by simp, (Prod.mk.inj (Option.some.inj first)).1⟩
      · exact .inl first
    · exact .inr ⟨b, by simp [member], eq⟩

/-- A guess is the first code of a language. -/
theorem head_of_guess {text : String} {score : Float} (h : (after history).guess text = some (code, score)) :
    ∃ e ∈ (after history).entries, e.codes.head? = some code := by
  simp only [guess, defaultCode_after, Option.map_none, Option.orElse_eq_orElse, Option.orElse_eq_or,
    Option.or_none] at h
  obtain ⟨e, member, first⟩ := (mem_of_foldl_better _ _ _ _ h).resolve_left (by simp)
  refine ⟨e, member, ?_⟩
  obtain ⟨c, codes, eq⟩ := List.exists_cons_of_ne_nil (codes_ne_nil member)
  rw [eq] at first ⊢
  exact congrArg some first

end Histories

/-- A registry after any changes answers as the map from codes to the changes that they are due to. -/
theorem after_refines_map (history : List Change) :
    ((after history).entries.Pairwise fun e f => ∀ c ∈ e.codes, ∀ d ∈ f.codes, ¬ sameCode c d) ∧
      (∀ e ∈ (after history).entries, e.codes ≠ []) ∧
      (∀ text code score, (after history).guess text = some (code, score) →
        ∃ e ∈ (after history).entries, e.codes.head? = some code) ∧
      (∀ code n, owner history code = some n ↔ DueTo history code n) ∧
      (∀ code n e, owner history code = some n → history[n]? = some (.add e) →
        entry? (after history) code = some { e with codes := e.codes.filter (owner history · == some n) } ∧
          (after history).contains code = true ∧
          (after history).get code = e.factory (after history).highlighter) ∧
      (∀ code, owner history code = none → entry? (after history) code = none ∧
        (after history).contains code = false ∧ (after history).get code = .error (.unknownLanguage code)) ∧
      (after history).entries = (List.range history.length).filterMap (standing history) ∧
      (after history).languages =
        (List.range history.length).filterMap fun n => (standing history n).map fun e => (e.codes, e.description) := by
  refine ⟨entries_apart history, fun e => codes_ne_nil, fun text code score => head_of_guess,
    fun code n => owner_eq_some_iff, ?_, ?_, entries_after history, ?_⟩
  · intro code n e due found
    obtain ⟨f, stands, _⟩ := standing_hasCode_iff.mpr due
    obtain ⟨e', found', rfl, _⟩ := standing_eq_some stands
    obtain rfl : e = e' := by
      rw [found] at found'
      exact Change.add.inj (Option.some.inj found')
    have entry := found_after history code
    rw [due, Option.bind_some, stands] at entry
    exact ⟨entry, by rw [contains, entry, Option.isSome_some], by rw [get, make, entry]⟩
  · intro code free
    have entry := found_after history code
    rw [free, Option.bind_none] at entry
    exact ⟨entry, by rw [contains, entry, Option.isSome_none], by rw [get, make, entry]⟩
  · rw [languages, entries_after, List.map_filterMap]

end Gloss.Registry

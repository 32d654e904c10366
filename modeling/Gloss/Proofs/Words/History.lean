import Gloss.Proofs.Keyed
import Gloss.Proofs.Numbered
import Gloss.Proofs.Unicode.SmallLetters
import Gloss.WordMap
import Mathlib.Data.List.Induction

/-!
Kinds of words after a history of calls. A map keeps one pair for each word, under a key that depends on whether case
counts at the time; a history knows no keys. By the history a word has the kind that the latest call gave to a word which
is now the same, among the calls whose word was not removed since (`Latest`), and that is what the map answers. Where case
stops to count, words that become one must have one kind.
-/
namespace Gloss.WordMap

open Unicode (lowercase)

/-- A call on a map of words. -/
inductive Call where
  | add (kind : Kind) (words : List String)
  | remove (word : String)
  | ignoreCase
  deriving DecidableEq

def call (m : WordMap) : Call → WordMap
  | .add kind words => m.add kind words
  | .remove word => m.erase word
  | .ignoreCase => m.setCaseSensitive false

/-- A new map after a history of calls, the first one first. -/
def after (sensitive : Bool) (history : List Call) : WordMap := history.foldl call { caseSensitive := sensitive }

/-- Does case still count after a history? -/
def casing (sensitive : Bool) (history : List Call) : Bool := sensitive && !history.contains .ignoreCase

/-- Are two words the same, where case counts and where it does not? -/
def Same (casing : Bool) (a b : String) : Prop := if casing then a = b else lowercase a = lowercase b

/-- The call with the number `n` gave the kind to the word, and no call since removed the word. What a call removes is
judged by whether case counted then. -/
structure Stands (sensitive : Bool) (history : List Call) (n : Nat) (named : String) (kind : Kind) : Prop where
  given : ∃ words, history[n]? = some (.add kind words) ∧ named ∈ words
  kept : ∀ m gone, n < m → history[m]? = some (.remove gone) → ¬ Same (casing sensitive (history.take m)) named gone

/-- The call with the number `n` gave the kind to a word that is the same by now, and no call since removed that word. -/
def Gives (sensitive : Bool) (history : List Call) (n : Nat) (word : String) (kind : Kind) : Prop :=
  ∃ named, Stands sensitive history n named kind ∧ Same (casing sensitive history) named word

/-- The kind that the latest call gave to the word. -/
def Latest (sensitive : Bool) (history : List Call) (word : String) (kind : Kind) : Prop :=
  ∃ n, Gives sensitive history n word kind ∧ ∀ m other, Gives sensitive history m word other → m ≤ n

/-- Where case stops to count, no two words that have different kinds then become the same. -/
def FoldsClear (sensitive : Bool) (history : List Call) : Prop :=
  ∀ n, history[n]? = some .ignoreCase → casing sensitive (history.take n) →
    ∀ a b j k, Latest sensitive (history.take n) a j → Latest sensitive (history.take n) b k →
      lowercase a = lowercase b → j = k

section Same

variable {casing : Bool} {a b c : String}

theorem Same.symm (same : Same casing a b) : Same casing b a := by
  cases casing
  · exact Eq.symm (α := String) same
  · exact Eq.symm (α := String) same

theorem Same.trans (first : Same casing a b) (second : Same casing b c) : Same casing a c := by
  cases casing
  · exact Eq.trans (α := String) first second
  · exact Eq.trans (α := String) first second

end Same

section Histories

variable {sensitive : Bool} {history : List Call} {c : Call} {n : Nat} {word named gone : String} {kind k : Kind}
  {words : List String}

theorem after_append (sensitive : Bool) (history : List Call) (c : Call) :
    after sensitive (history ++ [c]) = (after sensitive history).call c := by
  simp only [after, List.foldl_append, List.foldl_cons, List.foldl_nil]

theorem casing_append (other : c ≠ .ignoreCase) : casing sensitive (history ++ [c]) = casing sensitive history := by
  simp [casing, other.symm]

theorem casing_ignoreCase (sensitive : Bool) (history : List Call) :
    casing sensitive (history ++ [.ignoreCase]) = false := by
  simp [casing]

theorem Stands.less (stands : Stands sensitive history n named kind) : n < history.length := by
  obtain ⟨_, found, _⟩ := stands.given
  exact (List.getElem?_eq_some_iff.mp found).1

/-- What one more call does: it gives a kind to words of its own, or it removes one. -/
theorem stands_append : Stands sensitive (history ++ [c]) n named kind ↔
    (n = history.length ∧ ∃ words, c = .add kind words ∧ named ∈ words) ∨
      Stands sensitive history n named kind ∧ ∀ gone, c = .remove gone → ¬ Same (casing sensitive history) named gone := by
  have before : ∀ {m}, m < history.length → (history ++ [c]).take m = history.take m :=
    fun less => List.take_append_of_le_length (Nat.le_of_lt less)
  constructor
  · rintro ⟨⟨words, found, listed⟩, kept⟩
    rcases getElem?_append_single.mp found with found | ⟨rfl, rfl⟩
    · have less := (List.getElem?_eq_some_iff.mp found).1
      refine .inr ⟨⟨⟨words, found, listed⟩, ?_⟩, ?_⟩
      · intro m gone later at_
        rw [← before (List.getElem?_eq_some_iff.mp at_).1]
        exact kept m gone later (getElem?_append_single.mpr (.inl at_))
      · intro gone eq
        have removed := kept _ gone less (getElem?_append_single.mpr (.inr ⟨rfl, eq⟩))
        rwa [List.take_left] at removed
    · exact .inl ⟨rfl, words, rfl, listed⟩
  · rintro (⟨rfl, words, rfl, listed⟩ | ⟨⟨⟨words, found, listed⟩, kept⟩, here⟩)
    · refine ⟨⟨words, getElem?_append_single.mpr (.inr ⟨rfl, rfl⟩), listed⟩, ?_⟩
      intro m gone later at_
      rw [List.getElem?_eq_none (by simp; omega)] at at_
      cases at_
    · refine ⟨⟨words, getElem?_append_single.mpr (.inl found), listed⟩, ?_⟩
      intro m gone later at_
      rcases getElem?_append_single.mp at_ with at_ | ⟨rfl, eq⟩
      · rw [before (List.getElem?_eq_some_iff.mp at_).1]
        exact kept m gone later at_
      · rw [List.take_left]
        exact here gone eq

theorem gives_add : Gives sensitive (history ++ [.add k words]) n word kind ↔
    (n = history.length ∧ kind = k ∧ ∃ named ∈ words, Same (casing sensitive history) named word) ∨
      Gives sensitive history n word kind := by
  simp only [Gives, stands_append, casing_append (c := .add k words) (by simp)]
  constructor
  · rintro ⟨named, ⟨rfl, words', eq, listed⟩ | ⟨stands, _⟩, same⟩
    · obtain ⟨rfl, rfl⟩ := Call.add.inj eq
      exact .inl ⟨rfl, rfl, named, listed, same⟩
    · exact .inr ⟨named, stands, same⟩
  · rintro (⟨rfl, rfl, named, listed, same⟩ | ⟨named, stands, same⟩)
    · exact ⟨named, .inl ⟨rfl, words, rfl, listed⟩, same⟩
    · exact ⟨named, .inr ⟨stands, by simp⟩, same⟩

/-- A removed word is no longer given a kind, and neither is any word that is the same. -/
theorem gives_remove : Gives sensitive (history ++ [.remove gone]) n word kind ↔
    ¬ Same (casing sensitive history) word gone ∧ Gives sensitive history n word kind := by
  simp only [Gives, stands_append, casing_append (c := .remove gone) (by simp)]
  constructor
  · rintro ⟨named, ⟨_, _, eq, _⟩ | ⟨stands, kept⟩, same⟩
    · cases eq
    · exact ⟨fun removed => kept gone rfl (same.trans removed), named, stands, same⟩
  · rintro ⟨kept, named, stands, same⟩
    refine ⟨named, .inr ⟨stands, ?_⟩, same⟩
    rintro _ ⟨⟩ removed
    exact kept (same.symm.trans removed)

/-- Where case stops to count, a word has what the words had that become the same. -/
theorem gives_ignoreCase (counts : casing sensitive history) :
    Gives sensitive (history ++ [.ignoreCase]) n word kind ↔
      ∃ a, lowercase a = lowercase word ∧ Gives sensitive history n a kind := by
  simp only [Gives, stands_append, casing_ignoreCase, counts]
  constructor
  · rintro ⟨named, ⟨_, _, eq, _⟩ | ⟨stands, _⟩, same⟩
    · cases eq
    · exact ⟨named, same, named, stands, rfl⟩
  · rintro ⟨a, same, named, stands, rfl⟩
    exact ⟨named, .inr ⟨stands, by simp⟩, same⟩

/-- Where case did not count before, it goes on not to count. -/
theorem gives_ignoreCase_again (counts : casing sensitive history = false) :
    Gives sensitive (history ++ [.ignoreCase]) n word kind ↔ Gives sensitive history n word kind := by
  simp only [Gives, stands_append, casing_ignoreCase, counts]
  constructor
  · rintro ⟨named, ⟨_, _, eq, _⟩ | ⟨stands, _⟩, same⟩
    · cases eq
    · exact ⟨named, stands, same⟩
  · rintro ⟨named, stands, same⟩
    exact ⟨named, .inr ⟨stands, by simp⟩, same⟩

theorem Gives.less (gives : Gives sensitive history n word kind) : n < history.length := by
  obtain ⟨_, stands, _⟩ := gives
  exact stands.less

/-- A call gives one kind. -/
theorem Gives.unique {other : String} (gives : Gives sensitive history n word kind)
    (gives' : Gives sensitive history n other k) : kind = k := by
  obtain ⟨_, ⟨⟨_, found, _⟩, _⟩, _⟩ := gives
  obtain ⟨_, ⟨⟨_, found', _⟩, _⟩, _⟩ := gives'
  rw [found] at found'
  exact (Call.add.inj (Option.some.inj found')).1

/-- If some call gives the word a kind, one of them is the latest. -/
theorem Gives.latest (gives : Gives sensitive history n word kind) : ∃ other, Latest sensitive history word other := by
  obtain ⟨last, ⟨other, holds⟩, above⟩ := exists_last (P := fun m => ∃ other, Gives sensitive history m word other)
    (fun m ⟨_, gives⟩ => gives.less) ⟨kind, gives⟩
  exact ⟨other, last, holds, fun m other gives => above m ⟨other, gives⟩⟩

theorem latest_congr {sensitive' : Bool} {history' : List Call} {word' : String}
    (same : ∀ n kind, Gives sensitive' history' n word' kind ↔ Gives sensitive history n word kind) :
    Latest sensitive' history' word' kind ↔ Latest sensitive history word kind := by
  simp only [Latest, same]

/-- A word to which the latest call gives a kind has that kind. -/
theorem latest_add_of_mem (here : ∃ named ∈ words, Same (casing sensitive history) named word) :
    Latest sensitive (history ++ [.add k words]) word kind ↔ kind = k := by
  have last : Gives sensitive (history ++ [.add k words]) history.length word k := gives_add.mpr (.inl ⟨rfl, rfl, here⟩)
  constructor
  · rintro ⟨n, gives, above⟩
    obtain rfl : n = history.length := by
      have le := above _ _ last
      have less := gives.less
      rw [List.length_append, List.length_singleton] at less
      omega
    exact gives.unique last
  · rintro rfl
    refine ⟨_, last, fun m other gives => ?_⟩
    have less := gives.less
    rw [List.length_append, List.length_singleton] at less
    omega

theorem latest_add_of_not_mem (elsewhere : ¬ ∃ named ∈ words, Same (casing sensitive history) named word) :
    Latest sensitive (history ++ [.add k words]) word kind ↔ Latest sensitive history word kind :=
  latest_congr fun n kind => by simp [gives_add, elsewhere]

theorem latest_remove : Latest sensitive (history ++ [.remove gone]) word kind ↔
    ¬ Same (casing sensitive history) word gone ∧ Latest sensitive history word kind := by
  by_cases removed : Same (casing sensitive history) word gone
  · simp [Latest, gives_remove, removed]
  · simp [Latest, gives_remove, removed]

/-- Where case stops to count and nothing clashes, a word gets the one kind of the words that become the same. -/
theorem latest_ignoreCase (counts : casing sensitive history)
    (clear : ∀ a b j k, Latest sensitive history a j → Latest sensitive history b k → lowercase a = lowercase b → j = k) :
    Latest sensitive (history ++ [.ignoreCase]) word kind ↔
      ∃ a, lowercase a = lowercase word ∧ Latest sensitive history a kind := by
  -- The latest of all calls for words that become the same is the latest for its own word too.
  have own : ∀ {kind}, Latest sensitive (history ++ [.ignoreCase]) word kind →
      ∃ a, lowercase a = lowercase word ∧ Latest sensitive history a kind := by
    rintro kind ⟨n, gives, above⟩
    obtain ⟨a, same, gives⟩ := (gives_ignoreCase counts).mp gives
    exact ⟨a, same, n, gives, fun m other gives' => above m other ((gives_ignoreCase counts).mpr ⟨a, same, gives'⟩)⟩
  refine ⟨own, ?_⟩
  rintro ⟨a, same, latest⟩
  have ⟨n, gives, _⟩ := latest
  obtain ⟨other, folded⟩ := ((gives_ignoreCase counts).mpr ⟨a, same, gives⟩).latest
  obtain ⟨b, same', latest'⟩ := own folded
  rwa [clear a b kind other latest latest' (same.trans same'.symm)]

end Histories

section Answers

variable {m : WordMap} {word : String} {kind k : Kind}

theorem key_eq_iff {a b : String} : m.key a = m.key b ↔ Same m.caseSensitive a b := by
  unfold key Same
  cases m.caseSensitive
  · exact Iff.rfl
  · exact Iff.rfl

theorem mem_map_key_iff {words : List String} :
    m.key word ∈ words.map m.key ↔ ∃ named ∈ words, Same m.caseSensitive named word := by
  simp only [List.mem_map, key_eq_iff]

theorem get?_add (m : WordMap) (kind : Kind) (words : List String) (word : String) :
    (m.add kind words).get? word = if m.key word ∈ words.map m.key then some kind else m.get? word :=
  Keyed.get?_foldl_put m.entries (m.key word) kind m.key words

theorem get?_erase (m : WordMap) (gone word : String) :
    (m.erase gone).get? word = if m.key word == m.key gone then none else m.get? word :=
  Keyed.get?_erase_eq m.entries (m.key gone) (m.key word)

/-- While case counts, the pairs are the words and their kinds. -/
theorem get?_eq_some_iff_mem (counts : m.caseSensitive) (once : m.entries.Once) :
    m.get? word = some kind ↔ (word, kind) ∈ m.entries := by
  simp only [WordMap.get?, key, counts, if_true]
  exact ⟨Keyed.mem_of_get?, once.get?_of_mem⟩

/-- Where case stops to count, a word gets the kind of some word that becomes the same. -/
theorem get?_ignoreCase (counts : m.caseSensitive) (once : m.entries.Once)
    (clear : ∀ a b j k, m.get? a = some j → m.get? b = some k → lowercase a = lowercase b → j = k) :
    (m.setCaseSensitive false).get? word = some kind ↔ ∃ a, lowercase a = lowercase word ∧ m.get? a = some kind := by
  have folded : (m.setCaseSensitive false).get? word =
      (m.entries.find? (lowercase ·.1 == lowercase word)).map (·.2) := by
    simp only [setCaseSensitive, counts, WordMap.get?, key]
    exact Keyed.get?_foldr_put m.entries (lowercase word) lowercase
  simp only [get?_eq_some_iff_mem counts once] at clear ⊢
  rw [folded, Option.map_eq_some_iff]
  constructor
  · rintro ⟨e, found, rfl⟩
    exact ⟨e.1, by simpa using List.find?_some found, List.mem_of_find?_eq_some found⟩
  · rintro ⟨a, same, member⟩
    have some_ : (m.entries.find? (lowercase ·.1 == lowercase word)).isSome :=
      List.find?_isSome.mpr ⟨_, member, by simpa using same⟩
    obtain ⟨e, found⟩ := Option.isSome_iff_exists.mp some_
    have same' : lowercase e.1 = lowercase word := by simpa using List.find?_some found
    exact ⟨e, found, clear _ _ _ _ (List.mem_of_find?_eq_some found) member (same'.trans same.symm)⟩

end Answers

/-- A map after a history: case counts as the calls say, words stand once and small where it does not count, and the map
answers with the latest kind. -/
structure Follows (sensitive : Bool) (history : List Call) (m : WordMap) : Prop where
  counts : m.caseSensitive = casing sensitive history
  once : m.entries.Once
  small : m.caseSensitive = false → ∀ e ∈ m.entries, lowercase e.1 = e.1
  get? : ∀ word kind, m.get? word = some kind ↔ Latest sensitive history word kind

namespace Follows

variable {sensitive : Bool} {history : List Call} {m : WordMap}

theorem new (sensitive : Bool) : Follows sensitive [] { caseSensitive := sensitive } where
  counts := by simp [casing]
  once := List.nodup_nil
  small := by simp
  get? word kind := by
    constructor
    · intro no
      cases no
    · rintro ⟨_, ⟨_, ⟨⟨_, no, _⟩, _⟩, _⟩, _⟩
      cases no

/-- Under a key that is not told apart by case the word is small. -/
theorem lowercase_key (no : m.caseSensitive = false) (word : String) : lowercase (m.key word) = m.key word := by
  simp [key, no]

theorem add (h : Follows sensitive history m) (kind : Kind) (words : List String) :
    Follows sensitive (history ++ [.add kind words]) (m.add kind words) where
  counts := h.counts.trans (casing_append (by simp)).symm
  once := h.once.foldl_put m.key kind words
  small no e member := by
    rcases Keyed.mem_foldl_put member with ⟨word, _, rfl⟩ | member
    · exact lowercase_key no word
    · exact h.small no e member
  get? word k := by
    rw [get?_add]
    by_cases here : ∃ named ∈ words, Same (casing sensitive history) named word
    · rw [latest_add_of_mem here, if_pos (mem_map_key_iff.mpr (h.counts ▸ here)), Option.some.injEq, eq_comm]
    · rw [latest_add_of_not_mem here, if_neg (mt mem_map_key_iff.mp (h.counts ▸ here)), h.get?]

theorem erase (h : Follows sensitive history m) (gone : String) :
    Follows sensitive (history ++ [.remove gone]) (m.erase gone) where
  counts := h.counts.trans (casing_append (by simp)).symm
  once := h.once.erase (m.key gone)
  small no e member := h.small no e (List.mem_filter.mp member).1
  get? word k := by
    have removed : m.key word = m.key gone ↔ Same (casing sensitive history) word gone := h.counts ▸ key_eq_iff
    rw [get?_erase, latest_remove, ← removed, ← h.get?]
    by_cases eq : m.key word = m.key gone
    · simp [eq]
    · simp [eq]

theorem ignoreCase (h : Follows sensitive history m)
    (clear : casing sensitive history → ∀ a b j k, Latest sensitive history a j → Latest sensitive history b k →
      lowercase a = lowercase b → j = k) :
    Follows sensitive (history ++ [.ignoreCase]) (m.setCaseSensitive false) := by
  cases counts : m.caseSensitive with
  | false =>
    have before : casing sensitive history = false := h.counts ▸ counts
    have same : m.setCaseSensitive false = m := by simp [setCaseSensitive, counts]
    rw [same]
    refine ⟨by rw [counts, casing_ignoreCase], h.once, h.small, fun word kind => ?_⟩
    rw [h.get?, latest_congr fun n kind => gives_ignoreCase_again before]
  | true =>
    have before : casing sensitive history = true := h.counts ▸ counts
    have moved : m.setCaseSensitive false =
        ⟨m.entries.foldr (fun e es => Keyed.put es (lowercase e.1) e.2) [], false⟩ := by
      simp [setCaseSensitive, counts]
    refine ⟨by rw [moved, casing_ignoreCase], ?_, ?_, fun word kind => ?_⟩
    · rw [moved]
      exact .foldr_put m.entries lowercase
    · rw [moved]
      intro _ e member
      obtain ⟨word, eq⟩ := Keyed.mem_foldr_put member
      rw [eq, Unicode.lowercase_lowercase]
    · rw [latest_ignoreCase before (clear before), get?_ignoreCase counts h.once]
      · simp only [h.get?]
      · simpa only [h.get?] using clear before

/-- Every call of a history. -/
theorem after (clear : FoldsClear sensitive history) : Follows sensitive history (after sensitive history) := by
  induction history using List.reverseRecOn with
  | nil => exact .new sensitive
  | append_singleton history c ih =>
    have earlier : Follows sensitive history (WordMap.after sensitive history) := by
      refine ih fun n at_ => ?_
      have less := (List.getElem?_eq_some_iff.mp at_).1
      have here := clear n (getElem?_append_single.mpr (.inl at_))
      rwa [List.take_append_of_le_length (Nat.le_of_lt less)] at here
    rw [after_append]
    cases c with
    | add kind words => exact earlier.add kind words
    | remove gone => exact earlier.erase gone
    | ignoreCase =>
      refine earlier.ignoreCase ?_
      have here := clear history.length (getElem?_append_single.mpr (.inr ⟨rfl, rfl⟩))
      rwa [List.take_left] at here

end Follows

section Clear

variable {sensitive : Bool} {history : List Call}

/-- As long as case counts it never stopped to. -/
theorem foldsClear_of_casing (counts : casing sensitive history) : FoldsClear sensitive history := by
  intro n at_
  have stopped : Call.ignoreCase ∈ history := List.mem_of_getElem? at_
  simp [casing, stopped] at counts

/-- The words of different kinds can be read off the map where case stops to count. -/
theorem foldsClear_iff : FoldsClear sensitive history ↔
    ∀ n < history.length, history[n]? = some .ignoreCase → casing sensitive (history.take n) →
      ∀ e ∈ (after sensitive (history.take n)).entries, ∀ f ∈ (after sensitive (history.take n)).entries,
        lowercase e.1 = lowercase f.1 → e.2 = f.2 := by
  have listed : ∀ n, casing sensitive (history.take n) → ∀ word kind,
      Latest sensitive (history.take n) word kind ↔ (word, kind) ∈ (after sensitive (history.take n)).entries := by
    intro n counts word kind
    have follows := Follows.after (foldsClear_of_casing counts)
    rw [← follows.get?, get?_eq_some_iff_mem (follows.counts.trans counts) follows.once]
  constructor
  · intro clear n _ at_ counts e member f member' same
    exact clear n at_ counts e.1 f.1 e.2 f.2 ((listed n counts _ _).mpr member) ((listed n counts _ _).mpr member') same
  · intro clear n at_ counts a b j k latest latest' same
    exact clear n (List.getElem?_eq_some_iff.mp at_).1 at_ counts _ ((listed n counts _ _).mp latest) _
      ((listed n counts _ _).mp latest') same

instance : Decidable (FoldsClear sensitive history) := decidable_of_iff _ foldsClear_iff.symm

end Clear

/-- After any history of calls a map answers with the kind that the latest call gave to a word which is now the same,
among the calls whose word was not removed since, and takes every other word for an identifier. Case may stop to count
where no two words of different kinds become the same; from then on the map keeps words in small letters only, and a
look-up depends on nothing but the small letters of the word. -/
theorem after_answers_latest (sensitive : Bool) (history : List Call) (clear : FoldsClear sensitive history) :
    let m := after sensitive history
    (∀ word kind, m.get? word = some kind ↔ Latest sensitive history word kind) ∧
      (∀ word kind, Latest sensitive history word kind → m.classify word = kind) ∧
      (∀ word, m.get? word = none ↔ ∀ n kind, ¬ Gives sensitive history n word kind) ∧
      (∀ word, (∀ n kind, ¬ Gives sensitive history n word kind) → m.classify word = .ident) ∧
      m.caseSensitive = casing sensitive history ∧
      (m.caseSensitive = false → (∀ e ∈ m.entries, lowercase e.1 = e.1) ∧
        ∀ a b, lowercase a = lowercase b → m.get? a = m.get? b) := by
  have follows := Follows.after clear
  have unknown : ∀ word, (after sensitive history).get? word = none ↔ ∀ n kind, ¬ Gives sensitive history n word kind := by
    intro word
    rw [Option.eq_none_iff_forall_ne_some]
    constructor
    · intro none_ n kind gives
      obtain ⟨other, latest⟩ := gives.latest
      exact none_ other ((follows.get? word other).mpr latest)
    · intro never kind found
      obtain ⟨n, gives, _⟩ := (follows.get? word kind).mp found
      exact never n kind gives
  refine ⟨follows.get?, ?_, unknown, ?_, follows.counts, fun no => ⟨follows.small no, ?_⟩⟩
  · intro word kind latest
    rw [classify, (follows.get? word kind).mpr latest, Option.getD_some]
  · intro word never
    rw [classify, (unknown word).mpr never, Option.getD_none]
  · intro a b same
    have key : (after sensitive history).key a = (after sensitive history).key b := key_eq_iff.mpr (no ▸ same)
    rw [WordMap.get?, WordMap.get?, key]

/-- Two spellings of one word and a removal with case, then a spelling and a removal without. -/
theorem after_answers_latest_respelled :
    let history : List Call := [.add .function ["Echo", "Print"], .add .keyword ["If", "echo"], .remove "echo",
      .add .keyword ["if"], .ignoreCase, .add .type ["IF"], .remove "PRINT"]
    FoldsClear true history ∧ Latest true history "ECHO" .function ∧ Latest true history "iF" .type ∧
      (after true history).classify "print" = .ident := by
  intro history
  have clear : FoldsClear true history := by decide +kernel
  obtain ⟨known, _, unknown, ident, _⟩ := after_answers_latest true history clear
  refine ⟨clear, (known _ _).mp ?_, (known _ _).mp ?_, ident _ ((unknown _).mp ?_)⟩
  · decide +kernel
  · decide +kernel
  · decide +kernel

end Gloss.WordMap

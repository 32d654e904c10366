import Gloss.Proofs.Keyed
import Gloss.Proofs.Scan.Recording

/-!
Handing a source over. What a scanner recorded is rendered as markup that shows the part of the source it
covered; a host that hands its source to a child records that markup, and goes on where the child stopped.
-/
namespace Gloss

open Text (Source)
open Markup (Shows WellNamed escapeChars)

namespace Grammar

/-- All kinds that the grammar gives to tokens can stand in tags. -/
structure Named (g : Grammar) : Prop where
  words : ∀ e ∈ g.words.entries, WellNamed e.2
  ruleMap : ∀ e ∈ g.ruleMap, ∀ kind, e.2 = some kind → WellNamed kind

theorem named_withFilters (name : String) : (withFilters name).Named :=
  ⟨by simp [withFilters], by simp [withFilters]⟩

namespace Named

variable {g : Grammar}

theorem wordsOf (h : g.Named) (kind : Kind) (words : List String) (named : WellNamed kind) :
    (g.wordsOf kind words).Named := by
  refine ⟨fun e member => ?_, h.ruleMap⟩
  rcases Keyed.mem_foldl_put member with ⟨_, _, rfl⟩ | member
  · exact named
  · exact h.words e member

theorem showAs (h : g.Named) (kind : Kind) (shown : Option Kind) (named : ∀ k, shown = some k → WellNamed k) :
    (g.showAs kind shown).Named := by
  refine ⟨h.words, ?_⟩
  intro e member
  rcases Keyed.mem_put member with rfl | member
  · exact named
  · exact h.ruleMap e member

/-- The kinds that filters see during a scan. -/
theorem context (h : g.Named) {s : ScanState} (defs : ∀ name kind, s.userDefs.get? name = some kind → WellNamed kind) :
    (g.context s).Named := by
  refine ⟨?_, defs, ?_⟩
  · intro word
    show WellNamed (g.words.classify word)
    simp only [WordMap.classify]
    cases found : g.words.get? word with
    | none => decide
    | some kind =>
      exact h.words _ (Keyed.mem_of_get? found)
  · intro kind shown found
    exact h.ruleMap _ (Keyed.mem_of_get? found) shown rfl

end Named

end Grammar

theorem Spells.append {Allowed : Token → Prop} {earlier added : List Token} {a b : List Char}
    (first : Spells Allowed earlier a) (second : Spells Allowed added b) : Spells Allowed (added ++ earlier) (a ++ b) := by
  induction second with
  | nil => simpa using first
  | push _ allowed shown named ih =>
    rw [← List.append_assoc]
    exact .push ih allowed shown named

theorem Spells.mono {Allowed Allowed' : Token → Prop} {latest : List Token} {w : List Char}
    (h : Spells Allowed latest w) (weaken : ∀ t, Allowed t → Allowed' t) : Spells Allowed' latest w := by
  induction h with
  | nil => exact .nil
  | push _ allowed shown named ih => exact .push ih (weaken _ allowed) shown named

/-- A state over the source that records a stream of tokens. -/
structure ScanState.Sane (src : Source) (s : ScanState) : Prop where
  sound : s.cursor.Sound src
  flat : s.outline = none
  defs : ∀ name kind, s.userDefs.get? name = some kind → WellNamed kind

/-- A state over the source in which nothing is recorded. -/
structure ScanState.Blank (src : Source) (s : ScanState) : Prop extends s.Sane src where
  empty : s.tokens.latest = []

namespace ScanState

variable {src : Source} {s : ScanState}

theorem blank_setSource (flat : s.outline = none) (src : Source) : (s.setSource src).Blank src := by
  refine ⟨⟨Cursor.sound_ofSource src, ?_, ?_⟩, rfl⟩
  · simp [setSource, clearOutput, flat]
  · intro name kind found
    cases found

theorem Sane.withCursor (h : s.Sane src) {c : Cursor} (sound : c.Sound src) : { s with cursor := c }.Sane src :=
  ⟨sound, h.flat, h.defs⟩

theorem Sane.setPos (h : s.Sane src) (pos : Nat) : (s.setPos pos).Sane src ∧ (s.setPos pos).pos = src.floor pos := by
  obtain ⟨sound, here⟩ := h.sound.setFloor pos
  exact ⟨h.withCursor sound, here⟩

theorem Sane.drained (h : s.Sane src) : ({ s with tokens := {} } : ScanState).Sane src := ⟨h.sound, h.flat, h.defs⟩

theorem Sane.recorded (h : s.Sane src) {Allowed : Token → Prop} (raw : ∀ kind text, Allowed (.raw kind text)) :
    Recorded src Allowed ⟨s.pos, s.tokens.latest⟩ s.pos s :=
  .nothing h.sound.here h.sound h.flat h.defs raw

end ScanState

theorem Recorded.sane {src : Source} {Allowed : Token → Prop} {start : Origin} {upTo : Nat} {s : ScanState}
    (h : Recorded src Allowed start upTo s) : s.Sane src := ⟨h.sound, h.flat, h.defs⟩

/-- Rendering shows what was recorded, and forgets it. -/
theorem Spells.tagged {g : Grammar} {s : ScanState} {w : List Char} (h : Spells g.Allowed s.tokens.latest w)
    (flat : s.outline = none) (renders : g.Renders (g.context s)) :
    Shows (g.tagged s).1.toList (escapeChars w) ∧ (g.tagged s).2 = { s with tokens := {} } := by
  simp only [Grammar.tagged, flat]
  exact ⟨renders.renderTokens h, trivial⟩

/-- The state of a scan is a part of its scanner. -/
class LawfulScanner (σ : Type) [Scanner σ] : Prop where
  state_withState (x : σ) (s : ScanState) : Scanner.state (Scanner.withState x s) = s
  grammar_withState (x : σ) (s : ScanState) : Scanner.grammar (Scanner.withState x s) = Scanner.grammar x
  interrupted_withState (x : σ) (s : ScanState) : Scanner.interrupted (Scanner.withState x s) = Scanner.interrupted x

namespace Scanner

variable {σ : Type} [Scanner σ] {src : Source} {Able : σ → Prop} {Allowed : Token → Prop}
  {Ends : σ → Nat → Bool → Prop} {Fails : σ → ScanError → Prop} {x y : σ}

/-- A scanner that covers the source wherever it begins: what it records from there on spells the source up to
where it stops. `Ends` says more about where it stops and whether it was interrupted, and `Fails` about how it may
fail. The scanner is able to go on elsewhere afterwards. -/
structure Covers (src : Source) (Able : σ → Prop) (Allowed : Token → Prop) (Ends : σ → Nat → Bool → Prop)
    (Fails : σ → ScanError → Prop) : Prop where
  sane : ∀ {x : σ}, Able x → (state x).Sane src
  renders : ∀ {x : σ}, Able x → (grammar x).Renders ((grammar x).context (state x))
  allows : ∀ {x : σ}, Able x → ∀ t, Allowed t → (grammar x).Allowed t
  withState : ∀ {x : σ} {s : ScanState}, Able x → s.Sane src → s.regions = (state x).regions → Able (withState x s)
  main : ∀ {x : σ}, Able x → Yields main x
    (fun _ y => Able y ∧ Recorded src Allowed ⟨pos x, (state x).tokens.latest⟩ (pos y) (state y) ∧
      Ends x (pos y) (interrupted y))
    (fun e _ => Fails x e)

namespace Covers

variable [LawfulScanner σ] (covers : Covers src Able Allowed Ends Fails)

include covers

theorem setPos (able : Able x) (target : Nat) :
    Able (setPos x target) ∧ pos (Scanner.setPos x target) = src.floor target ∧
      (state (Scanner.setPos x target)).tokens = (state x).tokens := by
  obtain ⟨sane, here⟩ := (covers.sane able).setPos target
  refine ⟨covers.withState able sane rfl, ?_, ?_⟩
  · rw [Scanner.setPos, pos, LawfulScanner.state_withState]
    exact here
  · rw [Scanner.setPos, LawfulScanner.state_withState]
    rfl

/-- Rendering what is recorded leaves the scanner able, with nothing recorded. -/
theorem tagged (able : Able x) {w : List Char} (spells : Spells Allowed (state x).tokens.latest w) :
    Shows (tagged x).1.toList (escapeChars w) ∧ Able (Scanner.tagged x).2 ∧ pos (Scanner.tagged x).2 = pos x ∧
      (state (Scanner.tagged x).2).tokens.latest = [] ∧ interrupted (Scanner.tagged x).2 = interrupted x := by
  have sane := covers.sane able
  obtain ⟨shows, rest⟩ := (spells.mono (covers.allows able)).tagged sane.flat (covers.renders able)
  have same : Scanner.tagged x =
      (((grammar x).tagged (state x)).1, Scanner.withState x { state x with tokens := {} }) := by
    rw [← rest]
    rfl
  rw [same]
  refine ⟨shows, covers.withState able sane.drained rfl, ?_, ?_, LawfulScanner.interrupted_withState _ _⟩
  · simp only [pos, LawfulScanner.state_withState]
    rfl
  · simp only [LawfulScanner.state_withState]

end Covers

end Scanner

/-- A scanner that is able to go on, with nothing recorded. -/
def Scanner.Waits {σ : Type} [Scanner σ] (Able : σ → Prop) (x : σ) : Prop :=
  Able x ∧ (Scanner.state x).tokens.latest = []

/-- A host that hands over records what the child covers. -/
theorem yields_delegate {σ : Type} [Scanner σ] [LawfulScanner σ] {src : Source} {Able : σ → Prop}
    {AllowedIn Allowed : Token → Prop} {Ends : σ → Nat → Bool → Prop} {Fails : σ → ScanError → Prop}
    (covers : Scanner.Covers src Able AllowedIn Ends Fails) {start : Origin} {host : ScanState} {child : Child σ}
    {wrap : Option Kind} {post : Bool → ScanState × Child σ → Prop} {fail : ScanError → ScanState × Child σ → Prop}
    (h : Recorded src Allowed start host.pos host) (waits : Scanner.Waits Able child.scanner)
    (allowed : ∀ out, Allowed (.markup wrap out)) (named : ∀ k, wrap = some k → WellNamed k)
    (next : ∀ (host' : ScanState) (x : σ), Recorded src Allowed start host'.pos host' → host.pos ≤ host'.pos →
      host'.regions = host.regions → Scanner.Waits Able x →
      Scanner.pos (Scanner.setPos child.scanner host.pos) = host.pos →
      Ends (Scanner.setPos child.scanner host.pos) host'.pos (Scanner.interrupted x) →
      post (Scanner.interrupted x) (host', ⟨x, if Scanner.interrupted x then some host'.pos else none⟩))
    (failed : ∀ e s, Fails (Scanner.setPos child.scanner host.pos) e → fail e s) :
    Yields (delegate wrap) (host, child) post fail := by
  obtain ⟨able, drained⟩ := waits
  obtain ⟨ableS, here, tokens⟩ := covers.setPos able host.pos
  have boundary : src.isBoundary host.pos := h.sound.here
  rw [Source.floor_of_isBoundary boundary] at here
  have run := covers.main ableS
  simp only [Yields, delegate] at run ⊢
  split at run
  · next y eq =>
    obtain ⟨ableY, recorded, ends⟩ := run
    simp only [eq]
    obtain ⟨added, latest, spells⟩ := recorded.spells
    rw [tokens, drained, List.append_nil] at latest
    rw [← latest] at spells
    obtain ⟨shows, ableT, posT, drainedT, interruptedT⟩ := covers.tagged ableY spells
    simp only [here] at shows recorded
    have le : host.pos ≤ Scanner.pos y := recorded.le
    rw [posT, Nat.max_eq_left le, interruptedT]
    have pushed : Recorded src Allowed start (Scanner.pos y) (host.record (.markup wrap (Scanner.tagged y).1)) :=
      h.push recorded.last le (allowed _) (Token.shown_markup rfl shows) named
    obtain ⟨sound, pos⟩ := pushed.sound.setPos recorded.last
    have at_ : ((host.record (.markup wrap (Scanner.tagged y).1)).setPos (Scanner.pos y)).pos = Scanner.pos y := pos
    have result := next ((host.record (.markup wrap (Scanner.tagged y).1)).setPos (Scanner.pos y))
      (Scanner.tagged y).2 (by rw [at_]; exact pushed.withCursor sound) (by rw [at_]; exact le)
      (by simp [ScanState.setPos]) ⟨ableT, drainedT⟩ here (by rw [at_, interruptedT]; exact ends)
    rw [at_, interruptedT] at result
    exact result
  · next e y eq =>
    simp only [eq]
    exact failed e _ run

end Gloss

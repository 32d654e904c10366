import Gloss.Proofs.Scan.Clear

/-!
Scanners in the hands of a host. Between two texts a host moves a scanner, lets it scan and renders what it has
recorded, in any order. An embedded scanner never fails whatever the host does, and each time it scans it covers one
segment of the source without a gap.
-/
namespace Gloss

open Text (Source)
open Markup (Shows escapeChars)

/-- What a host does with a scanner that has its source. -/
inductive HostCall where
  | setPos (pos : Nat)
  | main
  /-- Renders what is recorded and forgets it. -/
  | tagged
  deriving DecidableEq, Repr

namespace HostCall

variable {σ : Type} [Scanner σ]

def run : HostCall → EStateM ScanError σ Unit
  | .setPos pos => modify (Scanner.setPos · pos)
  | .main => Scanner.main
  | .tagged => do
    let _ ← modifyGet Scanner.tagged

def runAll : List HostCall → EStateM ScanError σ Unit
  | [] => return
  | call :: calls => do
    call.run
    runAll calls

/-- A host that scans, renders and moves on, again and again. -/
def rounds (positions : List Nat) : List HostCall := positions.flatMap fun pos => [.main, .tagged, .setPos pos]

end HostCall

namespace Scanner

variable {σ : Type} [Scanner σ] {src : Source} {Able : σ → Prop} {Allowed : Token → Prop}
  {Ends : σ → Nat → Bool → Prop} {x : σ} {w : List Char}

/-- One run of an embedded scanner covers a segment of the source. The tokens it records join to the segment, and
rendering all that is recorded shows what was there before and the segment. It stops at the end of the source,
where the markup around goes on or, just if it is interrupted, at the first tag of the server. -/
structure Segment (e : Embedding) (src : Source) (Closes : Nat → Prop) (x y : σ) : Prop where
  le : pos x ≤ pos y
  tokens : ∃ added, (state y).tokens.toList = (state x).tokens.toList ++ added ∧
    String.join (added.map (·.text)) = src.slice (pos x) (pos y)
  strips : Markup.strip (tagged y).1 = (state x).tokens.text ++ src.slice (pos x) (pos y)
  ended : pos y = src.size ∨ interrupted y ∨ Closes (pos y)
  interrupts : interrupted y ↔ src.At "<?" (pos y)
  server : interrupted y → e.server
  clear : e.server → src.Clear "<?" (pos x) (pos y)

/-- Whatever a host has done with the scanner, its next run covers a segment. -/
def Segments (e : Embedding) (src : Source) (Closes : Nat → Prop) (fresh : σ) : Prop :=
  ∀ calls : List HostCall, ∃ x y, HostCall.runAll calls fresh = .ok () x ∧ main x = .ok () y ∧
    Segment e src Closes x y

/-- Highlighting renders what a run over the whole text records. -/
theorem highlight_eq {text : String} {y : σ} (ran : main (setSource x (Source.ofString text)) = .ok () y) :
    highlight text x = .ok (tagged y).1 (tagged y).2 := by
  rw [highlight_run]
  simp only [bind, EStateM.bind, ran]
  rfl

namespace Covers

variable (covers : Covers src Able Allowed Ends fun _ _ => False)

include covers

/-- A run records the source from where it begins to where it stops. -/
theorem runs (able : Able x) (spells : Spells Allowed (state x).tokens.latest w) :
    ∃ y added, Scanner.main x = .ok () y ∧ Able y ∧ pos x ≤ pos y ∧ Ends x (pos y) (interrupted y) ∧
      (state y).tokens.latest = added ++ (state x).tokens.latest ∧ Spells Allowed added (src.between (pos x) (pos y)) ∧
      Spells Allowed (state y).tokens.latest (w ++ src.between (pos x) (pos y)) := by
  have run := covers.main able
  simp only [Yields] at run
  split at run
  · next y eq =>
    obtain ⟨able', recorded, ends⟩ := run
    obtain ⟨added, latest, more⟩ := recorded.spells
    refine ⟨y, added, eq, able', recorded.le, ends, latest, more, ?_⟩
    rw [latest]
    exact spells.append more
  · cases run

variable [LawfulScanner σ]

/-- A host leaves the scanner able, and what is recorded shows some text. -/
theorem runs_call (able : Able x) (spells : Spells Allowed (state x).tokens.latest w) (call : HostCall) :
    ∃ y v, call.run x = .ok () y ∧ Able y ∧ Spells Allowed (state y).tokens.latest v := by
  cases call with
  | setPos pos =>
    obtain ⟨able', _, tokens⟩ := covers.setPos able pos
    exact ⟨_, w, rfl, able', by rw [tokens]; exact spells⟩
  | main =>
    obtain ⟨y, _, ran, able', _, _, _, _, spells'⟩ := covers.runs able spells
    exact ⟨y, _, ran, able', spells'⟩
  | tagged =>
    obtain ⟨_, able', _, drained, _⟩ := covers.tagged able spells
    refine ⟨(Scanner.tagged x).2, [], rfl, able', ?_⟩
    rw [drained]
    exact .nil

theorem runs_all (able : Able x) (spells : Spells Allowed (state x).tokens.latest w) (calls : List HostCall) :
    ∃ y v, HostCall.runAll calls x = .ok () y ∧ Able y ∧ Spells Allowed (state y).tokens.latest v := by
  induction calls generalizing x w with
  | nil => exact ⟨x, w, rfl, able, spells⟩
  | cons call calls ih =>
    obtain ⟨y, v, ran, able', spells'⟩ := covers.runs_call able spells call
    obtain ⟨z, u, rans, able'', spells''⟩ := ih able' spells'
    refine ⟨z, u, ?_, able'', spells''⟩
    simp only [HostCall.runAll, bind, EStateM.bind, ran, rans]

/-- A host that renders each time before it moves on finds nothing recorded when it comes back. -/
theorem runs_rounds (able : Able x) (drained : (state x).tokens.latest = []) (positions : List Nat) :
    ∃ y, HostCall.runAll (HostCall.rounds positions) x = .ok () y ∧ Able y ∧ (state y).tokens.latest = [] := by
  induction positions generalizing x with
  | nil => exact ⟨x, rfl, able, drained⟩
  | cons position positions ih =>
    obtain ⟨y, _, ran, ableY, _, _, _, _, spells⟩ := covers.runs able (by rw [drained]; exact .nil)
    obtain ⟨_, ableT, _, drainedT, _⟩ := covers.tagged ableY spells
    obtain ⟨ableS, _, tokens⟩ := covers.setPos ableT position
    obtain ⟨z, rans, ableZ, drainedZ⟩ := ih ableS (by rw [tokens]; exact drainedT)
    refine ⟨z, ?_, ableZ, drainedZ⟩
    have turn : HostCall.runAll (HostCall.rounds (position :: positions)) x =
        HostCall.runAll (HostCall.rounds positions) (Scanner.setPos (Scanner.tagged y).2 position) := by
      simp only [HostCall.rounds, List.flatMap_cons, List.cons_append, List.nil_append, HostCall.runAll, HostCall.run,
        bind, EStateM.bind, ran]
      rfl
    rw [turn]
    exact rans

/-- Rendering what a run and those before it recorded shows the texts of both. -/
theorem strips {y : σ} (able : Able y) {text : List Char} (spells : Spells Allowed (state y).tokens.latest text) :
    Markup.strip (Scanner.tagged y).1 = String.ofList text := by
  obtain ⟨shows, _⟩ := covers.tagged able spells
  rw [Markup.strip, shows.stripChars, Markup.unescapeChars_escapeChars]

/-- A host that renders each time before it moves on sees the source from where the last run began. -/
theorem rounds (able : Able x) (drained : (state x).tokens.latest = []) (positions : List Nat) :
    ∃ y z, HostCall.runAll (HostCall.rounds positions) x = .ok () y ∧ Scanner.main y = .ok () z ∧ pos y ≤ pos z ∧
      Ends y (pos z) (interrupted z) ∧ Markup.strip (Scanner.tagged z).1 = src.slice (pos y) (pos z) := by
  obtain ⟨y, rans, ableY, drainedY⟩ := covers.runs_rounds able drained positions
  obtain ⟨z, _, ran, ableZ, le, ends, _, _, spells⟩ := covers.runs (w := []) ableY (by rw [drainedY]; exact .nil)
  refine ⟨y, z, rans, ran, le, ends, ?_⟩
  rw [covers.strips ableZ spells, Source.slice_eq_ofList]
  rfl

end Covers

/-- A scanner that records nothing but text covers one segment after another, if the markup around does not go on
with the server's tag. -/
theorem Covers.segments [LawfulScanner σ] {e : Embedding} {Closes : Nat → Prop}
    (covers : Covers src Able Token.IsRaw (fun x stop interrupted => Stops e src Closes (pos x) stop interrupted)
      fun _ _ => False)
    (apart : ∀ at_, Closes at_ → ¬ src.At "<?" at_) (able : Able x) (drained : (state x).tokens.latest = []) :
    Segments e src Closes x := by
  intro calls
  obtain ⟨y, v, ran, ableY, spells⟩ := covers.runs_all able (by rw [drained]; exact .nil) calls
  obtain ⟨z, added, ran', ableZ, le, ends, latest, more, spells'⟩ := covers.runs ableY spells
  have before : (state y).tokens.text = String.ofList v := by
    apply String.toList_injective
    rw [TokenStream.text, toList_join_texts, String.toList_ofList]
    exact spells.spelling_eq
  refine ⟨y, z, ran, ran', le, ⟨added.reverse, ?_, ?_⟩, ?_, ?_, ends.interrupted_iff apart,
    fun on => (ends.server on).1, ends.clear⟩
  · rw [TokenStream.toList, latest, List.reverse_append]
    rfl
  · apply String.toList_injective
    rw [toList_join_texts, more.spelling_eq]
    rfl
  · rw [covers.strips ableZ spells', before, Source.slice_eq_ofList, String.ofList_append]
  · cases eq : interrupted z with
    | true => exact .inr (.inl rfl)
    | false => exact (ends.ended eq).imp id .inr

end Scanner

end Gloss

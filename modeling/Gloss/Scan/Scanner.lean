import Gloss.Grammar.Basic

/-!
Scanners, and scanners within scanners. A scanner has a grammar, a state and a main loop that goes on from
the cursor; the loop ends at the end of the source or where a host has to take over.

A host hands a part of its source to a child: the child scans from the host's position, its output is
rendered and recorded as one token of the host, and the host goes on where the child stopped.
-/
namespace Gloss

open Text (Source)

/-- What every scanner can do. -/
class Scanner (σ : Type) where
  grammar : σ → Grammar
  state : σ → ScanState
  withState : σ → ScanState → σ
  /-- Another source, with nothing left of the one before. -/
  setSource : σ → Source → σ
  /-- Scans from the cursor on. -/
  main : EStateM ScanError σ Unit
  /-- Did the scanner stop for its host's language? -/
  interrupted : σ → Bool

namespace Scanner

variable {σ : Type} [Scanner σ]

/-- Name of the scanner's language. -/
def language (x : σ) : String := (grammar x).name

def pos (x : σ) : Nat := (state x).pos

def setPos (x : σ) (pos : Nat) : σ := withState x ((state x).setPos pos)

/-- Renders what was recorded and forgets it. -/
def tagged (x : σ) : String × σ :=
  let (out, s) := (grammar x).tagged (state x)
  (out, withState x s)

/-- Scans a text and renders it. -/
def highlight (text : String) : EStateM ScanError σ String := do
  modify fun x => setSource x (Source.ofString text)
  main
  modifyGet tagged

end Scanner

/-- Runs an operation on a part of a state. -/
def zoom {ε σ τ α : Type} (view : σ → τ) (put : σ → τ → σ) (m : EStateM ε τ α) : EStateM ε σ α :=
  fun s =>
    match m (view s) with
    | .ok a t => .ok a (put s t)
    | .error e t => .error e (put s t)

/-- A child: its scanner, and where it was interrupted if it is to go on. -/
structure Child (σ : Type) where
  scanner : σ
  resumeAt : Option Nat := none

namespace Child

variable {σ : Type} [Scanner σ]

/-- Gives the child another source. -/
def setSource (c : Child σ) (source : Source) : Child σ := ⟨Scanner.setSource c.scanner source, none⟩

/-- Does the child have to go on, now that the host is past the place where it was interrupted? -/
def isDue (c : Child σ) (pos : Nat) : Bool := c.resumeAt.any (· < pos)

end Child

/-- Hands the source from the host's position on to a child. Returns whether the child was interrupted.
If the child fails, the host is as it was. -/
def delegate {σ : Type} [Scanner σ] (wrap : Option Kind) :
    EStateM ScanError (ScanState × Child σ) Bool := fun (host, child) =>
  let start := host.pos
  match Scanner.main (Scanner.setPos child.scanner start) with
  | .error e scanner => .error e (host, { child with scanner })
  | .ok _ scanner =>
    let (out, scanner) := Scanner.tagged scanner
    let stop := max (Scanner.pos scanner) start
    let host := (host.record (.markup wrap out)).setPos stop
    let stopped := Scanner.interrupted scanner
    .ok stopped (host, { scanner, resumeAt := if stopped then some stop else none })

/-- A scanner whose main loop runs over the pattern table. -/
structure FlatScanner where
  grammar : Grammar
  state : ScanState := {}

/-- A scanner whose main loop runs over the pattern table with regions. -/
structure NestedScanner where
  grammar : Grammar
  state : ScanState := .emptyTree

end Gloss

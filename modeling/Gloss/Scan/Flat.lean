import Gloss.Grammar.Basic

/-!
The loop over a pattern table. At every step the nearest match is taken; text before it has no kind, and
text after the last match neither. A kind with a handler leaves its matches to the handler.
-/
namespace Gloss.Flat

open Scan

/-- Takes a match that was found from `start` on. -/
def dispatch (g : Grammar) (next : NextMatch) (start : Nat) : ScanM Unit := do
  let found := next.data.start
  recordRange start found none
  let before ← depth
  match g.handlers.get? next.kind with
  | some handler =>
    setPos found
    handler next.data
  | none =>
    accept next.data
    recordMatch (some next.kind) next.data
  ensureProgress g.name found before

/-- One step from a place before the end. -/
def step (g : Grammar) : ScanM Unit := do
  let start ← pos
  match ← g.nextMatch with
  | some next => dispatch g next start
  | none => recordRest none

/-- Steps until the end is reached. -/
def loop (g : Grammar) : Nat → ScanM Unit
  | 0 => throw (.outOfSteps g.name)
  | fuel + 1 => do
    if !(← atEnd) then
      step g
      loop g fuel

/-- More steps than a scan takes whose every step moves on or opens or closes a region that it cannot
reopen in place. -/
def budget (s : ScanState) : Nat := 16 * (s.source.size + 4) + 4 * s.depth

/-- Scans to the end. -/
def run (g : Grammar) : ScanM Unit := do loop g (budget (← get))

end Gloss.Flat

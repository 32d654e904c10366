import Gloss.Scan.Flat

/-!
The loop over a pattern table with regions. In every region only the kinds that its transitions allow can
start, and the region's closing pattern ends it. A start that is at or before the nearest end is taken
first. Regions that are open at the end are closed there.
-/
namespace Gloss.Nested

open Scan

/-- Takes a match of an entry without a handler: it opens a region, which is closed at once if the entry
has no closing pattern. -/
def enter (entry : PatternTable.Entry) (m : Match) : ScanM Unit := do
  let text ← textOf m
  setPos m.stop
  pushRegion { name := entry.kind, start := m.start, opening := text, close := entry.close }
  record none text
  if entry.close.isNone then
    let _ ← popRegion

/-- Takes the nearest start. -/
def start (g : Grammar) (next : NextMatch) (from_ : Nat) : ScanM Unit := do
  recordRange from_ next.data.start none
  setPos next.data.start
  match g.patterns.get? next.entry with
  | none => return
  | some entry =>
    match g.handlers.get? entry.kind with
    | some handler => handler next.data
    | none => enter entry next.data

/-- Takes the end of the innermost region. -/
def finish (m : Match) : ScanM Unit := do
  recordRange (← pos) m.stop none
  setPos m.stop
  let _ ← popRegion

/-- One step from a place before the end. -/
def step (g : Grammar) : ScanM Unit := do
  let from_ ← pos
  let before ← depth
  let state ← stateName
  let next ← onCursor (g.patterns.nextAllowed (g.allows state))
  let close ← match (← region?).bind (·.close) with
    | some p => search p
    | none => pure none
  match next, close with
  | some next, none => start g next from_
  | some next, some close =>
    if next.data.start ≤ close.start then start g next from_ else finish close
  | none, some close => finish close
  | none, none => recordRest none
  ensureProgress g.name from_ before

/-- Steps until the end is reached. -/
def loop (g : Grammar) : Nat → ScanM Unit
  | 0 => throw (.outOfSteps g.name)
  | fuel + 1 => do
    if !(← atEnd) then
      step g
      loop g fuel

/-- More steps than a scan takes that ends: at any place it closes regions that were open before, then opens
regions, each by another entry, and then moves on. -/
def budget (g : Grammar) (s : ScanState) : Nat :=
  2 * (s.source.size + 2) * (g.patterns.size + g.handlers.length + 2) + 2 * s.depth

/-- Closes as many regions as there are in a list. -/
def closeAll : List Region → ScanM Unit
  | [] => return
  | _ :: rest => do
    let _ ← popRegion
    closeAll rest

/-- Scans to the end and closes all regions. -/
def run (g : Grammar) : ScanM Unit := do
  loop g (budget g (← get))
  closeAll (← get).regions

end Gloss.Nested

import Gloss.Grammar.Basic

/-!
Giving up open regions. Each region, from the innermost outwards, takes what its recovery pattern matches
at the cursor, or all that is left if it has no recovery pattern; what then remains has no kind.
-/
namespace Gloss.Scan

/-- Gives up one region. -/
def unwindOne (g : Grammar) (r : Region) : ScanM Unit := do
  let shown := r.extra <|> g.displayKind r.name
  match g.recovery.get? r.name with
  | some p =>
    match ← scan p with
    | some m => recordMatch shown m
    | none => pure ()
  | none => recordRest shown
  let _ ← popRegion

/-- Gives up the regions of a list, which are the open ones. -/
def unwindEach (g : Grammar) : List Region → ScanM Unit
  | [] => return
  | r :: rest => do
    unwindOne g r
    unwindEach g rest

/-- Gives up all open regions and records the rest of the source. -/
def unwind (g : Grammar) : ScanM Unit := do
  unwindEach g (← get).regions
  recordRest none

end Gloss.Scan

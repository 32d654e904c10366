import Gloss.Grammar.Basic

/-!
Ready handlers, the building blocks for grammars put together from data.
-/
namespace Gloss.Handler

open Scan

/-- Does nothing, which makes no progress. -/
def idle : Handler := fun _ => return

/-- Goes back to the start of the source. -/
def rewind : Handler := fun _ => setPos 0

/-- Records the next characters without a kind. -/
def takeChars (n : Nat) : Handler := fun _ => do record none (← take n)

/-- Records the match under a kind. -/
def recordAs (kind : Option Kind) : Handler := fun m => do
  accept m
  recordMatch kind m

/-- Records a construct that may contain itself. -/
def nest (kind : Kind) (opening closing : Pattern) : Handler := fun _ => nestable kind opening closing

/-- Opens a region with the match. -/
def openRegion (name : Kind) (close : Option Pattern) : Handler := fun m => do
  accept m
  let text ← textOf m
  pushRegion { name, start := m.start, opening := text, close }
  record none text

/-- Closes the innermost region with the match. -/
def closeRegion : Handler := fun m => do
  accept m
  recordMatch none m
  let _ ← popRegion

/-- Records the match as a function of the source's own and remembers its kind. -/
def defineAs (kind : Kind) : Handler := fun m => do
  accept m
  recordMatch (some .userFunction) m
  define (← textOf m) kind

end Gloss.Handler

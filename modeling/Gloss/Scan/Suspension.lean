import Gloss.Grammar.Basic
import Gloss.Text.Find

/-!
Scanners that are embedded in a host language. The host's own marks may cut the source anywhere, also
inside a token. A scanner that meets one records what it has of the token and leaves; when it is called
again behind the host's part, it takes the token up with the recovery pattern of its kind.
-/
namespace Gloss

/-- How a scanner is embedded. -/
structure Embedding where
  /-- It stands in markup and ends at a closing tag. -/
  html : Bool := false
  /-- A server language may interrupt it. -/
  server : Bool := false
  /-- The text with which the server language starts. -/
  serverTag : String := "<?"
  deriving DecidableEq, Repr, Inhabited

/-- How a scanner left its source. -/
structure Suspension where
  /-- Did a server tag stop it? -/
  interrupted : Bool := false
  /-- The kind of the token that was cut off, none if it left between two tokens. -/
  cut : Option Kind := none
  deriving DecidableEq, Repr, Inhabited

namespace Suspension

open Scan

/-- Did the scanner leave between two tokens? -/
def isClean (x : Suspension) : Bool := x.cut.isNone

/-- Leaves in the middle of a token. -/
def leave (g : Grammar) (kind : Kind) : Except ScanError Suspension :=
  if (g.recovery.get? kind).isNone then .error (.noRecovery kind)
  else .ok { interrupted := true, cut := some kind }

end Suspension

/-- Operations of a scanner that can be suspended. -/
abbrev SuspendM := EStateM ScanError (ScanState × Suspension)

namespace Suspend

/-- Runs an operation on the state of the scan. -/
def lift {α : Type} (m : ScanM α) : SuspendM α := fun (s, x) =>
  match m s with
  | .ok a s => .ok a (s, x)
  | .error e s => .error e (s, x)

instance : MonadLift ScanM SuspendM := ⟨lift⟩

def suspension : SuspendM Suspension := return (← get).2

def setSuspension (x : Suspension) : SuspendM Unit := modify fun (s, _) => (s, x)

/-- Leaves in the middle of a token; fails if its kind cannot be taken up again. -/
def leave (g : Grammar) (kind : Kind) : SuspendM Unit := do
  match Suspension.leave g kind with
  | .ok x => setSuspension x
  | .error e => throw e

/-- Takes up the token that was cut off, if there is one. -/
def resume (g : Grammar) : SuspendM (Option (Kind × Match)) := do
  match (← suspension).cut with
  | none => return none
  | some kind =>
    setSuspension {}
    let pos ← Scan.pos
    match g.recovery.get? kind with
    | none => throw (.noRecovery kind)
    | some p =>
      match ← (Scan.scan p : ScanM _) with
      | some m => return some (kind, m)
      | none => throw (.recoveryFailed kind pos)

/-- Records the part of a match before an offset in it, and moves to that offset. -/
def recordFront (kind : Kind) (m : Match) (bytes : Nat) : ScanM Unit := do
  let text ← Scan.textOf m
  Scan.record (some kind) (String.ofList (Text.takeBytes bytes text.toList))
  Scan.setPos (m.start + bytes)

/-- Leaves in the middle of a match that contains the server's tag. Returns whether it does. -/
def serverBreak (g : Grammar) (e : Embedding) (kind : Kind) (m : Match) : SuspendM Bool := do
  if !e.server then return false
  match Text.indexOf? e.serverTag (← Scan.textOf m) with
  | none => return false
  | some bytes =>
    recordFront kind m bytes
    leave g kind
    return true

/-- Ends in the middle of a match that contains the closing tag of the markup around. Returns whether it
does. -/
def scriptBreak (e : Embedding) (close : Pattern) (kind : Kind) (m : Match) : SuspendM Bool := do
  if !e.html then return false
  match close.find? (← Scan.textOf m) with
  | none => return false
  | some found =>
    recordFront kind m found.start
    setSuspension {}
    return true

end Suspend

end Gloss

import Gloss.Scan.Scanner

/-!
Plain text: the whole source without a kind.
-/
namespace Gloss.Language.Plain

def grammar : Grammar := .bare "plain"

/-- A scanner that takes all there is. -/
structure PlainScanner where
  grammar : Grammar := Plain.grammar
  state : ScanState := {}

instance : Scanner PlainScanner where
  grammar x := x.grammar
  state x := x.state
  withState x s := { x with state := s }
  setSource x source := { x with state := x.state.setSource source }
  main := zoom PlainScanner.state (fun x s => { x with state := s }) (Scan.recordRest none)
  interrupted _ := false

end Gloss.Language.Plain

import Gloss.Scan.Nested
import Gloss.Scan.Scanner

/-!
The two scanners that a grammar alone makes: one over its pattern table, and one over its pattern table
with regions.
-/
namespace Gloss

instance : Scanner FlatScanner where
  grammar x := x.grammar
  state x := x.state
  withState x s := { x with state := s }
  setSource x source := { x with state := x.state.setSource source }
  main := fun x => zoom FlatScanner.state (fun x s => { x with state := s }) (Flat.run x.grammar) x
  interrupted _ := false

instance : Scanner NestedScanner where
  grammar x := x.grammar
  state x := x.state
  withState x s := { x with state := s }
  setSource x source := { x with state := x.state.setSource source }
  main := fun x =>
    zoom NestedScanner.state (fun x s => { x with state := s }) (Nested.run x.grammar) x
  interrupted _ := false

end Gloss

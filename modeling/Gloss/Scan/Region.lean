import Gloss.Pattern.Basic
import Gloss.Token.Kind

/-!
Regions: stretches of the source with rules of their own, such as the body of a bracket or of a quoted
text. Open regions form a stack.
-/
namespace Gloss

/-- An open region. -/
structure Region where
  name : Kind
  /-- Offset at which it was opened. -/
  start : Nat
  /-- The text that opened it. -/
  opening : String := ""
  /-- The pattern that closes it. -/
  close : Option Pattern := none
  /-- Are variables marked in its text? -/
  interpolation : Bool := false
  /-- The kind under which text left over in it is recorded, if not its own. -/
  extra : Option Kind := none

end Gloss

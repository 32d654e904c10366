import Gloss.Pattern.Basic
import Gloss.Token.Kind

/-!
What can go wrong while a scanner is built or run. Text that is not well formed in its language is no
error: it is scanned all the same.
-/
namespace Gloss

/-- A failure of a grammar or of a request. -/
inductive ScanError where
  /-- A grammar has a text that is not a pattern. -/
  | invalidPattern (cause : PatternError)
  /-- A step neither moved the cursor nor changed the number of open regions. -/
  | noProgress (language : String) (pos : Nat)
  /-- A token was to be left half-way that has no pattern to take it up again. -/
  | noRecovery (kind : Kind)
  /-- The pattern that takes a token up again does not match where scanning resumed. -/
  | recoveryFailed (kind : Kind) (pos : Nat)
  /-- A region was to be closed where none is open. -/
  | noOpenRegion
  /-- A nestable construct was asked for where its opening is not. -/
  | nestableMismatch (kind : Kind) (pos : Nat)
  /-- A range that ends before it starts. -/
  | invalidRange (start stop : Nat)
  /-- A part of the text was handed to a scanner that is not there. -/
  | unknownChild (name : String)
  /-- No scanner is registered for the language. -/
  | unknownLanguage (code : String)
  /-- A loop was cut off: it took more steps than any run that ends. -/
  | outOfSteps (language : String)
  deriving DecidableEq, Repr

namespace ScanError

/-- The error as a sentence. -/
def message : ScanError → String
  | .invalidPattern e => s!"invalid pattern `{e.text}`"
  | .noProgress language pos => s!"scanner `{language}` made no progress at offset {pos}"
  | .noRecovery kind => s!"no dirty-exit recovery registered for `{kind.name}`"
  | .recoveryFailed kind pos =>
    s!"recovery pattern for `{kind.name}` failed to match at offset {pos}"
  | .noOpenRegion => "attempted to pop an empty state stack"
  | .nestableMismatch kind pos =>
    s!"nestable `{kind.name}` requested at offset {pos}, but the opening delimiter is not there"
  | .invalidRange start stop => s!"invalid range [{start}, {stop})"
  | .unknownChild name => s!"no child scanner named `{name}`"
  | .unknownLanguage code => s!"no scanner found for language `{code}`"
  | .outOfSteps language => s!"scanner `{language}` ran out of steps"

end ScanError

end Gloss

import Gloss.Languages
import Gloss.Text.Newlines

/-!
Highlighting as a whole: from a code and a text to markup. This never fails. A code that is not known gives
way to a guess, if that is asked for, or to the default language; if no scanner can be had or the scanner
fails, the text is shown as it is.
-/
namespace Gloss

/-- How to highlight. -/
structure HighlightOptions where
  /-- A tag around text that could not be highlighted. -/
  failureTag : Option String := none
  normalizeNewlines : Bool := true
  /-- Is a language guessed if the code is not known? -/
  autoDetect : Bool := false
  deriving DecidableEq, Repr

namespace Registry

/-- The code of the language that a text is most likely in. -/
def guessLanguage (r : Registry) (text : String) : Option String := (r.guess text).map (·.1)

/-- The scanner for a code, or the one that stands in for it. -/
def resolve (r : Registry) (code text : String) (options : HighlightOptions) :
    Except ScanError AnyScanner :=
  match r.get code with
  | .error (.unknownLanguage _) =>
    match if options.autoDetect then r.guessLanguage text else none with
    | some guessed => r.get guessed
    | none => r.getDefault
  | other => other

/-- The text as it is, in the tag for failures. -/
def showPlain (text : String) (options : HighlightOptions) : String :=
  let escaped := Markup.escape text
  match options.failureTag with
  | some tag => Markup.openTag tag ++ escaped ++ Markup.closeTag tag
  | none => escaped

/-- A text in the language with a code, as markup. -/
def highlight (r : Registry) (code text : String) (options : HighlightOptions) : String :=
  let text := if options.normalizeNewlines then Text.normalizeNewlines text else text
  match r.resolve code text options >>= (highlightWith · text) with
  | .ok markup => markup
  | .error _ => showPlain text options

end Registry

end Gloss

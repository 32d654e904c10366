import Gloss.Unicode.Blank

/-!
What a guess looks at besides the text itself. Lines end at a line feed, with or without a carriage return
before it; a line end at the very end of the text starts no further line.
-/
namespace Gloss.Guess

/-- The lines of a text without their ends; `line` holds the current line in reverse. -/
def linesFrom (line : List Char) : List Char → List (List Char)
  | [] => if line.isEmpty then [] else [line.reverse]
  | c :: rest =>
    if c = '\n' then
      let line := match line with
        | '\r' :: before => before
        | _ => line
      line.reverse :: linesFrom [] rest
    else linesFrom (c :: line) rest

/-- The lines of a text without their ends. -/
def linesOf (text : String) : List String := (linesFrom [] text.toList).map String.ofList

/-- Facts about a text that most guesses use. -/
structure Overview where
  lineCount : Nat
  firstLine : String
  /-- The text without white space at its start. -/
  trimmed : String
  deriving DecidableEq, Repr

def Overview.ofText (text : String) : Overview :=
  let lines := linesOf text
  { lineCount := lines.length
    firstLine := lines.head?.getD ""
    trimmed := String.ofList (text.toList.dropWhile Unicode.isBlank) }

end Gloss.Guess

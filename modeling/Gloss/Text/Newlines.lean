/-!
Line ends. Patterns know one line end only, the line feed; normalization turns the two other forms,
carriage return with line feed and the lone carriage return, into it.
-/
namespace Gloss.Text

/-- Every line end of a text as one line feed. -/
def unifyLines : List Char → List Char
  | [] => []
  | '\r' :: '\n' :: rest => '\n' :: unifyLines rest
  | '\r' :: rest => '\n' :: unifyLines rest
  | c :: rest => c :: unifyLines rest

/-- Every line end of a text as one line feed. -/
def normalizeNewlines (s : String) : String := String.ofList (unifyLines s.toList)

/-- The pieces of a text between line feeds; there is one piece more than there are line feeds. -/
def splitLines : List Char → List (List Char)
  | [] => [[]]
  | c :: rest =>
    if c = '\n' then [] :: splitLines rest
    else match splitLines rest with
      | line :: lines => (c :: line) :: lines
      | [] => [[c]]

end Gloss.Text

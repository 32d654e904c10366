/-!
Finding a text in a text.
-/
namespace Gloss.Text

/-- The byte offset of the first occurrence of `part` in a text that starts at offset `start`. -/
def indexFrom (part : List Char) (start : Nat) : List Char → Option Nat
  | [] => if part.isEmpty then some start else none
  | c :: rest =>
    if part.isPrefixOf (c :: rest) then some start else indexFrom part (start + c.utf8Size) rest

/-- The byte offset of the first occurrence of `part` in `text`. -/
def indexOf? (part text : String) : Option Nat := indexFrom part.toList 0 text.toList

/-- Does `part` occur in `text`? -/
def occursIn (part text : String) : Bool := (indexOf? part text).isSome

end Gloss.Text

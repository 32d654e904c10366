/-!
Places in a text. A text is a list of characters, and offsets count the bytes of its UTF-8 form. A spot
is a place between two characters: it knows its offset, the character before it and all that follows,
which is what a pattern can look at.
-/
namespace Gloss.Text

/-- A place between two characters of a text. -/
structure Spot where
  /-- Bytes before the place. -/
  pos : Nat
  /-- The character before the place; none at the start of the text. -/
  before : Option Char
  /-- The characters after the place. -/
  rest : List Char
  deriving DecidableEq, Repr

/-- Bytes of a text. -/
def byteSize : List Char → Nat
  | [] => 0
  | c :: rest => c.utf8Size + byteSize rest

/-- The longest part at the front of a text that fits into `n` bytes. -/
def takeBytes : Nat → List Char → List Char
  | _, [] => []
  | n, c :: rest => if c.utf8Size ≤ n then c :: takeBytes (n - c.utf8Size) rest else []

namespace Spot

/-- The place before the first character. -/
def start (chars : List Char) : Spot := ⟨0, none, chars⟩

/-- The place after the next character. -/
def step (s : Spot) (c : Char) (rest : List Char) : Spot := ⟨s.pos + c.utf8Size, some c, rest⟩

/-- One spot for every byte offset from this place to the end of the text: offset `i` has the first spot
that lies at or after it, so an offset inside a character has the spot behind that character. -/
def byOffset (pos : Nat) (before : Option Char) : List Char → List Spot
  | [] => [⟨pos, before, []⟩]
  | c :: rest =>
    ⟨pos, before, c :: rest⟩ ::
      (List.replicate (c.utf8Size - 1) ⟨pos + c.utf8Size, some c, rest⟩ ++
        byOffset (pos + c.utf8Size) (some c) rest)

end Spot

end Gloss.Text

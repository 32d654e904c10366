import Gloss.Text.Spot

/-!
Source text with random access by byte offset. Offsets may be any number: slices are clamped to the text,
and an offset inside a character is never cut at.
-/
namespace Gloss.Text

/-- A text together with its spots by byte offset. -/
structure Source where
  text : String
  /-- `spots[i]` is the first spot at or after byte offset `i`. -/
  spots : Array Spot
  spots_eq : spots = (Spot.byOffset 0 none text.toList).toArray

namespace Source

def ofString (text : String) : Source := ⟨text, (Spot.byOffset 0 none text.toList).toArray, rfl⟩

instance : Inhabited Source := ⟨ofString ""⟩

/-- Bytes of the text. -/
def size (src : Source) : Nat := src.spots.size - 1

def isEmpty (src : Source) : Bool := src.text.isEmpty

/-- The first spot at or after an offset, none past the end. -/
def spotFrom? (src : Source) (pos : Nat) : Option Spot := src.spots[pos]?

/-- The spot at exactly this offset, none if it is inside a character or past the end. -/
def spotAt? (src : Source) (pos : Nat) : Option Spot :=
  (src.spotFrom? pos).filter (·.pos == pos)

/-- Does the offset lie between two characters, or at an end of the text? -/
def isBoundary (src : Source) (pos : Nat) : Bool := (src.spotAt? pos).isSome

/-- The text between two offsets, none unless both are boundaries of the text and in order. -/
def cut? (src : Source) (start stop : Nat) : Option String :=
  match src.spotAt? start with
  | none => none
  | some spot =>
    if start ≤ stop && src.isBoundary stop then
      some (String.ofList (takeBytes (stop - start) spot.rest))
    else none

/-- The text between two offsets, clamped to the source; empty if a clamped end is inside a
character. -/
def slice (src : Source) (start stop : Nat) : String :=
  let stop := min stop src.size
  (src.cut? (min start stop) stop).getD ""

/-- The greatest boundary at or below an offset that is not past the end. -/
def floorFrom (src : Source) : Nat → Nat
  | 0 => 0
  | pos + 1 => if src.isBoundary (pos + 1) then pos + 1 else floorFrom src pos

/-- The greatest boundary at or below an offset. -/
def floor (src : Source) (pos : Nat) : Nat := src.floorFrom (min pos src.size)

/-- Does the character that starts at this offset end a line? -/
def newlineAt (src : Source) (pos : Nat) : Bool :=
  match src.spotAt? pos with
  | some spot => spot.rest.head? == some '\n'
  | none => false

/-- The first character at or after an offset that is a boundary. -/
def charAt? (src : Source) (pos : Nat) : Option Char :=
  (src.spotAt? pos).bind (·.rest.head?)

/-- The character that ends at an offset that is a boundary; an offset past the end counts as the
end. -/
def charBefore? (src : Source) (pos : Nat) : Option Char :=
  (src.spotAt? (min pos src.size)).bind (·.before)

end Source

end Gloss.Text

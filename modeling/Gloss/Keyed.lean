/-!
Lists of pairs with one value for each key. The value put last counts.
-/
namespace Gloss

/-- Values by key. -/
abbrev Keyed (κ α : Type) := List (κ × α)

namespace Keyed

variable {κ α : Type} [BEq κ]

/-- Gives a value to a key, in place of the one it had. -/
def put (m : Keyed κ α) (k : κ) (a : α) : Keyed κ α := (k, a) :: m.filter (·.1 != k)

/-- The value of a key. -/
def get? (m : Keyed κ α) (k : κ) : Option α := (m.find? (·.1 == k)).map (·.2)

/-- Forgets a key. -/
def erase (m : Keyed κ α) (k : κ) : Keyed κ α := m.filter (·.1 != k)

end Keyed

end Gloss

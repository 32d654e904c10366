/-!
Sets of characters given by ranges of code points. The properties of characters that patterns, words
and case depend on are tables of this kind, one module each.
-/
namespace Gloss.Unicode

/-- Closed ranges of code points, in increasing order and apart from each other. -/
abbrev RangeTable := List (Nat × Nat)

namespace RangeTable

/-- Does some range hold `n`? The ranges are in order, so a range that starts above `n` ends the
search. -/
def holds : RangeTable → Nat → Bool
  | [], _ => false
  | (lo, hi) :: rest, n => if n < lo then false else if n ≤ hi then true else holds rest n

/-- Does some range have a code point from `first` to `last`? -/
def meets : RangeTable → Nat → Nat → Bool
  | [], _, _ => false
  | (lo, hi) :: rest, first, last =>
    if last < lo then false else if first ≤ hi then true else meets rest first last

/-- The ranges and one more. Ranges that touch it or overlap with it become one with it. -/
def add (first last : Nat) : RangeTable → RangeTable
  | [] => [(first, last)]
  | (lo, hi) :: rest =>
    if last + 1 < lo then (first, last) :: (lo, hi) :: rest
    else if hi + 1 < first then (lo, hi) :: add first last rest
    else add (min first lo) (max last hi) rest

/-- The code points of both tables. -/
def union (a b : RangeTable) : RangeTable := a.foldr (fun (lo, hi) t => t.add lo hi) b

/-- The greatest code point. -/
def lastCode : Nat := 0x10FFFF

/-- The code points from `first` on that are in no range. -/
def gapsFrom (first : Nat) : RangeTable → RangeTable
  | [] => if first ≤ lastCode then [(first, lastCode)] else []
  | (lo, hi) :: rest =>
    if first < lo then (first, lo - 1) :: gapsFrom (hi + 1) rest else gapsFrom (hi + 1) rest

/-- The code points that are in no range. -/
def complement (t : RangeTable) : RangeTable := gapsFrom 0 t

end RangeTable

end Gloss.Unicode

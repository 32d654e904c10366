import Gloss.Unicode.Blank
import Gloss.Unicode.CaseFold
import Gloss.Unicode.Digit
import Gloss.Unicode.Word

/-!
Sets of characters, as a pattern writes them: ranges, the named sets of word characters, digits and white
space, and combinations of these. A set is kept as the table of its ranges, so two sets with the same
members are equal however they were written.
-/
namespace Gloss.Regex

open Unicode (RangeTable)

/-- A set of characters. -/
structure CharSet where
  ranges : RangeTable
  deriving DecidableEq, Repr

namespace CharSet

/-- Is the character in the set? -/
def mem (s : CharSet) (c : Char) : Bool := s.ranges.holds c.toNat

def nothing : CharSet := ⟨[]⟩

/-- The characters from `lo` to `hi`. -/
def range (lo hi : Char) : CharSet := ⟨[(lo.toNat, hi.toNat)]⟩

/-- One character alone. -/
def single (c : Char) : CharSet := range c c

def word : CharSet := ⟨Unicode.wordRanges⟩

def digit : CharSet := ⟨Unicode.digitRanges⟩

def blank : CharSet := ⟨Unicode.blankRanges⟩

def union (a b : CharSet) : CharSet := ⟨a.ranges.union b.ranges⟩

/-- The characters that are not in the set. -/
def negate (s : CharSet) : CharSet := ⟨s.ranges.complement⟩

def inter (a b : CharSet) : CharSet := (a.negate.union b.negate).negate

/-- The characters in `a` and not in `b`. -/
def minus (a b : CharSet) : CharSet := a.inter b.negate

/-- The characters in just one of the two. -/
def oneOf (a b : CharSet) : CharSet := (a.minus b).union (b.minus a)

/-- Every character. -/
def any : CharSet := nothing.negate

/-- Every character that does not end a line. -/
def notNewline : CharSet := (single '\n').negate

/-- The union of ranges given by their ends. -/
def ofRanges (ends : List (Char × Char)) : CharSet :=
  ⟨ends.foldr (fun (lo, hi) t => t.add lo.toNat hi.toNat) []⟩

/-- The set with all characters that differ by case from one of it. -/
def foldCase (s : CharSet) : CharSet :=
  ⟨(Unicode.caseMates s.ranges).foldl (fun t n => if t.holds n then t else t.add n n) s.ranges⟩

/-- The only member of a set that has just one. -/
def only? (s : CharSet) : Option Char :=
  match s.ranges with
  | [(lo, hi)] => if lo = hi then some (Char.ofNat lo) else none
  | _ => none

def isEmpty (s : CharSet) : Bool := s.ranges.isEmpty

/-- Are all members basic characters, of one byte each? -/
def isBasic (s : CharSet) : Bool := s.ranges.all (·.2 < 128)

/-- The named sets of basic characters that stand between colons in a bracket. -/
def named? (name : String) : Option CharSet :=
  match name with
  | "alnum" => some (ofRanges [('0', '9'), ('A', 'Z'), ('a', 'z')])
  | "alpha" => some (ofRanges [('A', 'Z'), ('a', 'z')])
  | "ascii" => some (range '\x00' '\x7f')
  | "blank" => some (ofRanges [('\t', '\t'), (' ', ' ')])
  | "cntrl" => some (ofRanges [('\x00', '\x1f'), ('\x7f', '\x7f')])
  | "digit" => some (range '0' '9')
  | "graph" => some (range '!' '~')
  | "lower" => some (range 'a' 'z')
  | "print" => some (range ' ' '~')
  | "punct" => some (ofRanges [('!', '/'), (':', '@'), ('[', '\x60'), ('\x7b', '~')])
  | "space" => some (ofRanges [('\t', '\r'), (' ', ' ')])
  | "upper" => some (range 'A' 'Z')
  | "word" => some (ofRanges [('0', '9'), ('A', 'Z'), ('_', '_'), ('a', 'z')])
  | "xdigit" => some (ofRanges [('0', '9'), ('A', 'F'), ('a', 'f')])
  | _ => none

end CharSet

end Gloss.Regex

import Gloss.Regex.CharSet
import Gloss.Text.Spot

/-!
Regular expressions with priorities. A repetition that prefers more is greedy, one that prefers less is
lazy, and of two alternatives the first is preferred. Which match is reported follows from these
preferences, not from its length.
-/
namespace Gloss

/-- A condition on a place that consumes nothing. -/
inductive Regex.Assertion where
  | textStart
  | textEnd
  | lineStart
  | lineEnd
  | wordBoundary
  | notWordBoundary
  | wordStart
  | wordEnd
  deriving DecidableEq, Repr

/-- A regular expression. -/
inductive Regex where
  | empty
  /-- The characters of a text, one after another. -/
  | text (chars : List Char)
  /-- One character of a set. -/
  | set (chars : Regex.CharSet)
  | look (condition : Regex.Assertion)
  | group (index : Nat) (body : Regex)
  /-- At least `lo` and at most `hi` times, without end if there is no `hi`. -/
  | times (lo : Nat) (hi : Option Nat) (greedy : Bool) (body : Regex)
  | seq (first second : Regex)
  | alt (first second : Regex)
  deriving DecidableEq, Repr

namespace Regex

open Text (Spot)

/-- Is there a word character? -/
def Assertion.isWord? : Option Char → Bool
  | some c => Unicode.isWord c
  | none => false

/-- Does the condition hold at the spot? A line ends at a line feed or at the end of the text. -/
def Assertion.holds (a : Assertion) (s : Spot) : Bool :=
  match a with
  | .textStart => s.before.isNone
  | .textEnd => s.rest.isEmpty
  | .lineStart => s.before.isNone || s.before == some '\n'
  | .lineEnd => s.rest.isEmpty || s.rest.head? == some '\n'
  | .wordBoundary => Assertion.isWord? s.before != Assertion.isWord? s.rest.head?
  | .notWordBoundary => Assertion.isWord? s.before == Assertion.isWord? s.rest.head?
  | .wordStart => !Assertion.isWord? s.before && Assertion.isWord? s.rest.head?
  | .wordEnd => Assertion.isWord? s.before && !Assertion.isWord? s.rest.head?

/-- The least number of characters that a match consumes; none if a part of the expression has no
match. -/
def minLength : Regex → Option Nat
  | .empty => some 0
  | .text chars => some chars.length
  | .set chars => if chars.isEmpty then none else some 1
  | .look _ => some 0
  | .group _ body => body.minLength
  | .times lo _ _ body => body.minLength.map (lo * ·)
  | .seq a b => a.minLength.bind fun m => b.minLength.map (m + ·)
  | .alt a b => a.minLength.bind fun m => b.minLength.map (min m ·)

/-- Does every match consume something? -/
def consumes (r : Regex) : Bool := r.minLength.any (0 < ·)

/-- Does no match consume anything? -/
def isBlind : Regex → Bool
  | .empty => true
  | .text chars => chars.isEmpty
  | .set _ => false
  | .look _ => true
  | .group _ body => body.isBlind
  | .times _ hi _ body => hi.isSome && body.isBlind
  | .seq a b => a.isBlind && b.isBlind
  | .alt a b => a.isBlind && b.isBlind

/-- The greatest index of a group. -/
def lastGroup : Regex → Nat
  | .group i body => max i body.lastGroup
  | .times _ _ _ body => body.lastGroup
  | .seq a b => max a.lastGroup b.lastGroup
  | .alt a b => max a.lastGroup b.lastGroup
  | _ => 0

/-- Number of parts, the expression itself included. -/
def size : Regex → Nat
  | .group _ body => body.size + 1
  | .times _ _ _ body => body.size + 1
  | .seq a b => a.size + b.size + 1
  | .alt a b => a.size + b.size + 1
  | _ => 1

end Regex

end Gloss

import Gloss.Pattern.Basic

/-!
Replacement texts. A dollar sign introduces the number or the name of a group, with or without braces; two
dollar signs stand for one.
-/
namespace Gloss

open Text (Source)

/-- A piece of a replacement. -/
inductive Replacement.Part where
  | text (s : List Char)
  | group (label : List Char)
  deriving DecidableEq, Repr

/-- A replacement is a list of pieces. -/
abbrev Replacement := List Replacement.Part

namespace Replacement

def isLabelChar (c : Char) : Bool := c == '_' || c.isAlphanum

/-- The group that is named after a dollar sign, none if there is no name. -/
def readLabel? : List Char → Option (List Char × List Char)
  | '\x7b' :: rest =>
    let label := rest.takeWhile (· != '\x7d')
    match rest.drop label.length with
    | '\x7d' :: rest => some (label, rest)
    | _ => none
  | rest =>
    let label := rest.takeWhile isLabelChar
    if label.isEmpty then none else some (label, rest.drop label.length)

/-- The pieces of a replacement text. Every step consumes a character. -/
def partsFrom : Nat → List Char → Replacement
  | 0, s => [.text s]
  | _ + 1, [] => []
  | fuel + 1, '$' :: '$' :: rest => .text ['$'] :: partsFrom fuel rest
  | fuel + 1, '$' :: rest =>
    match readLabel? rest with
    | some (label, rest) => .group label :: partsFrom fuel rest
    | none => .text ['$'] :: partsFrom fuel rest
  | fuel + 1, c :: rest => .text [c] :: partsFrom fuel rest

def ofString (s : String) : Replacement := partsFrom s.toList.length s.toList

/-- The index of the group with a label; a label of digits, with or without a plus sign, is an index. -/
def groupIndex? (p : Pattern) (label : List Char) : Option Nat :=
  let digits := match label with
    | '+' :: digits => digits
    | digits => digits
  if !digits.isEmpty && digits.all Char.isDigit then
    some (digits.foldl (fun n c => 10 * n + (c.toNat - 48)) 0)
  else (p.parsed.names.find? (·.1.toList == label)).map (·.2)

/-- The text of a replacement for a match. A group that is unknown or took no part is empty. -/
def expand (r : Replacement) (p : Pattern) (src : Source) (m : Match) : String :=
  String.join (r.map fun part =>
    match part with
    | .text s => String.ofList s
    | .group label =>
      match groupIndex? p label with
      | some i => m.groupText src i
      | none => "")

end Replacement

/-- The text with every match replaced. -/
def Pattern.replaceAll (p : Pattern) (text replacement : String) : String :=
  let parts := Replacement.ofString replacement
  let src := Source.ofString text
  p.replaceWith text (parts.expand p src)

end Gloss

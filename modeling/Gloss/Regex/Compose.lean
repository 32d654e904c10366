import Gloss.Regex.Basic

/-!
Putting expressions together. The functions here are the only ones that build expressions, and keep them in
one form: neither part of a sequence or of a choice is of the same kind on its left, texts next to each
other are one text, and a repetition that can only be passed once or not at all is no repetition.

Alternatives that begin alike are joined: what they share comes once, before the choice. It then settles its
own preferences before the choice is made, so `a?a|a?b` is `a?` followed by `a` or `b`.
-/
namespace Gloss.Regex

/-- One character of a set; a set of one character is a text. -/
def ofSet (s : CharSet) : Regex :=
  match s.only? with
  | some c => .text [c]
  | none => .set s

/-- What an expression puts one after another. -/
def parts : Regex → List Regex
  | .empty => []
  | .seq a b => a :: b.parts
  | r => [r]

/-- What an expression puts up for choice. -/
def branches : Regex → List Regex
  | .alt a b => a :: b.branches
  | r => [r]

/-- Makes one text of texts next to each other. -/
def joinTexts : List Regex → List Regex
  | [] => []
  | .text a :: rest =>
    match joinTexts rest with
    | .text b :: more => .text (a ++ b) :: more
    | more => .text a :: more
  | r :: rest => r :: joinTexts rest

/-- A sequence of parts, as they are. -/
def ofParts : List Regex → Regex
  | [] => .empty
  | [r] => r
  | r :: rest => .seq r (ofParts rest)

/-- A choice between branches, as they are. -/
def ofBranches : List Regex → Regex
  | [] => .set .nothing
  | [r] => r
  | r :: rest => .alt r (ofBranches rest)

/-- The expressions one after another. -/
def concat (rs : List Regex) : Regex := ofParts (joinTexts (rs.flatMap parts))

/-- The set of an expression that is a text of one character. -/
def ofLetter? : Regex → Option CharSet
  | .text [c] => some (.single c)
  | _ => none

/-- The set of an expression that is one. -/
def asSet? : Regex → Option CharSet
  | .set s => some s
  | _ => none

/-- The set that a choice between single letters, or one between sets, stands for. A mixed choice stays
one. -/
def mergedSet? (rs : List Regex) : Option CharSet :=
  (rs.mapM ofLetter? <|> rs.mapM asSet?).map (·.foldl .union .nothing)

/-- What two lists begin with alike. -/
def common : List Regex → List Regex → List Regex
  | a :: as, b :: bs => if a = b then a :: common as bs else []
  | _, _ => []

/-- What all the branches begin with. A branch that is no sequence shares nothing. -/
def sharedFront : List Regex → List Regex
  | [] => []
  | r :: rest =>
    if (r :: rest).all (1 < ·.parts.length) then
      rest.foldl (fun front b => common front b.parts) r.parts
    else []

/-- The expressions as alternatives, the first preferred. `fuel` bounds how often a shared front can be
taken off: less often than the alternatives have parts. -/
def choiceFrom : Nat → List Regex → Regex
  | 0, rs => ofBranches rs
  | fuel + 1, rs =>
    match rs.flatMap branches with
    | [r] => r
    | rs =>
      match mergedSet? rs with
      | some members => ofSet members
      | none =>
        let front := sharedFront rs
        if front.isEmpty then ofBranches rs
        else
          let rests := rs.map fun r => concat (r.parts.drop front.length)
          concat (front ++ [choiceFrom fuel rests])

/-- The expressions as alternatives, the first preferred. -/
def choice (rs : List Regex) : Regex := choiceFrom (rs.foldl (fun n r => n + r.size) 0) rs

/-- The expression again and again. One that consumes nothing is passed at most once. -/
def repeated (lo : Nat) (hi : Option Nat) (greedy : Bool) (r : Regex) : Regex :=
  let (lo, hi) := if r.isBlind then (min lo 1, some (min (hi.getD 1) 1)) else (lo, hi)
  if hi = some 0 then .empty
  else if lo = 1 ∧ hi = some 1 then r
  else .times lo hi greedy r

end Gloss.Regex

import Gloss.Regex.Program

/-!
Searching with a program. All ways to a match are followed side by side, character by character, in order of
preference. Two ways that meet at one instruction before the same character have the same future, so the less
preferred one is given up; the work for one character is bounded by the length of the program.
-/
namespace Gloss.Regex

open Text (Spot)

/-- A way to a match: the instruction it has come to, where it started and the offsets remembered on it,
latest first. -/
structure Thread where
  place : Nat
  start : Nat
  marks : List (Nat × Nat) := []
  deriving DecidableEq, Repr

/-- What the ways that come to a spot lead to. -/
structure Front where
  /-- The instructions passed, one bit each. -/
  seen : Nat := 0
  /-- Ways behind the next character, least preferred first. -/
  onward : List Thread := []
  /-- The way that ends here and is preferred to all that are not among `onward`. -/
  accepted : Option Thread := none

/-- Follows the ways of a list up to the next character. A way that is accepted ends the search: all after it
are less preferred. Every instruction is passed once and adds two ways at most, which bounds `fuel`. -/
def follow (code : Array Instr) (s : Spot) : Nat → List Thread → Front → Front
  | 0, _, f => f
  | _ + 1, [], f => f
  | fuel + 1, t :: todo, f =>
    if f.seen.testBit t.place then follow code s fuel todo f
    else if h : t.place < code.size then
      let f := { f with seen := f.seen ||| (1 <<< t.place) }
      match code[t.place] with
      | .accept => { f with accepted := some t }
      | .chars members next =>
        match s.rest with
        | c :: _ =>
          if members.mem c then
            follow code s fuel todo { f with onward := { t with place := next } :: f.onward }
          else follow code s fuel todo f
        | [] => follow code s fuel todo f
      | .look a next =>
        if a.holds s then follow code s fuel ({ t with place := next } :: todo) f
        else follow code s fuel todo f
      | .mark slot next =>
        follow code s fuel ({ t with place := next, marks := (slot, s.pos) :: t.marks } :: todo) f
      | .fork first second =>
        follow code s fuel ({ t with place := first } :: { t with place := second } :: todo) f
    else follow code s fuel todo f

/-- A match: where it starts, the spot at which it ends and the offsets remembered on the way. -/
structure Found where
  start : Nat
  stop : Spot
  marks : List (Nat × Nat)
  deriving DecidableEq, Repr

/-- The stretch that a group covered last, none if it took no part. -/
def Found.group? (f : Found) (index : Nat) : Option (Nat × Nat) :=
  match f.marks.lookup (2 * index), f.marks.lookup (2 * index + 1) with
  | some start, some stop => some (start, stop)
  | _, _ => none

namespace Program

/-- What the ways of a list lead to at a spot. -/
def frontAt (p : Program) (s : Spot) (threads : List Thread) : Front :=
  follow p.code s (3 * p.code.size + 3) threads {}

/-- Follows ways from a place on. As long as no match is found, a new way starts at every spot, after all
others. -/
def searchFrom (p : Program) (threads : List Thread) (best : Option Found) (pos : Nat)
    (before : Option Char) (rest : List Char) : Option Found :=
  let s : Spot := ⟨pos, before, rest⟩
  let threads := if best.isNone then threads ++ [⟨p.start, pos, []⟩] else threads
  if threads.isEmpty then best
  else
    let front := p.frontAt s threads
    let best := match front.accepted with
      | some t => some ⟨t.start, s, t.marks⟩
      | none => best
    match rest with
    | [] => best
    | c :: rest => p.searchFrom front.onward.reverse best (pos + c.utf8Size) (some c) rest

/-- The match that starts leftmost at or after a spot; of those that start there, the preferred one. -/
def search (p : Program) (s : Spot) : Option Found := p.searchFrom [] none s.pos s.before s.rest

end Program

end Gloss.Regex

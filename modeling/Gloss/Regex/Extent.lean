import Gloss.Regex.Compose

/-!
How much room an expression takes. An expression is carried out by an automaton over the bytes of a text,
once forward and once backward. Both are bounded, so a pattern that repeats too much is refused.

A state takes 32 bytes, a range of bytes with its target 8, and a branch 4. A set of characters is a union of
sequences of byte ranges. Going forward, sequences share what they have in common at their ends and at their
beginnings; going backward, at their beginnings only.
-/
namespace Gloss.Regex.Extent

/-- The room that an automaton may take. -/
def limit : Nat := 10485760

def stateSize : Nat := 32
def rangeSize : Nat := 8
def branchSize : Nat := 4

/-- A range of bytes. -/
abbrev ByteRange := UInt8 × UInt8

/-- Where a range of characters has to be divided, so that each part is a sequence of byte ranges: between
characters of different lengths, and where bytes after the first do not run through all their values. -/
def cutAfter? (lo hi : Nat) : Option Nat :=
  match [0x7F, 0x7FF, 0xFFFF].find? fun last => lo ≤ last && last < hi with
  | some last => some last
  | none =>
    if hi ≤ 0x7F then none
    else [0x40, 0x1000, 0x40000].findSome? fun block =>
      if lo / block = hi / block then none
      else if lo % block ≠ 0 then some ((lo / block + 1) * block - 1)
      else if (hi + 1) % block ≠ 0 then some (hi / block * block - 1)
      else none

/-- The sequences of byte ranges of the characters from `lo` to `hi`, in order. A range is divided less than
`fuel` times. -/
def sequencesOf : Nat → Nat → Nat → List (List ByteRange)
  | 0, _, _ => []
  | fuel + 1, lo, hi =>
    match cutAfter? lo hi with
    | some last => sequencesOf fuel lo last ++ sequencesOf fuel (last + 1) hi
    | none =>
      [(String.utf8EncodeChar (Char.ofNat lo)).zip (String.utf8EncodeChar (Char.ofNat hi))]

/-- The sequences of byte ranges of a set. Surrogates are no characters. -/
def sequences (s : CharSet) : List (List ByteRange) :=
  s.ranges.flatMap fun (lo, hi) =>
    (if lo ≤ 0xD7FF then sequencesOf 32 lo (min hi 0xD7FF) else []) ++
      (if 0xE000 ≤ hi then sequencesOf 32 (max lo 0xE000) hi else [])

/-- Number of ranges that two sequences have in common at their beginnings. -/
def shared : List ByteRange → List ByteRange → Nat
  | a :: as, b :: bs => if a = b then shared as bs + 1 else 0
  | _, _ => 0

/-- Number of states for sequences in order that share their beginnings. -/
def statesFrom (latest : List ByteRange) : List (List ByteRange) → Nat
  | [] => 0
  | s :: rest => s.length - shared latest s + statesFrom s rest

/-- The room for a set of basic characters. -/
def basicSet (s : CharSet) : Nat := 2 * stateSize + rangeSize * s.ranges.length

/-- The room for a set, going backward. -/
def setBackward (s : CharSet) : Nat :=
  if s.isBasic then basicSet s
  else
    let seqs := sequences s
    stateSize * (2 + statesFrom [] seqs) + branchSize * seqs.length

/-- A state of the automaton of a set: ranges of bytes with the numbers of the states they lead to. -/
abbrev State := List (ByteRange × Nat)

/-- Sequences in order, grouped by their first range. -/
def byFirst : List (List ByteRange) → List (ByteRange × List (List ByteRange))
  | [] => []
  | [] :: rest => byFirst rest
  | (r :: s) :: rest =>
    match byFirst rest with
    | (r', tails) :: more =>
      if r = r' then (r, s :: tails) :: more else (r, [s]) :: (r', tails) :: more
    | [] => [(r, [s])]

/-- Number of the state that sequences lead from, with the states needed so far. Two states with the same
ranges and targets are one. Sequences are at most four ranges long, which bounds `fuel`. -/
def stateOf : Nat → List (List ByteRange) → List State → Nat × List State
  | 0, _, states => (0, states)
  | fuel + 1, seqs, states =>
    if seqs.all List.isEmpty then (0, states)
    else
      let (state, states) := (byFirst seqs).foldl (fun (state, states) (r, tails) =>
        let (target, states) := stateOf fuel tails states
        (state ++ [(r, target)], states)) (([] : State), states)
      match states.findIdx? (· == state) with
      | some i => (states.length - i, states)
      | none => (states.length + 1, state :: states)

/-- The room for a set, going forward. -/
def setForward (s : CharSet) : Nat :=
  if s.isBasic then basicSet s
  else
    let states := (stateOf 5 (sequences s) []).2
    states.foldl (fun n state => n + stateSize + rangeSize * state.length) stateSize

/-- No less than the room for a set either way. A range within one block of 64 characters is one
sequence, and no range is more than 24. -/
def setRoughly (s : CharSet) : Nat :=
  s.ranges.foldl (fun n (lo, hi) => n + (if lo / 64 = hi / 64 then 168 else 24 * 168)) 128

/-- The room for an expression, by that for a set and that for a group beside what it holds. -/
def room (set : CharSet → Nat) (group : Nat) : Regex → Nat
  | .empty => stateSize
  | .text chars => stateSize * Text.byteSize chars
  | .set s => set s
  | .look _ => stateSize
  | .group _ body => group + room set group body
  | .times 0 (some 1) _ body => 2 * stateSize + 2 * branchSize + room set group body
  | .times lo (some hi) _ body =>
    let body := room set group body
    let round := stateSize + 2 * branchSize + body
    if lo = hi then lo * body else max stateSize (lo * body) + stateSize + (hi - lo) * round
  | .times lo none _ body =>
    let loop := if lo = 0 && !body.consumes then 3 * stateSize + 4 * branchSize
      else stateSize + 2 * branchSize
    loop + max lo 1 * room set group body
  | .seq a b => room set group a + room set group b
  | .alt a b =>
    let more := match b with
      | .alt _ _ => branchSize
      | _ => 2 * stateSize + 2 * branchSize
    more + room set group a + room set group b

/-- The room around an expression: for where a match may start, and for its end. -/
def frame : Nat := 4 * stateSize + 16

/-- Does the expression fit either way? The rough measure spares the exact ones for most expressions. -/
def fits (r : Regex) : Bool :=
  frame + 2 * stateSize + room setRoughly (2 * stateSize) r ≤ limit ||
    (frame + room setBackward 0 r ≤ limit &&
      frame + 2 * stateSize + room setForward (2 * stateSize) r ≤ limit)

end Gloss.Regex.Extent

import Gloss.Pattern.Basic

/-!
A position in a source. Patterns are matched at the position or searched for from it on. Matches that were
consumed are logged, the latest two, and can be undone.

Searching keeps what it found. A search from `p` that found a match at `s` also answers a search from any
place between the two, and one that found nothing answers any later search.
-/
namespace Gloss

open Text (Source)

/-- A consumed match with the position it can be undone to. -/
structure Cursor.Logged where
  index : Nat
  data : Match
  deriving DecidableEq, Repr

/-- What a search from an offset for the pattern with a text found. -/
structure Cursor.Found where
  pattern : String
  start : Nat
  result : Option Match
  deriving DecidableEq, Repr

/-- A position in a source, with the latest matches and the results of searches. -/
structure Cursor where
  source : Source := default
  pos : Nat := 0
  /-- Consumed matches, latest first, at most two. -/
  history : List Cursor.Logged := []
  /-- Results of searches, at most one for each pattern. -/
  found : List Cursor.Found := []
  deriving Inhabited

namespace Cursor

def ofSource (source : Source) : Cursor := { source }

/-- Back to the start, with nothing remembered. -/
def reset (c : Cursor) : Cursor := { source := c.source }

/-- Another source, from its start. -/
def setSource (_ : Cursor) (source : Source) : Cursor := { source }

/-- Moves to the boundary at or below an offset. -/
def setPos (c : Cursor) (pos : Nat) : Cursor := { c with pos := c.source.floor pos }

/-- Moves on by a number of bytes. -/
def shift (c : Cursor) (bytes : Nat) : Cursor := c.setPos (c.pos + bytes)

/-- Moves to the end, with nothing remembered. -/
def terminate (c : Cursor) : Cursor := { source := c.source, pos := c.source.size }

def atEnd (c : Cursor) : Bool := c.pos ≥ c.source.size

def atLineStart (c : Cursor) : Bool := c.pos == 0 || c.source.newlineAt (c.pos - 1)

def atLineEnd (c : Cursor) : Bool := c.atEnd || c.source.newlineAt c.pos

def slice (c : Cursor) (start stop : Nat) : String := c.source.slice start stop

/-- The characters from the position on; none if the position is no boundary. -/
def restChars (c : Cursor) : List Char :=
  match c.source.spotAt? c.pos with
  | some spot => spot.rest
  | none => []

/-- The text from the position on. -/
def rest (c : Cursor) : String := String.ofList c.restChars

def peek? (c : Cursor) : Option Char := c.restChars.head?

/-- The next `n` characters, fewer at the end. -/
def peekMany (c : Cursor) (n : Nat) : String := String.ofList (c.restChars.take n)

def charBefore? (c : Cursor) : Option Char := c.source.charBefore? c.pos

/-- Consumes the next `n` characters, fewer at the end. -/
def take (c : Cursor) (n : Nat) : String × Cursor :=
  let text := c.peekMany n
  (text, { c with pos := c.pos + text.utf8ByteSize })

/-- Remembers a consumed match. -/
def log (c : Cursor) (index : Nat) (data : Match) : Cursor :=
  { c with history := ⟨index, data⟩ :: c.history.take 1 }

/-- Consumes a match: logs its start and moves behind it. -/
def accept (c : Cursor) (m : Match) : Cursor := (c.log m.start m).setPos m.stop

/-- Undoes the latest match; does nothing if none is remembered. -/
def unscan (c : Cursor) : Bool × Cursor :=
  match c.history with
  | [] => (false, c)
  | latest :: older => (true, { c with pos := latest.index, history := older })

/-- What is known about a search from the current position: some result if it is known. -/
def known? (c : Cursor) (p : Pattern) : Option (Option Match) :=
  match c.found.find? (·.pattern == p.text) with
  | none => none
  | some f =>
    if f.start ≤ c.pos then
      match f.result with
      | none => some none
      | some m => if c.pos ≤ m.start then some (some m) else none
    else none

/-- Remembers the result of a search from the current position. -/
def remember (c : Cursor) (p : Pattern) (result : Option Match) : Cursor :=
  { c with found := ⟨p.text, c.pos, result⟩ :: c.found.filter (·.pattern != p.text) }

/-- The leftmost match at or after the position. -/
def search (c : Cursor) (p : Pattern) : Option Match × Cursor :=
  match c.known? p with
  | some result => (result, c)
  | none =>
    let result := p.findFrom? c.source c.pos
    (result, c.remember p result)

/-- The match at the position. -/
def check (c : Cursor) (p : Pattern) : Option Match × Cursor :=
  let (found, c) := c.search p
  (found.filter (·.start == c.pos), c)

/-- Consumes the match at the position. -/
def scan (c : Cursor) (p : Pattern) : Option Match × Cursor :=
  match c.check p with
  | (some m, c) => (some m, c.accept m)
  | (none, c) => (none, c)

/-- Consumes the text before the next match, which is left. -/
def scanUntil (c : Cursor) (p : Pattern) : Option Match × Cursor :=
  match c.search p with
  | (some m, c) =>
    let skipped := Match.ofRange c.pos m.start
    (some skipped, { (c.log c.pos skipped) with pos := m.start })
  | (none, c) => (none, c)

/-- Offset of the next match. -/
def index (c : Cursor) (p : Pattern) : Option Nat × Cursor :=
  let (found, c) := c.search p
  (found.map (·.start), c)

/-- Does a match start before the best one so far? -/
def startsBefore {ι : Type} (m : Match) : Option (ι × Match) → Bool
  | some (_, best) => m.start < best.start
  | none => true

/-- The nearest match of labelled patterns, given the nearest so far; the first label wins a tie. A match
at the position itself ends the search, since no other can be nearer. -/
def nearestFrom {ι : Type} (best : Option (ι × Match)) (c : Cursor) :
    List (ι × Pattern) → Option (ι × Match) × Cursor
  | [] => (best, c)
  | (i, p) :: rest =>
    match c.search p with
    | (none, c) => nearestFrom best c rest
    | (some m, c) =>
      if startsBefore m best then
        if m.start == c.pos then (some (i, m), c) else nearestFrom (some (i, m)) c rest
      else nearestFrom best c rest

/-- The nearest match of labelled patterns; the first label wins a tie. -/
def nearest {ι : Type} (c : Cursor) (patterns : List (ι × Pattern)) : Option (ι × Match) × Cursor :=
  nearestFrom none c patterns

/-- The nearest match of some patterns, with the pattern's place in the list. -/
def nearestOf (c : Cursor) (patterns : List Pattern) : Option (Nat × Match) × Cursor :=
  c.nearest (patterns.zipIdx.map fun (p, i) => (i, p))

def lastMatch? (c : Cursor) : Option Match := c.history.head?.map (·.data)

/-- Text of the latest match. -/
def matched? (c : Cursor) : Option String := c.lastMatch?.map (·.text c.source)

/-- Text of a group of the latest match. -/
def matchedGroup? (c : Cursor) (i : Nat) : Option String :=
  (c.lastMatch?.bind (·.group? i)).map fun s => c.slice s.start s.stop

/-- Start of the latest match. -/
def matchedAt? (c : Cursor) : Option Nat := c.lastMatch?.map (·.start)

end Cursor

end Gloss

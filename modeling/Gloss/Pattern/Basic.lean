import Gloss.Regex.Parser
import Gloss.Regex.Search
import Gloss.Text.Source

/-!
Compiled patterns and their matches. A pattern is a text together with the expression it writes; the text
decides the expression, so two patterns with one text are equal. Matching is leftmost first: of all matches
the one that starts earliest is reported, and of those the preferred one.
-/
namespace Gloss

open Text (Spot Source)

/-- A stretch of a text by its byte offsets. -/
structure Span where
  start : Nat
  stop : Nat
  deriving DecidableEq, Repr

namespace Span

def size (s : Span) : Nat := s.stop - s.start

def isEmpty (s : Span) : Bool := s.size == 0

end Span

/-- A match: the stretch it covers and that of each of its groups, none for one that took no part. -/
structure Match where
  span : Span
  groups : List (Option Span) := []
  deriving DecidableEq, Repr

namespace Match

/-- A match over a stretch, without groups. -/
def ofRange (start stop : Nat) : Match := ⟨⟨start, stop⟩, []⟩

def start (m : Match) : Nat := m.span.start

def stop (m : Match) : Nat := m.span.stop

/-- The stretch of a group; group zero is the whole match. -/
def group? (m : Match) : Nat → Option Span
  | 0 => some m.span
  | i + 1 => (m.groups[i]?).join

/-- The matched text; empty if the stretch is none of the source. -/
def text (m : Match) (src : Source) : String := (src.cut? m.start m.stop).getD ""

/-- The text of a group; empty if it took no part. -/
def groupText (m : Match) (src : Source) (i : Nat) : String :=
  match m.group? i with
  | some s => (src.cut? s.start s.stop).getD ""
  | none => ""

end Match

/-- A pattern: a text that can be read as one, what it reads as, and the program that searches for it. -/
structure Pattern where
  text : String
  parsed : Regex.Parsed
  reads : Regex.parse text = .ok parsed
  program : Regex.Program
  program_eq : program = parsed.regex.program

/-- A text that is not a pattern. -/
structure PatternError where
  text : String
  reason : Regex.Malformed
  deriving DecidableEq, Repr

namespace Pattern

/-- The pattern that a text writes. -/
def compile (text : String) : Except PatternError Pattern :=
  match h : Regex.parse text with
  | .ok parsed => .ok ⟨text, parsed, h, parsed.regex.program, rfl⟩
  | .error reason => .error ⟨text, reason⟩

/-- A pattern that matches nowhere. -/
def never : Pattern :=
  ⟨"[a&&b]", ⟨.set .nothing, []⟩, rfl, (Regex.set .nothing).program, rfl⟩

instance : Inhabited Pattern := ⟨never⟩

/-- The pattern that a text writes, and one that matches nowhere if it writes none. -/
def ofText (text : String) : Pattern :=
  match compile text with
  | .ok p => p
  | .error _ => never

/-- A pattern that stands for a text itself. -/
def literal (text : String) : Pattern := ofText (Regex.quote text)

instance : BEq Pattern := ⟨fun a b => a.text == b.text⟩

/-- Number of groups that a match can have. -/
def groupCount (p : Pattern) : Nat := p.parsed.regex.lastGroup

/-- What a search found, as a match. -/
def toMatch (p : Pattern) (f : Regex.Found) : Match :=
  { span := ⟨f.start, f.stop.pos⟩
    groups := (List.range p.groupCount).map fun i =>
      (f.group? (i + 1)).map fun (start, stop) => ⟨start, stop⟩ }

/-- The leftmost match at or after a spot, with the spot behind it. -/
def findSpot? (p : Pattern) (s : Spot) : Option (Match × Spot) :=
  (p.program.search s).map fun f => (p.toMatch f, f.stop)

/-- The leftmost match that starts at or after an offset. What comes before the offset is still seen by
the conditions of the pattern. -/
def findFrom? (p : Pattern) (src : Source) (start : Nat) : Option Match :=
  (src.spotFrom? start).bind fun s => (p.findSpot? s).map (·.1)

/-- The leftmost match in a text. -/
def find? (p : Pattern) (text : String) : Option Match :=
  (p.findSpot? (Spot.start text.toList)).map (·.1)

def isMatch (p : Pattern) (text : String) : Bool := (p.find? text).isSome

/-- The spot behind the next character, none at the end. -/
def pastNext? (s : Spot) : Option Spot :=
  match s.rest with
  | [] => none
  | c :: rest => some (s.step c rest)

/-- All matches from a spot on that do not overlap, each with the spots before and behind it. An empty
match is passed over where the one before it ended. `fuel` bounds their number: each starts behind the one
before it. -/
def matchesFrom (p : Pattern) : Nat → Option Nat → Spot → List (Match × Spot)
  | 0, _, _ => []
  | fuel + 1, lastStop, s =>
    match p.findSpot? s with
    | none => []
    | some (m, behind) =>
      if m.span.isEmpty && lastStop == some m.stop then
        match (pastNext? s).bind p.findSpot? with
        | none => []
        | some (m, behind) => (m, behind) :: matchesFrom p fuel (some m.stop) behind
      else (m, behind) :: matchesFrom p fuel (some m.stop) behind

/-- All matches in a text that do not overlap, from left to right. -/
def matches_ (p : Pattern) (text : String) : List (Match × Spot) :=
  let chars := text.toList
  p.matchesFrom (2 * chars.length + 2) none (Spot.start chars)

/-- Number of matches in a text. -/
def count (p : Pattern) (text : String) : Nat := (p.matches_ text).length

/-- Replaces matches in the text from a spot on; the list holds the matches with the spots behind
them. -/
def replaceFrom (replacement : Match → String) : Spot → List (Match × Spot) → List Char
  | s, [] => s.rest
  | s, (m, behind) :: more =>
    Text.takeBytes (m.start - s.pos) s.rest ++ (replacement m).toList ++
      replaceFrom replacement behind more

/-- The text with every match replaced. -/
def replaceWith (p : Pattern) (text : String) (replacement : Match → String) : String :=
  String.ofList (replaceFrom replacement (Spot.start text.toList) (p.matches_ text))

end Pattern

end Gloss

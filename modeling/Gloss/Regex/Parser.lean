import Gloss.Regex.Bracket
import Gloss.Regex.Extent

/-!
Reading a pattern. The reader goes through the text once and keeps the groups that are open. Flags hold
from where they are set to the end of the group they are set in.
-/
namespace Gloss.Regex

/-- Settings that change how the text of a pattern is read. -/
structure Flags where
  /-- Letters also stand for their case variants. -/
  caseless : Bool := false
  /-- The marks of start and end hold at every line. -/
  multiline : Bool := false
  /-- The dot stands for every character, line ends too. -/
  dotAll : Bool := false
  /-- Repetitions are lazy unless marked, and greedy if marked. -/
  lazyFirst : Bool := false
  deriving DecidableEq, Repr

/-- A pattern that was read: its expression and the names of groups. -/
structure Parsed where
  regex : Regex
  names : List (String × Nat)
  deriving DecidableEq, Repr

/-- The depth to which the text of a pattern may nest. -/
def depthLimit : Nat := 250

/-- An expression with the depth to which its text nests. -/
structure Piece where
  regex : Regex
  depth : Nat := 0

namespace Piece

/-- The piece, unless it nests too deep. -/
def checked (p : Piece) : Except Malformed Piece :=
  if depthLimit < p.depth then .error .tooDeep else .ok p

/-- Pieces put together by `f`. Several of them nest one deeper than one. -/
def combine (f : List Regex → Regex) (count : Nat) (pieces : List Piece) : Piece :=
  let deepest := pieces.foldl (fun d p => max d p.depth) 0
  ⟨f (pieces.map (·.regex)), if count ≤ 1 then deepest else deepest + 1⟩

end Piece

/-- A group that is open: what precedes it and what holds again after it. -/
structure OpenGroup where
  /-- Its index, none if it captures nothing. -/
  index : Option Nat
  flags : Flags
  branches : List Piece
  items : List (Option Piece)

/-- The reader's state. An item that only sets flags is none: it cannot be repeated. -/
structure Reading where
  outer : List OpenGroup := []
  flags : Flags := {}
  /-- Finished alternatives of the current group, latest first. -/
  branches : List Piece := []
  /-- Items of the current alternative, latest first. -/
  items : List (Option Piece) := []
  groups : Nat := 0
  names : List (String × Nat) := []

namespace Reading

def push (s : Reading) (r : Regex) (depth : Nat) : Reading :=
  { s with items := some ⟨r, depth⟩ :: s.items }

/-- A single character, with its case variants if they are asked for. -/
def pushChar (s : Reading) (c : Char) : Reading :=
  s.push (ofSet (foldCase s.flags.caseless (.single c))) 0

/-- The alternative read last. -/
def branch (s : Reading) : Piece :=
  Piece.combine concat s.items.length (s.items.reverse.filterMap id)

/-- All alternatives of the current group. -/
def value (s : Reading) : Piece :=
  let branches := (s.branch :: s.branches).reverse
  Piece.combine choice branches.length branches

/-- Repeats the latest item. -/
def repeatLast (s : Reading) (lo : Nat) (hi : Option Nat) (greedy : Bool) : Except Malformed Reading :=
  match s.items with
  | some p :: rest => do
    let p ← Piece.checked ⟨repeated lo hi greedy p.regex, p.depth + 1⟩
    return { s with items := some p :: rest }
  | _ => .error .nothingToRepeat

/-- Whether a repetition is greedy, from the mark that may follow it. -/
def greed (s : Reading) : List Char → Bool × List Char
  | '?' :: rest => (s.flags.lazyFirst, rest)
  | rest => (!s.flags.lazyFirst, rest)

/-- A decimal number with blanks around it. -/
def readCount (s : List Char) : Option (Nat × List Char) :=
  let s := s.dropWhile Unicode.isBlank
  let digits := s.takeWhile Char.isDigit
  if digits.isEmpty then none
  else
    let n := digits.foldl (fun n c => 10 * n + (c.toNat - 48)) 0
    if n < 0x100000000 then some (n, (s.drop digits.length).dropWhile Unicode.isBlank) else none

/-- A counted repetition, read after its opening brace. Blanks may stand around a number, but not alone
after the comma. -/
def readCounted (s : Reading) (text : List Char) : Except Malformed (Reading × List Char) :=
  match readCount text with
  | some (lo, '\x7d' :: rest) => counted lo (some lo) rest
  | some (lo, ',' :: '\x7d' :: rest) => counted lo none rest
  | some (lo, ',' :: rest) =>
    match readCount rest with
    | some (hi, '\x7d' :: rest) => if lo ≤ hi then counted lo (some hi) rest else .error .repeatCount
    | _ => .error .repeatCount
  | _ => .error .repeatCount
where
  counted (lo : Nat) (hi : Option Nat) (rest : List Char) : Except Malformed (Reading × List Char) := do
    let (greedy, rest) := s.greed rest
    return (← s.repeatLast lo hi greedy, rest)

/-- One flag letter, switched on or off. -/
def setFlag (flags : Flags) (on : Bool) : Char → Option Flags
  | 'i' => some { flags with caseless := on }
  | 'm' => some { flags with multiline := on }
  | 's' => some { flags with dotAll := on }
  | 'U' => some { flags with lazyFirst := on }
  | 'u' => if on then some flags else none
  | _ => none

/-- Flag letters up to a colon or the closing parenthesis; after a minus they are switched off. No letter
may come twice, and a minus needs a letter. -/
def readFlags (flags : Flags) (on : Bool) (seen : List Char) (dangling : Bool) :
    List Char → Except Malformed (Flags × Bool × List Char)
  | [] => .error .flag
  | ':' :: rest => if dangling then .error .flag else .ok (flags, true, rest)
  | ')' :: rest =>
    if dangling || seen.isEmpty then .error .flag else .ok (flags, false, rest)
  | '-' :: rest => if on then readFlags flags false seen true rest else .error .flag
  | c :: rest =>
    if seen.contains c then .error .flag
    else match setFlag flags on c with
      | some flags => readFlags flags on (c :: seen) false rest
      | none => .error .flag

/-- A group opens. -/
def openGroup (s : Reading) (index : Option Nat) (flags : Flags) : Reading :=
  { s with
    outer := ⟨index, s.flags, s.branches, s.items⟩ :: s.outer
    flags := flags
    branches := []
    items := [] }

def isNameStart (c : Char) : Bool := c == '_' || c.isAlpha

def isNameChar (c : Char) : Bool := isNameStart c || c.isDigit || c == '.' || c == '[' || c == ']'

/-- A named group, read after the mark that opens its name. -/
def openNamed (s : Reading) (text : List Char) : Except Malformed (Reading × List Char) :=
  let name := text.takeWhile (· != '>')
  match name, text.drop name.length with
  | c :: cs, '>' :: rest =>
    let label := String.ofList name
    if isNameStart c && cs.all isNameChar && !s.names.any (·.1 == label) then
      let index := s.groups + 1
      .ok ({ (s.openGroup (some index) s.flags) with
              groups := index, names := (label, index) :: s.names }, rest)
    else .error .groupName
  | _, _ => .error .groupName

/-- What follows an opening parenthesis. -/
def readOpen (s : Reading) : List Char → Except Malformed (Reading × List Char)
  | '?' :: 'P' :: '<' :: rest => s.openNamed rest
  | '?' :: '<' :: rest => s.openNamed rest
  | '?' :: rest => do
    let (flags, opens, rest) ← readFlags s.flags true [] false rest
    if opens then return (s.openGroup none flags, rest)
    else return ({ s with flags, items := none :: s.items }, rest)
  | rest =>
    let index := s.groups + 1
    .ok ({ (s.openGroup (some index) s.flags) with groups := index }, rest)

/-- A closing parenthesis. -/
def closeGroup (s : Reading) : Except Malformed Reading :=
  match s.outer with
  | [] => .error .groupNotOpened
  | g :: outer => do
    let inner := s.value
    let body := match g.index with
      | some i => .group i inner.regex
      | none => inner.regex
    let p ← Piece.checked ⟨body, inner.depth + 1⟩
    return { s with
      outer
      flags := g.flags
      branches := g.branches
      items := some p :: g.items }

/-- Reads what starts with the character `c`. -/
def step (s : Reading) (c : Char) (rest : List Char) : Except Malformed (Reading × List Char) :=
  match c with
  | '(' => s.readOpen rest
  | ')' => do return (← s.closeGroup, rest)
  | '|' => .ok ({ s with branches := s.branch :: s.branches, items := [] }, rest)
  | '[' => do
    let (inner, rest) ← readBracket s.flags.caseless rest
    return (s.push (ofSet inner.set) inner.depth, rest)
  | '?' => do
    let (greedy, rest) := s.greed rest
    return (← s.repeatLast 0 (some 1) greedy, rest)
  | '*' => do
    let (greedy, rest) := s.greed rest
    return (← s.repeatLast 0 none greedy, rest)
  | '+' => do
    let (greedy, rest) := s.greed rest
    return (← s.repeatLast 1 none greedy, rest)
  | '\x7b' => do
    match s.items with
    | some _ :: _ => s.readCounted rest
    | _ => .error .nothingToRepeat
  | '.' => .ok (s.push (.set (if s.flags.dotAll then .any else .notNewline)) 0, rest)
  | '^' => .ok (s.push (.look (if s.flags.multiline then .lineStart else .textStart)) 0, rest)
  | '$' => .ok (s.push (.look (if s.flags.multiline then .lineEnd else .textEnd)) 0, rest)
  | '\\' => do
    let (e, rest) ← readEscape rest
    match e with
    | .char c => return (s.pushChar c, rest)
    | .chars members => return (s.push (ofSet members) 0, rest)
    | .look a => return (s.push (.look a) 0, rest)
  | _ => .ok (s.pushChar c, rest)

/-- Reads a pattern to its end. Every step consumes a character, so as much `fuel` as there are
characters is enough. -/
def run : Nat → Reading → List Char → Except Malformed Reading
  | _, s, [] => .ok s
  | 0, s, _ => .ok s
  | fuel + 1, s, c :: rest => do
    let (s, rest) ← s.step c rest
    run fuel s rest

end Reading

/-- The pattern that a text writes. -/
def parse (text : String) : Except Malformed Parsed := do
  let chars := text.toList
  let s ← Reading.run chars.length {} chars
  match s.outer with
  | [] =>
    let whole ← s.value.checked
    if !Extent.fits whole.regex then .error .tooLarge
    else return ⟨whole.regex, s.names⟩
  | _ :: _ => .error .groupNotClosed

/-- The text of a pattern that stands for `text` itself: characters with a meaning of their own are
escaped. -/
def quote (text : String) : String :=
  String.ofList (text.toList.flatMap fun c => if isMeta c then ['\\', c] else [c])

end Gloss.Regex

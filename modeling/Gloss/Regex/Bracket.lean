import Gloss.Regex.Basic

/-!
Escapes and bracketed sets in the text of a pattern. Readers take the characters that follow the opening
mark and return what they read with the characters after it.
-/
namespace Gloss.Regex

/-- Why a text is not a pattern. -/
inductive Malformed where
  | groupNotClosed
  | groupNotOpened
  | groupName
  | flag
  | nothingToRepeat
  | repeatCount
  | escape
  | bracketNotClosed
  | bracketRange
  | tooDeep
  | tooLarge
  deriving DecidableEq, Repr

/-- What a backslash introduces. -/
inductive Escape where
  | char (c : Char)
  | chars (set : CharSet)
  | look (condition : Assertion)
  deriving DecidableEq, Repr

/-- Characters with a meaning of their own in a pattern. -/
def isMeta (c : Char) : Bool := "\\.+*?()|[]\x7b\x7d^$#&-~".toList.contains c

/-- Value of a hexadecimal digit. -/
def hexValue? (c : Char) : Option Nat :=
  if '0' ≤ c && c ≤ '9' then some (c.toNat - 48)
  else if 'a' ≤ c && c ≤ 'f' then some (c.toNat - 87)
  else if 'A' ≤ c && c ≤ 'F' then some (c.toNat - 55)
  else none

/-- The number that hexadecimal digits write. -/
def hexNumber? (digits : List Char) : Option Nat :=
  digits.foldl (fun acc c => acc.bind fun n => (hexValue? c).map (16 * n + ·)) (some 0)

/-- The character with a code point, if there is one. -/
def charOf? (n : Nat) : Option Char := if n.isValidChar then some (Char.ofNat n) else none

/-- A character by its code point: `digits` hexadecimal digits, or any number of them in braces. -/
def readCode (digits : Nat) (s : List Char) : Except Malformed (Escape × List Char) :=
  let (code, rest) :=
    match s with
    | '\x7b' :: t => (t.takeWhile (· != '\x7d'), t.dropWhile (· != '\x7d'))
    | _ => (s.take digits, s.drop digits)
  let (whole, rest) :=
    match s, rest with
    | '\x7b' :: _, '\x7d' :: rest => (!code.isEmpty, rest)
    | '\x7b' :: _, _ => (false, rest)
    | _, _ => (code.length == digits, rest)
  if whole then
    match (hexNumber? code).bind charOf? with
    | some c => .ok (.char c, rest)
    | none => .error .escape
  else .error .escape

/-- What follows a backslash. -/
def readEscape : List Char → Except Malformed (Escape × List Char)
  | [] => .error .escape
  | c :: rest =>
    match c with
    | 'd' => .ok (.chars .digit, rest)
    | 'D' => .ok (.chars CharSet.digit.negate, rest)
    | 's' => .ok (.chars .blank, rest)
    | 'S' => .ok (.chars CharSet.blank.negate, rest)
    | 'w' => .ok (.chars .word, rest)
    | 'W' => .ok (.chars CharSet.word.negate, rest)
    | 'a' => .ok (.char '\x07', rest)
    | 'f' => .ok (.char '\x0c', rest)
    | 't' => .ok (.char '\t', rest)
    | 'n' => .ok (.char '\n', rest)
    | 'r' => .ok (.char '\r', rest)
    | 'v' => .ok (.char '\x0b', rest)
    | 'A' => .ok (.look .textStart, rest)
    | 'z' => .ok (.look .textEnd, rest)
    | 'b' => .ok (.look .wordBoundary, rest)
    | 'B' => .ok (.look .notWordBoundary, rest)
    | '<' => .ok (.look .wordStart, rest)
    | '>' => .ok (.look .wordEnd, rest)
    | 'x' => readCode 2 rest
    | 'u' => readCode 4 rest
    | 'U' => readCode 8 rest
    | _ => if c.toNat < 128 && !c.isAlphanum then .ok (.char c, rest) else .error .escape

/-- How two sets in a bracket are combined. -/
inductive SetOp where
  | both
  | without
  | either
  deriving DecidableEq, Repr

def SetOp.apply : SetOp → CharSet → CharSet → CharSet
  | .both => CharSet.inter
  | .without => CharSet.minus
  | .either => CharSet.oneOf

/-- Adds case variants if they are asked for. -/
def foldCase (caseless : Bool) (s : CharSet) : CharSet := if caseless then s.foldCase else s

/-- Adds case variants if they are asked for, and then negates if that is. -/
def finishSet (caseless negated : Bool) (s : CharSet) : CharSet :=
  if negated then (foldCase caseless s).negate else foldCase caseless s

/-- A set with the depth to which its text nests. -/
structure NestedSet where
  set : CharSet
  depth : Nat := 0

/-- A set in a bracket: what is still to be combined with it, and the part being read. -/
structure Bracket where
  pending : Option (SetOp × NestedSet) := none
  current : CharSet := .nothing
  /-- Number of members of the part being read. -/
  members : Nat := 0
  /-- The greatest depth of these. -/
  depth : Nat := 0
  negated : Bool := false

namespace Bracket

def add (b : Bracket) (s : NestedSet) : Bracket :=
  { b with
    current := b.current.union s.set
    members := b.members + 1
    depth := max b.depth s.depth }

/-- The part being read. Several members nest one deeper than one. -/
def part (b : Bracket) : NestedSet := ⟨b.current, if b.members ≤ 1 then b.depth else b.depth + 1⟩

/-- The set read so far. -/
def value (b : Bracket) (caseless : Bool) : NestedSet :=
  match b.pending with
  | none => b.part
  | some (op, left) =>
    ⟨op.apply (foldCase caseless left.set) (foldCase caseless b.part.set),
      max left.depth b.part.depth + 1⟩

/-- Starts the right side of an operator. -/
def operator (b : Bracket) (caseless : Bool) (op : SetOp) : Bracket :=
  { pending := some (op, b.value caseless), negated := b.negated }

/-- The whole bracket: case variants come before negation. -/
def close (b : Bracket) (caseless : Bool) : NestedSet :=
  let inner := b.value caseless
  ⟨finishSet caseless b.negated inner.set, inner.depth + 1⟩

end Bracket

/-- A named set such as `[:alpha:]`, read after its opening bracket. -/
def readNamed? (caseless : Bool) (s : List Char) : Option (CharSet × List Char) :=
  match s with
  | ':' :: t =>
    let (negated, t) := match t with
      | '^' :: u => (true, u)
      | _ => (false, t)
    let name := t.takeWhile (· != ':')
    match t.drop name.length with
    | ':' :: ']' :: rest =>
      (CharSet.named? (String.ofList name)).map fun s => (finishSet caseless negated s, rest)
    | _ => none
  | _ => none

/-- What comes first in a bracket: the mark of negation, hyphens, and a closing bracket that is meant as
a character if nothing stands before it. -/
def openBracket (s : List Char) : Bracket × List Char :=
  let (negated, s) := match s with
    | '^' :: t => (true, t)
    | _ => (false, s)
  let hyphens := s.takeWhile (· == '-')
  let b : Bracket := hyphens.foldl (fun b c => b.add ⟨.single c, 0⟩) { negated }
  match hyphens, s.drop hyphens.length with
  | [], ']' :: rest => (b.add ⟨.single ']', 0⟩, rest)
  | _, rest => (b, rest)

/-- One character or escape in a bracket. -/
def readMember : List Char → Except Malformed (Escape × List Char)
  | [] => .error .bracketNotClosed
  | '\\' :: rest => readEscape rest
  | c :: rest => .ok (.char c, rest)

/-- One member of a bracket, or a range of characters. -/
def readRange (s : List Char) : Except Malformed (CharSet × List Char) := do
  let (first, rest) ← readMember s
  match rest with
  | '-' :: next :: more =>
    if next == ']' || next == '-' then lone first rest
    else
      let (second, rest) ← readMember (next :: more)
      match first, second with
      | .char lo, .char hi => if lo ≤ hi then .ok (.range lo hi, rest) else .error .bracketRange
      | _, _ => .error .bracketRange
  | ['-'] => .error .bracketNotClosed
  | _ => lone first rest
where
  lone (e : Escape) (rest : List Char) : Except Malformed (CharSet × List Char) :=
    match e with
    | .char c => .ok (.single c, rest)
    | .chars s => .ok (s, rest)
    | .look _ => .error .escape

/-- The rest of a bracket whose beginning was read. Brackets may be nested; `outer` holds those that the
current one stands in. Every step consumes a character, so as much `fuel` as there are characters is
enough. -/
def readBracketFrom (caseless : Bool) :
    Nat → List Bracket → Bracket → List Char → Except Malformed (NestedSet × List Char)
  | 0, _, _, _ => .error .bracketNotClosed
  | fuel + 1, outer, b, s =>
    match s with
    | [] => .error .bracketNotClosed
    | ']' :: rest =>
      match outer with
      | [] => .ok (b.close caseless, rest)
      | above :: outer => readBracketFrom caseless fuel outer (above.add (b.close caseless)) rest
    | '[' :: rest =>
      match readNamed? caseless rest with
      | some (named, rest) => readBracketFrom caseless fuel outer (b.add ⟨named, 0⟩) rest
      | none =>
        let (inner, rest) := openBracket rest
        readBracketFrom caseless fuel (b :: outer) inner rest
    | '&' :: '&' :: rest => readBracketFrom caseless fuel outer (b.operator caseless .both) rest
    | '-' :: '-' :: rest => readBracketFrom caseless fuel outer (b.operator caseless .without) rest
    | '~' :: '~' :: rest => readBracketFrom caseless fuel outer (b.operator caseless .either) rest
    | _ => do
      let (range, rest) ← readRange s
      readBracketFrom caseless fuel outer (b.add ⟨range, 0⟩) rest

/-- A bracketed set, read after its opening bracket. -/
def readBracket (caseless : Bool) (s : List Char) : Except Malformed (NestedSet × List Char) :=
  let (b, rest) := openBracket s
  readBracketFrom caseless (s.length + 1) [] b rest

end Gloss.Regex

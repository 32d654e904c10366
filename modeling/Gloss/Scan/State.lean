import Gloss.Keyed
import Gloss.Pattern.Table
import Gloss.Scan.Error
import Gloss.Scan.Outline
import Gloss.Scan.Region

/-!
The state of a scan and the operations on it. A scan moves a cursor over the source, records tokens and
keeps a stack of open regions. Output goes into a flat stream or into a tree in which regions are nodes.

Operations run in `ScanM`. An operation that fails leaves the state as it is at that moment, and scanning
can go on from there.
-/
namespace Gloss

open Text (Source)

/-- The state of a scan. -/
structure ScanState where
  cursor : Cursor := {}
  tokens : TokenStream := {}
  /-- Kinds of names that the source defines itself. -/
  userDefs : Keyed String Kind := []
  /-- Open regions, innermost first. -/
  regions : List Region := []
  /-- The tree of output of a scan that records one. -/
  outline : Option Outline := none
  deriving Inhabited

/-- Operations on the state of a scan. -/
abbrev ScanM := EStateM ScanError ScanState

namespace ScanState

/-- A state that records a tree, over an empty source. -/
def emptyTree : ScanState := { outline := some {} }

/-- Forgets output, definitions and regions. -/
def clearOutput (s : ScanState) : ScanState :=
  { cursor := s.cursor, outline := s.outline.map fun _ => {} }

/-- Another source, with nothing left of the one before. -/
def setSource (s : ScanState) (source : Source) : ScanState :=
  { s with cursor := s.cursor.setSource source }.clearOutput

/-- Back to the start of the source, with nothing recorded. -/
def reset (s : ScanState) : ScanState := { s with cursor := s.cursor.reset }.clearOutput

def pos (s : ScanState) : Nat := s.cursor.pos

def source (s : ScanState) : Source := s.cursor.source

/-- Number of open regions. -/
def depth (s : ScanState) : Nat := s.regions.length

def setPos (s : ScanState) (pos : Nat) : ScanState := { s with cursor := s.cursor.setPos pos }

/-- The name of the innermost region, or of the initial state. -/
def stateName (s : ScanState) : Kind :=
  match s.regions with
  | r :: _ => r.name
  | [] => .initial

/-- Records a token into the tree or the stream. -/
def record (s : ScanState) (t : Token) : ScanState :=
  match s.outline with
  | some o => { s with outline := some (o.record t) }
  | none => { s with tokens := s.tokens.push t }

end ScanState

namespace Scan

/-- Runs an operation of the cursor. -/
def onCursor {α : Type} (f : Cursor → α × Cursor) : ScanM α :=
  modifyGet fun s =>
    let (a, c) := f s.cursor
    (a, { s with cursor := c })

/-- Reads something off the cursor. -/
def ofCursor {α : Type} (f : Cursor → α) : ScanM α := return f (← get).cursor

def pos : ScanM Nat := ofCursor (·.pos)
def atEnd : ScanM Bool := ofCursor (·.atEnd)
def peek? : ScanM (Option Char) := ofCursor (·.peek?)
def charBefore? : ScanM (Option Char) := ofCursor (·.charBefore?)
def rest : ScanM String := ofCursor (·.rest)
def restChars : ScanM (List Char) := ofCursor (·.restChars)
def slice (start stop : Nat) : ScanM String := ofCursor (·.slice start stop)
def textOf (m : Match) : ScanM String := ofCursor fun c => m.text c.source
def groupOf (m : Match) (i : Nat) : ScanM String := ofCursor fun c => m.groupText c.source i

def setPos (pos : Nat) : ScanM Unit := onCursor fun c => ((), c.setPos pos)
def shift (bytes : Nat) : ScanM Unit := onCursor fun c => ((), c.shift bytes)
def terminate : ScanM Unit := onCursor fun c => ((), c.terminate)
def accept (m : Match) : ScanM Unit := onCursor fun c => ((), c.accept m)
def unscan : ScanM Bool := onCursor (·.unscan)
def take (n : Nat) : ScanM String := onCursor (·.take n)
def search (p : Pattern) : ScanM (Option Match) := onCursor (·.search p)
def check (p : Pattern) : ScanM (Option Match) := onCursor (·.check p)
def scan (p : Pattern) : ScanM (Option Match) := onCursor (·.scan p)
def scanUntil (p : Pattern) : ScanM (Option Match) := onCursor (·.scanUntil p)
def index (p : Pattern) : ScanM (Option Nat) := onCursor (·.index p)

/-- The pattern that a text writes, for texts that depend on the source; fails if it writes none. -/
@[irreducible]
def compile (text : String) : ScanM Pattern :=
  match Pattern.compile text with
  | .ok p => return p
  | .error e => throw (.invalidPattern e)

/-- Records raw text. -/
def record (kind : Option Kind) (text : String) : ScanM Unit := modify (·.record (.raw kind text))

/-- Records finished markup. -/
def recordMarkup (kind : Option Kind) (text : String) : ScanM Unit :=
  modify (·.record (.markup kind text))

/-- Records the source between two offsets. -/
def recordRange (start stop : Nat) (kind : Option Kind) : ScanM Unit := do
  if stop < start then throw (.invalidRange start stop)
  if start < stop then record kind (← slice start stop)

/-- Records the text of a match. -/
def recordMatch (kind : Option Kind) (m : Match) : ScanM Unit := do record kind (← textOf m)

/-- Records all from the cursor on and moves to the end; does nothing at the end. -/
def recordRest (kind : Option Kind) : ScanM Unit := do
  if !(← atEnd) then
    record kind (← rest)
    terminate

/-- Consumes and records a match of the pattern at the cursor, if there is one. -/
def scanAndRecord (p : Pattern) (kind : Option Kind) : ScanM Unit := do
  if let some m ← scan p then recordMatch kind m

/-- Drops the recorded tokens. -/
def clearTokens : ScanM Unit := modify fun s => { s with tokens := {} }

/-- Records white space at the cursor. -/
def skipBlank : ScanM Unit := do
  let blank := (← restChars).takeWhile Unicode.isBlank
  if !blank.isEmpty then
    let start ← pos
    let stop := start + Text.byteSize blank
    let text ← slice start stop
    setPos stop
    record none text

/-- Remembers that the source defines a name. -/
def define (name : String) (kind : Kind) : ScanM Unit :=
  modify fun s => { s with userDefs := s.userDefs.put name kind }

/-- Opens a region. -/
def pushRegion (r : Region) : ScanM Unit :=
  modify fun s =>
    { s with regions := r :: s.regions, outline := s.outline.map (·.openNode r.name) }

/-- Closes the innermost region. -/
def popRegion : ScanM Region := do
  match (← get).regions with
  | [] => throw .noOpenRegion
  | r :: outer =>
    modify fun s => { s with regions := outer, outline := s.outline.map (·.closeNode) }
    return r

/-- The innermost region. -/
def region? : ScanM (Option Region) := return (← get).regions.head?

/-- Says under which kind text left over in the innermost region is recorded. Returns whether there is a
region. -/
def setExtra (kind : Option Kind) : ScanM Bool :=
  modifyGet fun s =>
    match s.regions with
    | [] => (false, s)
    | r :: outer => (true, { s with regions := { r with extra := kind } :: outer })

def stateName : ScanM Kind := return (← get).stateName

def depth : ScanM Nat := return (← get).depth

/-- Fails unless the cursor has moved past an offset, the number of open regions has changed or the end
is reached. -/
def ensureProgress (language : String) (start depth : Nat) : ScanM Unit := do
  let s ← get
  if start < s.pos || s.depth != depth || s.cursor.atEnd then return
  throw (.noProgress language start)

/-- One round over a nestable construct, with `depth` openings not yet closed: goes to the nearest of
opening and closing and returns the new depth, or none when the construct ends. A construct that is not
closed runs to the end. -/
def nestRound (opening closing : Pattern) (depth : Nat) : ScanM (Option Nat) := do
  match ← onCursor (·.nearest [(true, opening), (false, closing)]) with
  | none =>
    terminate
    return none
  | some (opens, m) =>
    setPos m.stop
    let depth := if opens then depth + 1 else depth - 1
    if !opens && depth == 0 then return none
    if m.span.isEmpty then shift 1
    return some depth

/-- Rounds over a nestable construct until it ends. -/
def nestRounds (opening closing : Pattern) : Nat → Nat → ScanM Unit
  | 0, _ => throw (.outOfSteps "")
  | fuel + 1, depth => do
    match ← nestRound opening closing depth with
    | none => return
    | some depth => nestRounds opening closing fuel depth

/-- Records a construct that may contain itself as one token. The cursor is at its opening. -/
def nestable (kind : Kind) (opening closing : Pattern) : ScanM Unit := do
  let start ← pos
  if (← check opening).isNone then throw (.nestableMismatch kind start)
  let size := (← get).source.size
  nestRounds opening closing (2 * size + 2) 0
  recordRange start (← pos) (some kind)

end Scan

end Gloss

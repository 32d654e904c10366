import Gloss.Guess.Weight
import Gloss.Scan.Flat
import Gloss.Scan.Scanner

/-!
Diffs: normal, context and unified, told apart by the marks their lines start with. Headers, ranges and
changed lines are tagged. A pretty diff also highlights the code in it: the marks are taken off a block of
lines, the rest goes through a scanner for the language of the file, and every line of the result gets its
mark back. Highlighting the block as a whole keeps tokens of several lines intact.
-/
namespace Gloss.Language.Diff

open Text (Source)

def range : Kind := ⟨"DIFF_RANGE"⟩
def headerOld : Kind := ⟨"DIFF_HEADER_OLD"⟩
def headerNew : Kind := ⟨"DIFF_HEADER_NEW"⟩
def old : Kind := ⟨"DIFF_OLD"⟩
def new : Kind := ⟨"DIFF_NEW"⟩
def unchanged : Kind := ⟨"DIFF_UNCHANGED"⟩

/-- The grammar has no patterns and no filters. -/
def grammar : Grammar := .bare "diff"

/-- The three formats. -/
inductive Format where
  | normal
  | context
  | unified
  deriving DecidableEq, Repr

def normalMark : Pattern := .ofText "(?m)^[<>]"
def contextMark : Pattern := .ofText "(?m)^\\*\x7b3\x7d"

/-- The format of a text, from the marks in it. -/
def Format.ofText (text : String) : Format :=
  if normalMark.isMatch text then .normal
  else if contextMark.isMatch text then .context
  else .unified

def diffLine : Pattern := .ofText "diff[ \\t].*"
def normalRange : Pattern := .ofText "\\d+.*"
def contextRange : Pattern :=
  .ofText "(?:\\*\x7b3\x7d[ \\t]+\\d+,\\d+[ \\t]+\\*\x7b3\x7d|-\x7b3\x7d[ \\t]+\\d+,\\d+[ \\t]+-\x7b3\x7d).*"
def unifiedRange : Pattern := .ofText "@@.*"
def bareDashes : Pattern := .ofText "(?m)-\x7b3\x7d[ \\t]*$"
def keywordLine : Pattern := .ofText "(?m)(?:\\**|=*|\\w.*)$"
def headerLine : Pattern := .ofText "[+\\-*]\x7b3\x7d(?:[ \\t]+(\\S*))?.*"
def noNewline : Pattern := .ofText "\\\\.*"
def normalBlock : Pattern := .ofText "(?m)^[<> ].*(?:\\n[<> ].*)*"
def contextBlock : Pattern := .ofText "(?m)^[!+\\- ].*(?:\\n[!+\\- ].*)*"
def unifiedBlock : Pattern := .ofText "(?m)^[+\\- ].*(?:\\n[+\\- ].*)*"
def wholeLine : Pattern := .ofText ".*"

/-- A line that says where the next lines belong. -/
def Format.range : Format → Pattern
  | .normal => normalRange
  | .context => contextRange
  | .unified => unifiedRange

/-- Lines of code. -/
def Format.block : Format → Pattern
  | .normal => normalBlock
  | .context => contextBlock
  | .unified => unifiedBlock

/-- A highlighter for code in a diff: its language and what it makes of a text. -/
structure Highlighter where
  language : String
  highlight : String → Except ScanError String

/-- Finds a highlighter by the extension of a file. The number bounds how deep diffs stand in diffs. -/
abbrev Lookup := Nat → String → Except ScanError Highlighter

/-- A scanner for diffs; it is pretty if it has highlighters. -/
structure DiffScanner where
  grammar : Grammar := Diff.grammar
  lookup : Option Lookup := none
  state : ScanState := {}
  format : Format := .unified
  child : Option Highlighter := none
  /-- Are we in the second half of a part of a context diff? -/
  newHalf : Bool := false

/-- Operations of the scanner. -/
abbrev DiffM := EStateM ScanError DiffScanner

instance : MonadLift ScanM DiffM :=
  ⟨zoom DiffScanner.state fun x s => { x with state := s }⟩

/-- The part of a text after the last of some characters; none if there is none of them. -/
def afterLast? (isMark : Char → Bool) (s : List Char) : Option (List Char) :=
  if s.any isMark then some (s.reverse.takeWhile (!isMark ·)).reverse else none

/-- The extension of a path, in small letters. -/
def extension? (path : String) : Option String :=
  let chars := path.toList
  let name := (afterLast? (fun c => c == '/' || c == '\\') chars).getD chars
  (afterLast? (· == '.') name).map fun ext => (String.ofList ext).map Char.toLower

/-- The highlighter for a file. -/
def DiffScanner.childFor (x : DiffScanner) (path : String) : Option Highlighter :=
  match x.lookup, extension? path with
  | some lookup, some ext => (lookup x.state.source.size ext).toOption
  | _, _ => none

/-- The kind of a header with a mark. -/
def Format.headerKind (f : Format) (mark : Char) : Kind :=
  let isNew := match f with
    | .context => mark != '*'
    | _ => mark == '+'
  if isNew then headerNew else headerOld

/-- The kind of a line with a mark. -/
def lineKind (newHalf : Bool) (mark : Char) : Kind :=
  match mark with
  | '+' | '>' => new
  | '-' | '<' => old
  | '!' => if newHalf then new else old
  | _ => unchanged

/-- A line of one token: its kind and where it ends. -/
abbrev LineToken := Option Kind × Nat

/-- A header line. A path in it chooses the highlighter. -/
def header : DiffM (Option LineToken) := do
  match ← (Scan.check headerLine : ScanM _) with
  | none => return none
  | some m =>
    let mark := ((← get).state.source.charAt? m.start).getD '-'
    if (m.group? 1).isSome then
      let path ← Scan.groupOf m 1
      modify fun x => { x with child := x.childFor path }
    return some (some ((← get).format.headerKind mark), m.stop)

/-- The line of one token at the cursor, none if code is there. -/
def lineToken : DiffM (Option LineToken) := do
  let format := (← get).format
  if let some m ← (Scan.check diffLine : ScanM _) then return some (some .keyword, m.stop)
  if let some m ← (Scan.check format.range : ScanM _) then
    modify fun x => { x with newHalf := x.state.source.charAt? m.start == some '-' }
    return some (some range, m.stop)
  if let some m ← (Scan.check bareDashes : ScanM _) then return some (none, m.stop)
  if let some m ← (Scan.check keywordLine : ScanM _) then return some (some .keyword, m.stop)
  if let some token ← header then return some token
  return (← (Scan.check noNewline : ScanM _)).map ((none, ·.stop))

/-- Does a line of a context diff start its second half? -/
def startsHalf (line : List Char) : Bool :=
  (contextRange.find? (String.ofList line)).any (·.start == 0)

/-- The end of the lines before the first that starts a second half; `start` is the offset of the next
line. -/
def halfEnd? (start : Nat) : List (List Char) → Option Nat
  | [] => none
  | line :: rest =>
    if startsHalf line then some (start - 1) else halfEnd? (start + Text.byteSize line + 1) rest

/-- The end of the block of code at the cursor. -/
def blockEnd : DiffM (Option Nat) := do
  let format := (← get).format
  match ← (Scan.check format.block : ScanM _) with
  | none => return none
  | some m =>
    if format ≠ .context then return some m.stop
    match Text.splitLines (← Scan.textOf m).toList with
    | [] => return some m.stop
    | first :: rest =>
      return some ((halfEnd? (m.start + Text.byteSize first + 1) rest).getD m.stop)

/-- The markup of lines of code without their marks, one text for each; none if there is no highlighter,
if it fails or if it changes the number of lines. -/
def renderCode? (child : Option Highlighter) (lines : List (List Char)) : Option (List (List Char)) :=
  match child with
  | none => none
  | some h =>
    let code := (lines.map (·.drop 1)).intersperse ['\n'] |>.flatten
    match h.highlight (String.ofList code) with
    | .error _ => none
    | .ok out =>
      let rendered := Text.splitLines out.toList
      if rendered.length = lines.length then some rendered else none

/-- Records lines of code, each with its mark. -/
def recordLines (newHalf : Bool) : Bool → List (List Char × Option (List Char)) → ScanM Unit
  | _, [] => return
  | first, (line, rendered) :: rest => do
    if !first then Scan.record none "\n"
    let mark := line.take 1
    let kind := some (lineKind newHalf (mark.head?.getD ' '))
    match rendered with
    | some markup => Scan.recordMarkup kind (String.ofList (Markup.escapeChars mark ++ markup))
    | none => Scan.record kind (String.ofList line)
    recordLines newHalf false rest

/-- Records a block of code. -/
def codeBlock (start stop : Nat) : DiffM Unit := do
  let block ← Scan.slice start stop
  Scan.setPos stop
  let x ← get
  let lines := Text.splitLines block.toList
  let rendered := match renderCode? x.child lines with
    | some out => out.map some
    | none => lines.map fun _ => none
  recordLines x.newHalf true (lines.zip rendered)

/-- One step from a place before the end: a line or a block, and the line end behind it. -/
def step : DiffM Unit := do
  let start ← Scan.pos
  match ← lineToken with
  | some (kind, stop) =>
    Scan.recordRange start stop kind
    Scan.setPos stop
  | none =>
    match ← blockEnd with
    | some stop => codeBlock start stop
    | none =>
      let stop := ((← (Scan.check wholeLine : ScanM _)).map (·.stop)).getD start
      Scan.recordRange start stop none
      Scan.setPos stop
  if (← Scan.peek?) = some '\n' then
    let _ ← (Scan.take 1 : ScanM _)
    Scan.record none "\n"
  Scan.ensureProgress (← get).grammar.name start 0

/-- Steps until the end is reached. -/
def loop : Nat → DiffM Unit
  | 0 => do throw (.outOfSteps (← get).grammar.name)
  | fuel + 1 => do
    if !(← Scan.atEnd) then
      step
      loop fuel

/-- Scans to the end. -/
def main : DiffM Unit := do loop (Flat.budget (← get).state)

instance : Scanner DiffScanner where
  grammar x := x.grammar
  state x := x.state
  withState x s := { x with state := s }
  setSource x source :=
    { x with
      state := x.state.setSource source, format := .ofText source.text, child := none,
      newHalf := false }
  main := main
  interrupted _ := false

/-- A tenth of all lines with a mark earns the most that lines can. -/
def rate : Guess.Rating := fun text overview =>
  let sum := Guess.weigh text 0 [
    (.ofText "(?m)^-\x7b3\x7d.*[\\n\\r]+\\+\x7b3\x7d", 0.25),
    (.ofText "(?m)^@@.*@@", 0.25),
    (.ofText "(?m)^(?:index|diff)\\b", 0.10)]
  if 0 < overview.lineCount then
    let marked := Pattern.count (.ofText "(?m)^[<>+\\-!]\\s") text
    let proportion := marked.toFloat / overview.lineCount.toFloat
    sum + 4 * (if 0.1 < proportion then 0.1 else proportion)
  else sum

end Gloss.Language.Diff

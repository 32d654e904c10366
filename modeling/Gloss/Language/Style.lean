import Gloss.Filter.Defaults
import Gloss.Guess.Weight
import Gloss.Pattern.Presets
import Gloss.Scan.Flat
import Gloss.Scan.Scanner
import Gloss.Scan.Suspension
import Gloss.Scan.Unwind

/-!
CSS. At the top level stand selectors; a brace opens a block in which words are names of properties and
values in turn; a media rule opens a region whose own brace starts a nested top level. Embedded in HTML the
scanner stops in front of the closing tag of the style, in a server language in front of the server's tag.
-/
namespace Gloss.Language.Style

open Text (Source)

/-- The name of a property. -/
def key : Kind := ⟨"KEY"⟩

/-- The name of a class, an element or a state. -/
def selector : Kind := ⟨"SELECTOR"⟩

/-- An attribute in brackets. -/
def attributeSelector : Kind := ⟨"ATTR_SELECTOR"⟩

/-- An argument in parentheses. -/
def roundSelector : Kind := ⟨"ROUND_BRACKET_SELECTOR"⟩

def singleString : Kind := ⟨"SSTRING"⟩
def doubleString : Kind := ⟨"DSTRING"⟩

/-- The region of a block. -/
def block : Kind := ⟨"block"⟩

/-- The region of a media rule. -/
def media : Kind := ⟨"media"⟩

/-- The top level nested in a media rule. -/
def nestedTop : Kind := ⟨"global"⟩

/-- The grammar: how kinds are shown and taken up again. Its tokens come from a loop of their own. -/
def grammar : Grammar :=
  Grammar.withFilters "css"
  |>.showAs .tag (some .keyword)
  |>.showAs key (some .type)
  |>.showAs selector (some .variable_)
  |>.showAs attributeSelector (some .operator)
  |>.showAs roundSelector (some .operator)
  |>.showAs singleString (some .string)
  |>.showAs doubleString (some .string)
  |>.recover .comment (.ofText "(?s).*?(?:\\*/|\\z)")
  |>.recover singleString (.ofText "(?s)(?:[^\\\\']|\\\\.)*(?:'|\\\\?\\z)")
  |>.recover doubleString (.ofText "(?s)(?:[^\\\\\"]|\\\\.)*(?:\"|\\\\?\\z)")
  |>.recover attributeSelector (.ofText "(?s)(?:[^\\]\\\\]|\\\\.)*(?:\\]|\\\\?\\z)")
  |>.recover roundSelector (.ofText "(?s)(?:[^)\\\\]|\\\\.)*(?:\\)|\\\\?\\z)")

def commentPattern : Pattern := .ofText Presets.blockComment
def hexColour : Pattern := .ofText "#[a-fA-F0-9]\x7b3\x7d(?:[a-fA-F0-9]\x7b3\x7d)?"
def length : Pattern := .ofText "-?\\d+(?:\\.\\d+)?(?:em|px|ex|ch|mm|cm|in|pt|%)?"
def selectorName : Pattern := .ofText "[\\w\\-]+"
def mediaRule : Pattern := .ofText "@(?:-(?:moz|ms|webkit|o)-)?(?:keyframes|media)\\b"
def word : Pattern := .ofText "(!?)[\\-\\w@]+"
def attributePattern : Pattern := .ofText "(?s)\\[(?:[^\\]\\\\]|\\\\.)*\\]"
def roundPattern : Pattern := .ofText "(?s)\\((?:[^)\\\\]|\\\\.)*\\)"
def doubleQuoted : Pattern := .ofText Presets.doubleQuoted
def singleQuoted : Pattern := .ofText Presets.singleQuoted
def styleClose : Pattern := .ofText "(?i)<\\s*/\\s*style"
def operators : Pattern := .ofText "[:.#>*]+"

/-- What a word in a block is. -/
inductive Expected where
  | key
  | value
  deriving DecidableEq, Repr

/-- A scanner for styles. -/
structure StyleScanner where
  grammar : Grammar := Style.grammar
  embedding : Embedding := {}
  /-- The server's tag as a pattern. -/
  serverTag : Pattern := .literal embedding.serverTag
  state : ScanState := {}
  suspension : Suspension := {}
  expected : Expected := .key

/-- Operations of the scanner. -/
abbrev StyleM := EStateM ScanError StyleScanner

instance : MonadLift ScanM StyleM :=
  ⟨zoom StyleScanner.state fun x s => { x with state := s }⟩

instance : MonadLift SuspendM StyleM :=
  ⟨zoom (fun x => (x.state, x.suspension)) fun x (s, y) => { x with state := s, suspension := y }⟩

/-- A token that was consumed, or the end of the scan. -/
inductive Finding where
  | token (kind : Option Kind) (m : Match)
  | stop

/-- Consumes one character. -/
def single (kind : Option Kind) : ScanM Finding := do
  let start ← Scan.pos
  let size := ((← Scan.peek?).map Char.utf8Size).getD 1
  let m := Match.ofRange start (start + size)
  Scan.accept m
  return .token kind m

/-- Consumes a match of a pattern as a token, if there is one and the condition holds. -/
def tryToken (condition : Bool) (kind : Kind) (p : Pattern) : ScanM (Option Finding) := do
  if !condition then return none
  return (← Scan.scan p).map (.token (some kind))

/-- Closes what a closing brace closes: a block or a media rule, or a nested top level with its media
rule. -/
def closeBrace : ScanM Unit := do
  let state ← Scan.stateName
  if state = block || state = media then
    let _ ← Scan.popRegion
  else if state = nestedTop then
    let _ ← Scan.popRegion
    if (← Scan.stateName) = media then
      let _ ← Scan.popRegion

/-- Closes as many regions as there are in a list. -/
def closeRegions : List Region → ScanM Unit
  | [] => return
  | _ :: rest => do
    let _ ← Scan.popRegion
    closeRegions rest

/-- The first result of some attempts, and of a last one if all others come to nothing. -/
def firstOf (attempts : List (StyleM (Option Finding))) (last : StyleM Finding) : StyleM Finding :=
  match attempts with
  | [] => last
  | a :: rest => do
    match ← a with
    | some f => return f
    | none => firstOf rest last

/-- A word and its kind: a value in a media rule, a selector outside blocks, and in a block the name of a
property, a function or a value. -/
def wordToken (inBlock inMedia : Bool) (expected : Expected) : ScanM (Option Finding) := do
  match ← Scan.scan word with
  | none => return none
  | some m =>
    let important := (m.group? 1).any (!·.isEmpty)
    let text ← Scan.textOf m
    let kind : Kind :=
      if inMedia then .value
      else if !inBlock || important then .tag
      else if expected = .key then key
      else if text = "url" || text = "rgb" || text = "rgba" then .function
      else .value
    return some (.token (some kind) m)

/-- A character with a meaning of its own. -/
def mark (c : Char) (inBlock inMedia : Bool) : StyleM (Option Finding) := do
  match c with
  | '\x7d' =>
    closeBrace
    return some (← (single none : ScanM _))
  | '\x7b' =>
    let start ← Scan.pos
    if inMedia then Scan.pushRegion { name := nestedTop, start }
    else if !inBlock then
      Scan.pushRegion { name := block, start }
      modify fun x => { x with expected := .key }
    return some (← (single none : ScanM _))
  | '"' => tryToken true doubleString doubleQuoted
  | '\'' => tryToken true singleString singleQuoted
  | ':' =>
    if inBlock then
      modify fun x => { x with expected := .value }
      return some (← (single (some .operator) : ScanM _))
    else return none
  | ';' =>
    if inBlock then
      modify fun x => { x with expected := .key }
      return some (← (single (some .operator) : ScanM _))
    else return none
  | _ => return none

/-- Consumes the token at the cursor. -/
def next : StyleM Finding := do
  let c := (← Scan.peek?).getD '\x00'
  let state ← Scan.stateName
  let inBlock := state = block
  let inMedia := state = media
  firstOf [
    do
      let x ← get
      if x.embedding.server && (← Scan.check x.serverTag).isSome then
        modify fun x => { x with suspension := { x.suspension with interrupted := true } }
        return some .stop
      return none,
    tryToken (c == '/') .comment commentPattern,
    tryToken (inBlock && c == '#') .numeric hexColour,
    tryToken (inBlock && (c.isDigit || c == '-')) .numeric length,
    do
      let named := (← Scan.charBefore?).any fun b => b == '#' || b == '.' || b == ':'
      tryToken (!inBlock && named) selector selectorName,
    do
      match ← (tryToken (!inBlock && !inMedia && c == '@') .tag mediaRule : ScanM _) with
      | some (.token kind m) =>
        Scan.pushRegion { name := media, start := m.start }
        return some (.token kind m)
      | other => return other,
    do
      if c.isAlpha || c == '!' || c == '@' || c == '_' || c == '-' then
        wordToken inBlock inMedia (← get).expected
      else return none,
    tryToken (!inBlock && c == '[') attributeSelector attributePattern,
    tryToken (!inBlock && c == '(') roundSelector roundPattern,
    mark c inBlock inMedia,
    do
      if (← get).embedding.html && (← Scan.check styleClose).isSome then
        modify fun x => { x with suspension := {} }
        closeRegions (← get).state.regions
        return some .stop
      return none,
    tryToken true .operator operators]
    (single none)

/-- How a step ends: the scan goes on, it has reached the end of the source, or it has left before. -/
inductive Progress where
  | more
  | atEnd
  | left
  deriving DecidableEq, Repr

/-- Consumes white space and a token. -/
def stepToken : StyleM Progress := do
  Scan.skipBlank
  if ← Scan.atEnd then return .atEnd
  let start ← Scan.pos
  let depth ← Scan.depth
  match ← next with
  | .stop => return .left
  | .token kind m =>
    let x ← get
    if let some kind := kind then
      if ← Suspend.serverBreak x.grammar x.embedding kind m then return .left
    Scan.recordMatch kind m
    Scan.ensureProgress x.grammar.name start depth
    return .more

/-- One step from a place before the end. -/
def step : StyleM Progress := do
  let x ← get
  match ← Suspend.resume x.grammar with
  | none => stepToken
  | some (kind, m) =>
    if ← Suspend.serverBreak x.grammar x.embedding kind m then return .left
    if !m.span.isEmpty then Scan.recordMatch (some kind) m
    stepToken

/-- Steps until the scan ends; at the end of the source open regions are given up. -/
def loop : Nat → StyleM Unit
  | 0 => do throw (.outOfSteps (← get).grammar.name)
  | fuel + 1 => do
    if ← Scan.atEnd then Scan.unwind (← get).grammar
    else
      match ← step with
      | .more => loop fuel
      | .atEnd => Scan.unwind (← get).grammar
      | .left => return

/-- Scans to the end of the source or of the style. -/
def main : StyleM Unit := do
  modify fun x => { x with suspension := { x.suspension with interrupted := false } }
  loop (Flat.budget (← get).state)

instance : Scanner StyleScanner where
  grammar x := x.grammar
  state x := x.state
  withState x s := { x with state := s }
  setSource x source := { x with state := x.state.setSource source, suspension := {}, expected := .key }
  main := main
  interrupted x := x.suspension.interrupted

def rate : Guess.Rating := fun text _ =>
  let sum := Guess.weigh text 0
    [(.ofText "(?:font-family|font-style|font-weight)\\s*:\\s*[^;\\n\\r]*;", 0.15)]
  let sum := if Text.occursIn "!important" text then sum + 0.05 else sum
  Guess.weigh text sum [(.ofText "\\b(?:div|span|table|body)\\b[^\\n\\r\x7b]*[\\r\\n]*\\\x7b", 0.10)]

end Gloss.Language.Style

import Gloss.Language.Script
import Gloss.Language.Style

/-!
HTML. Outside of tags only entities and opening angle brackets matter; inside, the name of the tag, the
names of attributes, their values and quoted strings are told apart. The bodies of scripts and styles go to
children. Embedded in a server language, the scanner hands control back at every tag of the server, and a
child or a token that was interrupted there is taken up again behind it.
-/
namespace Gloss.Language.Html

open Script (ScriptScanner)
open Style (StyleScanner)
open Text (Source)

def doubleString : Kind := ⟨"DSTRING"⟩
def singleString : Kind := ⟨"SSTRING"⟩

/-- A comment proper. -/
def comment : Kind := ⟨"COMMENT1"⟩

/-- Any other declaration. -/
def declaration : Kind := ⟨"COMMENT2"⟩

def cdata : Kind := ⟨"CDATA"⟩
def ampersand : Kind := ⟨"AMP"⟩
def lessThan : Kind := ⟨"LT"⟩

/-- The server's tag. -/
def term : Kind := ⟨"TERM"⟩

/-- The grammar. Outside of tags only these characters matter. -/
def grammar (e : Embedding) : Grammar :=
  let stops (g : Grammar) : Grammar := if e.server then g.token term (.literal e.serverTag) else g
  stops (Grammar.withFilters "html"
    |>.showAs doubleString (some .string)
    |>.showAs singleString (some .string)
    |>.showAs comment (some .comment)
    |>.showAs declaration (some .comment)
    |>.showAs cdata (some .comment)
    |>.recover doubleString (.ofText "[^\">]*\"?")
    |>.recover singleString (.ofText "[^'>]*'?")
    |>.recover comment (.ofText "(?s).*?(?:-->|\\z)")
    |>.recover declaration (.ofText "[^>]*>?")
    |>.recover cdata (.ofText "(?s).*?(?:\\]\\]>|\\z)")
    |>.recover .escape (.ofText "[^;]*;?")
    |>.recover .type (.ofText "\\S*")
    |>.recover .value (.ofText "\\S*")
    |>.recover .htmlTag (.ofText "\\S*")
    |>.token ampersand (.ofText "&"))
  |>.token lessThan (.ofText "<")

def entity : Pattern := .ofText "&[^;\\s]+;"
def doctype : Pattern := .ofText "(?i)(<)(!DOCTYPE)"
def cdataPattern : Pattern := .ofText "(?is)<!\\[CDATA\\[.*?(?:\\]\\]>|\\z)"
def commentPattern : Pattern := .ofText "(?s)<!--.*?(?:-->|\\z)"
def declarationPattern : Pattern := .ofText "<![^>]*>?"
def selfClose : Pattern := .ofText "/\\s*>"
def singleQuoted : Pattern := .ofText "(?s)'(?:[^'\\\\>]|\\\\.)*'?"
def doubleQuoted : Pattern := .ofText "(?s)\"(?:[^\"\\\\>]|\\\\.)*\"?"
def name : Pattern := .ofText "/?[^\\s=<>/]+"

/-- What the next name in a tag is. -/
inductive Expected where
  | attribute
  | tagName
  | value
  deriving DecidableEq, Repr

/-- A scanner for HTML. -/
structure HtmlScanner where
  grammar : Grammar
  embedding : Embedding := {}
  /-- The server's tag as a pattern. -/
  serverTag : Pattern := .literal embedding.serverTag
  script : Child ScriptScanner
  style : Child StyleScanner
  state : ScanState := {}
  suspension : Suspension := {}
  inTag : Bool := false
  expected : Expected := .attribute
  /-- The name of the current tag in small letters. -/
  tagName : String := ""

/-- Operations of the scanner. -/
abbrev HtmlM := EStateM ScanError HtmlScanner

instance : MonadLift ScanM HtmlM :=
  ⟨zoom HtmlScanner.state fun x s => { x with state := s }⟩

instance : MonadLift SuspendM HtmlM :=
  ⟨zoom (fun x => (x.state, x.suspension)) fun x (s, y) => { x with state := s, suspension := y }⟩

/-- Hands over to the child for scripts. -/
def toScript : HtmlM Unit := do
  let _ ← zoom (fun x => (x.state, x.script)) (fun x (s, c) => { x with state := s, script := c })
    (delegate none)

/-- Hands over to the child for styles. -/
def toStyle : HtmlM Unit := do
  let _ ← zoom (fun x => (x.state, x.style)) (fun x (s, c) => { x with state := s, style := c })
    (delegate none)

/-- Marks the scan as interrupted by the server. -/
def interrupt : HtmlM Unit :=
  modify fun x => { x with suspension := { x.suspension with interrupted := true } }

/-- Is the cursor at a tag of the server? -/
def atServer : HtmlM Bool := do
  let x ← get
  if x.embedding.server then return (← Scan.check x.serverTag).isSome else return false

/-- A token that was consumed and is still to be recorded, or one that is all done. -/
inductive Finding where
  | token (kind : Option Kind) (m : Match)
  | done

/-- Consumes one character. -/
def single : ScanM Match := do
  let start ← Scan.pos
  let size := ((← Scan.peek?).map Char.utf8Size).getD 1
  let m := Match.ofRange start (start + size)
  Scan.accept m
  return m

/-- Consumes a match of the pattern under a kind, or else one character. -/
def tokenOr (kind : Kind) (p : Pattern) : ScanM Finding := do
  match ← Scan.scan p with
  | some m => return .token (some kind) m
  | none => return .token none (← single)

/-- Consumes a declaration: character data, a comment or another. -/
def bang : ScanM Finding := do
  match ← Scan.scan cdataPattern with
  | some m => return .token (some cdata) m
  | none =>
    match ← Scan.scan commentPattern with
    | some m => return .token (some comment) m
    | none => tokenOr declaration declarationPattern

/-- An opening angle bracket outside of tags. -/
def opening : HtmlM Finding := do
  if (← get).state.cursor.peekMany 2 = "<!" then
    match ← Scan.scan doctype with
    | some m =>
      Scan.record none (← Scan.groupOf m 1)
      Scan.record (some .keyword) (← Scan.groupOf m 2)
      modify fun x => { x with inTag := true }
      return .done
    | none => bang
  else
    modify fun x => { x with inTag := true, expected := .tagName }
    return .token none (← single)

/-- A closing angle bracket: ends the tag and hands the body of a script or a style to its child. -/
def closing : HtmlM Unit := do
  let tagName := (← get).tagName
  modify fun x => { x with inTag := false, tagName := "" }
  Scan.recordMatch none (← single)
  if tagName = "script" then toScript
  else if tagName = "style" then toStyle

/-- A name in a tag. -/
def nameToken : HtmlM Finding := do
  match ← Scan.scan name with
  | none => return .token none (← single)
  | some m =>
    match (← get).expected with
    | .tagName =>
      let text ← Scan.textOf m
      modify fun x => { x with expected := .attribute, tagName := text.map Char.toLower }
      return .token (some .htmlTag) m
    | .value =>
      modify fun x => { x with expected := .attribute }
      return .token (some .value) m
    | .attribute => return .token (some .type) m

/-- What stands in a tag, from its first character. -/
def inside (c : Char) : HtmlM Finding := do
  if c = '>' then
    closing
    return .done
  match ← Scan.scan selfClose with
  | some m =>
    modify fun x => { x with inTag := false, tagName := "" }
    return .token none m
  | none =>
    match c with
    | '\'' =>
      modify fun x => { x with expected := .attribute }
      tokenOr singleString singleQuoted
    | '"' =>
      modify fun x => { x with expected := .attribute }
      tokenOr doubleString doubleQuoted
    | '=' =>
      modify fun x => { x with expected := .value }
      return .token none (← single)
    | _ =>
      if c ≠ '/' then nameToken
      else if (← Scan.charBefore?) = some '<' then nameToken
      else return .token none (← single)

/-- Consumes the token at the cursor. -/
def next : HtmlM Finding := do
  let c := (← Scan.peek?).getD '\x00'
  if (← get).inTag then inside c
  else if c = '&' then tokenOr .escape entity
  else if c = '<' then opening
  else inside c

/-- Goes to the next token. Returns whether there is one: there is none at the end and at a tag of the
server. -/
def approach : HtmlM Bool := do
  if (← get).inTag then
    Scan.skipBlank
    if ← Scan.atEnd then return false
    if ← atServer then
      interrupt
      return false
    return true
  else
    let start ← Scan.pos
    match ← (← get).grammar.nextMatch with
    | none =>
      Scan.recordRest none
      return false
    | some found =>
      Scan.recordRange start found.data.start none
      Scan.setPos found.data.start
      if found.kind = term then
        interrupt
        return false
      return true

/-- Consumes and records the next token. Returns whether the scan goes on. -/
def stepToken : HtmlM Bool := do
  if !(← approach) then return false
  let start ← Scan.pos
  let depth ← Scan.depth
  match ← next with
  | .done => return true
  | .token kind m =>
    let x ← get
    if let some kind := kind then
      if ← Suspend.serverBreak x.grammar x.embedding kind m then return false
    Scan.recordMatch kind m
    Scan.ensureProgress x.grammar.name start depth
    return true

/-- One step from a place before the end. What was suspended comes first. Returns whether the scan goes
on. -/
def step : HtmlM Bool := do
  if ← atServer then
    interrupt
    return false
  let x ← get
  match ← Suspend.resume x.grammar with
  | some (kind, m) =>
    if ← Suspend.serverBreak x.grammar x.embedding kind m then return false
    if !m.span.isEmpty then Scan.recordMatch (some kind) m
    return true
  | none =>
    let pos ← Scan.pos
    if x.script.isDue pos then
      toScript
      return true
    else if x.style.isDue pos then
      toStyle
      return true
    else stepToken

/-- Steps until the scan ends. -/
def loop : Nat → HtmlM Unit
  | 0 => do throw (.outOfSteps (← get).grammar.name)
  | fuel + 1 => do
    if !(← Scan.atEnd) then
      if ← step then loop fuel

/-- Scans to the end of the source or to the next tag of the server. -/
def main : HtmlM Unit := do
  modify fun x => { x with suspension := { x.suspension with interrupted := false } }
  loop (Flat.budget (← get).state)

namespace HtmlScanner

/-- A scanner; its children stand in HTML and know of the server. -/
def ofEmbedding (e : Embedding) : HtmlScanner :=
  let inner : Embedding := { html := true, server := e.server, serverTag := e.serverTag }
  { grammar := Html.grammar e
    embedding := e
    script := ⟨.ofEmbedding inner, none⟩
    style := ⟨{ embedding := inner }, none⟩ }

def setSource (x : HtmlScanner) (source : Source) : HtmlScanner :=
  { x with
    script := x.script.setSource source
    style := x.style.setSource source
    state := x.state.setSource source
    suspension := {}
    inTag := false
    expected := .attribute
    tagName := "" }

/-- The child that was interrupted, with the offset at which it was. -/
def pending? (x : HtmlScanner) : Option (String × Nat) :=
  (x.script.resumeAt.map (("js", ·))) <|> (x.style.resumeAt.map (("css", ·)))

end HtmlScanner

instance : Scanner HtmlScanner where
  grammar x := x.grammar
  state x := x.state
  withState x s := { x with state := s }
  setSource := HtmlScanner.setSource
  main := main
  interrupted x := x.suspension.interrupted

/-- Is a line more than white space? -/
def hasText (line : String) : Bool := line.toList.any (!Unicode.isBlank ·)

/-- A document type decides at once; otherwise one tag every four lines counts most. -/
def rate : Guess.Rating := fun text overview =>
  if overview.trimmed.startsWith "<!DOCTYPE " then 0.75
  else
    let sum := Guess.weigh text 0 [
      (.ofText "<(?:a|table|span|div)\\s+class=", 0.05),
      (.ofText "</(?:a|table|span|div)>", 0.05),
      (.ofText "<(?:style|script)\\b", 0.15)]
    let sum := if Text.occursIn "<![CDATA[" text then sum + 0.15 else sum
    let lines := max 1 ((Guess.linesOf text).filter hasText).length
    let tags := Pattern.count (.ofText "<[!?/]?[a-zA-Z_:\\-]") text
    if lines < tags * 4 then sum + 0.15 else sum

end Gloss.Language.Html

import Gloss.Filter.Defaults
import Gloss.Guess.Weight
import Gloss.Pattern.Presets
import Gloss.Scan.Flat
import Gloss.Scan.Scanner
import Gloss.Scan.Suspension
import Gloss.Slash

/-!
JavaScript and ActionScript. The scanner can be embedded. In HTML it stops in front of the closing tag of
the script, even if that is in a comment or a string. In a server language it stops in front of the server's
tag; if the tag cuts a token, the rest of the token is taken up behind the server's part.
-/
namespace Gloss.Language.Script

open Text (Source)

/-- A string in single quotes. -/
def singleString : Kind := ⟨"SSTRING"⟩

/-- A string in double quotes. -/
def doubleString : Kind := ⟨"DSTRING"⟩

/-- A comment to the end of its line. -/
def lineComment : Kind := ⟨"COMMENT_SL"⟩

def slash : Kind := ⟨"SLASH"⟩
def stopServer : Kind := ⟨"STOP_SERVER"⟩
def stopScript : Kind := ⟨"STOP_SCRIPT"⟩

def keywords : List String := [
  "break", "case", "catch", "comment", "continue", "do", "default", "delete", "else", "export",
  "for", "function", "if", "import", "in", "instanceof", "label", "new", "null", "return",
  "switch", "throw", "try", "typeof", "var", "void", "while", "with", "true", "false", "this"]

def functions : List String := [
  "$", "alert", "confirm", "clearTimeout", "clearInterval", "encodeURI", "encodeURIComponent",
  "eval", "isFinite", "isNaN", "parseInt", "parseFloat", "prompt", "setTimeout", "setInterval",
  "decodeURI", "decodeURIComponent", "jQuery"]

def types : List String := [
  "Array", "Boolean", "Date", "Error", "EvalError", "Infinity", "Image", "Math", "NaN", "Number",
  "Object", "Option", "RangeError", "ReferenceError", "RegExp", "String", "SyntaxError",
  "TypeError", "URIError", "document", "undefined", "window"]

/-- Words after which a slash opens a regular expression. -/
def regexWords : List String := [
  "return", "typeof", "case", "do", "else", "in", "instanceof", "new", "delete", "void", "throw"]

/-- A regular expression. Sets in it may hold a slash; one that is not closed stops at the end of the
line. -/
def regexLiteral : Pattern :=
  .ofText "/(?:[^\\[\\\\/\\n]+|\\\\.|\\[(?:[^\\]\\\\\\n]+|\\\\.)*\\]?)*(?:/[gimsuyx]*)?"

/-- The closing tag of a script in HTML. -/
def scriptClose : Pattern := .ofText "(?i)</script>"

/-- The grammar of JavaScript. Patterns to stop at come first, and when embedded an opening angle bracket
is an operator on its own, so that a tag that starts with it is seen. -/
def grammar (e : Embedding) : Grammar :=
  let stops (g : Grammar) : Grammar :=
    let g := if e.server then g.token stopServer (.literal e.serverTag) else g
    if e.html then g.token stopScript scriptClose else g
  let operators : String :=
    if e.html || e.server then "[=!+*%\\-&^|~:?;,.>]+|<" else "[=!+*%\\-&^|~:?;,.><]+"
  stops (Grammar.withFilters "js"
    |>.showAs lineComment (some .comment)
    |>.showAs singleString (some .string)
    |>.showAs doubleString (some .string)
    |>.showAs .opener none
    |>.showAs .closer none
    |>.recover lineComment (.ofText ".*")
    |>.recover .comment (.ofText "(?s).*?(?:\\*/|\\z)")
    |>.recover singleString (.ofText "(?m)(?:[^\\\\'\\n]|\\\\(?s:.))*(?:'|\\\\?$)")
    |>.recover doubleString (.ofText "(?m)(?:[^\\\\\"\\n]|\\\\(?s:.))*(?:\"|\\\\?$)")
    |>.recover .regex (.ofText "(?m)(?:[^\\\\/\\n]|\\\\.)*(?:/[gimsuyx]*|\\\\?$)")
    |>.wordsOf .keyword keywords
    |>.wordsOf .function functions
    |>.wordsOf .type types)
  |>.token .ident (.ofText "[a-zA-Z_$][_$\\w]*")
  |>.token .operator (.ofText operators)
  |>.token .opener (.ofText "[\\[\x7b(]+")
  |>.token .closer (.ofText "[\\]\x7d)]+")
  |>.token .numeric (.ofText Presets.hexNumber)
  |>.token .numeric (.ofText Presets.realNumber)
  |>.token singleString (.ofText Presets.singleQuotedLine)
  |>.token doubleString (.ofText Presets.doubleQuotedLine)
  |>.token .comment (.ofText Presets.blockComment)
  |>.token lineComment (.ofText Presets.slashComment)
  |>.token slash (.ofText "/")

/-- A scanner for scripts. -/
structure ScriptScanner where
  grammar : Grammar
  embedding : Embedding := {}
  state : ScanState := {}
  suspension : Suspension := {}

/-- What a match turns out to be. -/
inductive Finding where
  | token (kind : Kind) (m : Match)
  /-- The script ends here, or the server takes over. -/
  | stop (interrupted : Bool)

/-- Decides what a slash is from the tokens before it, and goes back in front of what ends the scan. -/
def settle (kind : Kind) (m : Match) : ScanM Finding := do
  if kind = slash then
    match SlashMeaning.ofLatest (← get).tokens.latest regexWords with
    | .division => return .token .operator m
    | .regex =>
      let _ ← Scan.unscan
      match ← Scan.scan regexLiteral with
      | some m => return .token .regex m
      | none =>
        Scan.accept m
        return .token .operator m
  else if kind = stopServer then
    let _ ← Scan.unscan
    return .stop true
  else if kind = stopScript then
    let _ ← Scan.unscan
    return .stop false
  else return .token kind m

/-- Records a match that was consumed, unless a tag in it ends the scan. Returns whether the scan goes
on. -/
def treat (g : Grammar) (e : Embedding) (start depth : Nat) (kind : Kind) (m : Match) :
    SuspendM Bool := do
  match ← (settle kind m : ScanM _) with
  | .stop interrupted =>
    if interrupted then Suspend.setSuspension { (← Suspend.suspension) with interrupted := true }
    return false
  | .token kind m =>
    if ← Suspend.serverBreak g e kind m then return false
    if ← Suspend.scriptBreak e scriptClose kind m then return false
    if !m.span.isEmpty then Scan.recordMatch (some kind) m
    Scan.ensureProgress g.name start depth
    return true

/-- One step from a place before the end. Returns whether the scan goes on. -/
def step (g : Grammar) (e : Embedding) : SuspendM Bool := do
  let start ← Scan.pos
  let depth ← Scan.depth
  match ← Suspend.resume g with
  | some (kind, m) => if m.span.isEmpty then return true else treat g e start depth kind m
  | none =>
    match ← g.nextMatch with
    | some next =>
      Scan.recordRange start next.data.start none
      Scan.accept next.data
      treat g e start depth next.kind next.data
    | none =>
      Scan.recordRest none
      Suspend.setSuspension {}
      return false

/-- Steps until the scan ends. -/
def loop (g : Grammar) (e : Embedding) : Nat → SuspendM Unit
  | 0 => throw (.outOfSteps g.name)
  | fuel + 1 => do
    if !(← Scan.atEnd) then
      if ← step g e then loop g e fuel

/-- Scans to the end of the source or of the script. -/
def run (g : Grammar) (e : Embedding) : SuspendM Unit := do
  Suspend.setSuspension { (← Suspend.suspension) with interrupted := false }
  loop g e (Flat.budget (← get).1)

namespace ScriptScanner

/-- A scanner for JavaScript. -/
def ofEmbedding (e : Embedding) : ScriptScanner := { grammar := Script.grammar e, embedding := e }

def main : EStateM ScanError ScriptScanner Unit := fun x =>
  zoom (fun (x : ScriptScanner) => (x.state, x.suspension))
    (fun x (s, y) => { x with state := s, suspension := y }) (run x.grammar x.embedding) x

end ScriptScanner

instance : Scanner ScriptScanner where
  grammar x := x.grammar
  state x := x.state
  withState x s := { x with state := s }
  setSource x source := { x with state := x.state.setSource source, suspension := {} }
  main := ScriptScanner.main
  interrupted x := x.suspension.interrupted

namespace ActionScript

def functions : List String := [
  "add", "chr", "clearInterval", "escape", "eval", "evaluate", "fscommand", "getProperty",
  "getTimer", "getVersion", "globalStyleFormat", "gotoAndPlay", "gotoAndStop", "ifFrameLoaded",
  "instanceOf", "isFinite", "isNaN", "loadMovie", "loadMovieNum", "loadVariables", "mbchr",
  "mblength", "mbord", "mbsubstring", "nextFrame", "nextScene", "onClipEvent", "ord",
  "parseFloat", "parseInt", "play", "prevFrame", "prevScene", "print", "printAsBitMap",
  "printNum", "random", "scroll", "setInterval", "setProperty", "stop", "stopDrag", "substring",
  "super", "targetPath", "tellTarget", "toString", "toggleHighQuality", "trace", "unescape"]

def types : List String := [
  "Accessibility", "Array", "Arguments", "Boolean", "Button", "ByteArray", "Camera", "Color",
  "Date", "Event", "FScrollPane", "FStyleFormat", "Function", "int", "Key", "LoadVars",
  "LocalConnection", "Math", "Microphone", "Mouse", "Movieclip", "Number", "Object", "Selection",
  "Sound", "Sprite", "String", "System", "TextField", "TextFormat", "Timer", "TimerEvent",
  "uint", "var", "void", "XML"]

def keywords : List String := [
  "as", "break", "case", "catch", "class", "const", "continue", "default", "delete", "do",
  "else", "extends", "false", "finally", "for", "function", "if", "implements", "import", "in",
  "instanceof", "interface", "internal", "is", "native", "new", "null", "package", "private",
  "protected", "public", "return", "super", "switch", "static", "this", "throw", "to", "true",
  "try", "typeof", "use", "void", "while", "with"]

/-- The grammar of ActionScript: that of JavaScript with lines for a preprocessor and words of its own. -/
def grammar : Grammar :=
  { (Script.grammar {}) with name := "as" }
  |>.token .preprocessor (.ofText "(?m)^[ \\t]*#.*")
  |>.wordsOf .function functions
  |>.wordsOf .type types
  |>.wordsOf .keyword keywords

def scanner : ScriptScanner := { grammar }

def rate : Guess.Rating := fun text _ => Guess.weigh text 0 [
  (.ofText "\\bfunction\\s+\\w+\\s*\\([^)]+\\):(?:String|int|Number|void)", 0.15),
  (.ofText "\\bvar\\s+\\w+:(?:String|int|Number)", 0.15)]

end ActionScript

end Gloss.Language.Script

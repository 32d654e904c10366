import Gloss.Filter.Defaults
import Gloss.Pattern.Presets
import Gloss.Scan.Loops

/-!
Backus-Naur form. A source with a name in angle brackets is read by the strict dialect, in which such names
are rules; any other by the extended one, with options, repetitions, groups and special sequences as
regions. In the extended dialect, a name defined at the start of a line is marked wherever it is used later.
-/
namespace Gloss.Language.Backus

open Scan
open Text (Source)

def optionKind : Kind := ⟨"OPTION"⟩
def repetition : Kind := ⟨"REPETITION"⟩
def group : Kind := ⟨"GROUP"⟩
def special : Kind := ⟨"SPECIAL"⟩

/-- The head of a rule of the extended dialect. -/
def rule : Kind := ⟨"RULE"⟩

/-- The head of a rule of the strict dialect. -/
def head : Kind := ⟨"HEAD"⟩

def headBrace : Kind := ⟨"HEAD_BRACE"⟩
def brace : Kind := ⟨"BRACE"⟩

/-- Records a name in brackets with only the name marked. -/
def bracketed (inner : Kind) : Handler := fun m => do
  record none (← slice m.start (m.start + 1))
  record (some inner) (← slice (m.start + 1) (m.stop - 1))
  record none (← slice (m.stop - 1) m.stop)
  setPos m.stop

/-- Records the head of a rule and defines its name. What follows the name is left. -/
def ruleHead : Handler := fun m => do
  let indent ← groupOf m 1
  let name ← groupOf m 2
  record none indent
  record (some .userFunction) name
  define name .value
  setPos (m.start + indent.utf8ByteSize + name.utf8ByteSize)

/-- What both dialects have. Some punctuation at the start of a line makes it a comment. -/
def common (g : Grammar) : Grammar :=
  g.token .string (.ofText Presets.singleQuotedLine)
  |>.token .string (.ofText Presets.doubleQuotedLine)
  |>.token .operator (.ofText "[*\\-=+;:|,]+")
  |>.token .comment (.ofText "(?m)^[!%-;].*")
  |>.removeFilter "constant"
  |>.removeFilter "comment-to-doc"

/-- The strict dialect: `<rule> ::= <a> | "b"`. -/
def strict : Grammar :=
  common (Grammar.withFilters "bnf"
    |>.token .comment (.ofText "<![^>]*>")
    |>.token head (.ofText "(?m)^<[^>]+>")
    |>.token headBrace (.ofText "(?m)^\\\x7b[^\x7d]+\\\x7d")
    |>.token brace (.ofText "\\\x7b[^\x7d]+\\\x7d")
    |>.token .value (.ofText "[\\w\\-]+")
    |>.handle head (bracketed .keyword)
    |>.handle headBrace (bracketed .keyword)
    |>.handle brace (bracketed .value))

/-- What may occur in any state of the extended dialect. -/
def anywhere : List Kind :=
  [.comment, optionKind, repetition, group, special, .string, .ident, .operator]

/-- The extended dialect: `rule = a , [ b ] , group ;`. -/
def extended : Grammar :=
  common (Grammar.withFilters "bnf"
    |>.token .comment (.ofText "(?s)\\(\\*.*?\\*\\)")
    |>.region optionKind (.ofText "\\[") (.ofText "\\]")
    |>.region repetition (.ofText "\\\x7b") (.ofText "\\\x7d")
    |>.region group (.ofText "\\(") (.ofText "\\)")
    |>.region special (.ofText "\\?") (.ofText "\\?")
    |>.token rule (.ofText "(?m)^([ \\t]*)([\\w\\-]+)(\\s*)(?:[^[:alnum:]\\s]|\\z)")
    |>.handle rule ruleHead
    |>.token .ident (.ofText "[\\w\\-]+"))
  |>.allowOnly .initial (rule :: anywhere)
  |>.allowOnly optionKind anywhere
  |>.allowOnly repetition anywhere
  |>.allowOnly group anywhere
  |>.allowOnly special (anywhere.filter (· != special))
  |>.showAs optionKind none
  |>.showAs repetition none
  |>.showAs group none
  |>.showAs special none

/-- A name in angle brackets. -/
def strictMark : Pattern := .ofText "<\\w+>"

/-- A scanner for both dialects; each keeps its own state. -/
structure BackusScanner where
  isStrict : Bool := false
  strictState : ScanState := .emptyTree
  extendedState : ScanState := .emptyTree
  strictGrammar : Grammar := strict
  extendedGrammar : Grammar := extended

namespace BackusScanner

def grammar (x : BackusScanner) : Grammar := if x.isStrict then x.strictGrammar else x.extendedGrammar

def state (x : BackusScanner) : ScanState := if x.isStrict then x.strictState else x.extendedState

def withState (x : BackusScanner) (s : ScanState) : BackusScanner :=
  if x.isStrict then { x with strictState := s } else { x with extendedState := s }

/-- The source chooses the dialect; the other dialect's state is left as it is. -/
def setSource (x : BackusScanner) (source : Source) : BackusScanner :=
  let x := { x with isStrict := strictMark.isMatch source.text }
  x.withState (x.state.setSource source)

end BackusScanner

instance : Scanner BackusScanner where
  grammar := BackusScanner.grammar
  state := BackusScanner.state
  withState := BackusScanner.withState
  setSource := BackusScanner.setSource
  main := fun x => zoom BackusScanner.state BackusScanner.withState (Nested.run x.grammar) x
  interrupted _ := false

end Gloss.Language.Backus

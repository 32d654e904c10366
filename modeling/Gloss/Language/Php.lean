import Gloss.Language.Html

/-!
PHP. The code scanner reads up to a closing mark and leaves it. The page scanner takes code and HTML in
turn: it reads the marks itself and hands what is between them to its two children, of which the one for
HTML goes on where it stopped, even in the middle of a tag.
-/
namespace Gloss.Language.Php

open Html (HtmlScanner)
open Text (Source)

def keywords : List String := [
  "__CLASS__", "__DIR__", "__FILE__", "__FUNCTION__", "__LINE__", "__METHOD__", "__NAMESPACE__",
  "__TRAIT__", "abstract", "and", "array", "as", "break", "callable", "case", "catch", "class",
  "clone", "const", "continue", "declare", "default", "die", "do", "echo", "else", "elseif",
  "empty", "enddeclare", "endfor", "endforeach", "endif", "endswitch", "endwhile", "enum",
  "eval", "exit", "extends", "false", "final", "finally", "fn", "for", "foreach", "function",
  "global", "goto", "if", "implements", "include", "include_once", "instanceof", "insteadof",
  "interface", "isset", "list", "match", "namespace", "new", "null", "or", "parent", "print",
  "private", "protected", "public", "readonly", "require", "require_once", "return", "self",
  "static", "switch", "throw", "trait", "true", "try", "unset", "use", "var", "while", "xor",
  "yield"]

/-- Functions that are often used. -/
def functions : List String := [
  "array_filter", "array_key_exists", "array_keys", "array_map", "array_merge", "array_pop",
  "array_push", "array_reduce", "array_search", "array_shift", "array_slice", "array_splice",
  "array_unique", "array_values", "count", "date", "define", "defined", "explode", "fclose",
  "feof", "fgets", "file", "file_exists", "file_get_contents", "file_put_contents", "fopen",
  "fread", "function_exists", "fwrite", "header", "htmlentities", "htmlspecialchars", "implode",
  "in_array", "intval", "is_array", "is_bool", "is_callable", "is_float", "is_int", "is_null",
  "is_numeric", "is_object", "is_string", "json_decode", "json_encode", "ksort", "method_exists",
  "mktime", "preg_match", "preg_match_all", "preg_quote", "preg_replace",
  "preg_replace_callback", "preg_split", "print_r", "printf", "rtrim", "serialize",
  "session_start", "sort", "sprintf", "str_pad", "str_repeat", "str_replace", "strlen", "strpos",
  "strrpos", "strtolower", "strtoupper", "substr", "time", "trim", "ucfirst", "unserialize",
  "urlencode", "usort", "var_dump", "var_export"]

/-- The closing mark. -/
def term : Kind := ⟨"TERM"⟩

/-- A text of several lines in which nothing is replaced. -/
def nowdoc : Kind := ⟨"NOWDOC"⟩

/-- A variable in a string. -/
def interpolated : Pattern := .ofText "(?:\\$\\\x7b|\\\x7b\\$)[^\x7d]+\\\x7d|\\$\\$?[a-zA-Z_]\\w*"

/-- Marks variables in texts in which they are replaced. -/
def interpolate (t : Token) : Token :=
  let chars := t.text.toList
  if (t.is .heredoc || chars.head? == some '"') && chars.contains '$' then
    let t := Markup.escapeToken t
    { t with text := Markup.tagMatches interpolated t.text .variable_ }
  else t

/-- The grammar of code. The closing mark wins over the question mark it starts with. -/
def grammar : Grammar :=
  (Grammar.withFilters "php").setCaseSensitive false
  |>.wordsOf .function functions
  |>.wordsOf .keyword keywords
  |>.filter (some "interpolation") .string (fun _ => interpolate)
  |>.filter (some "heredoc-interpolation") .heredoc (fun _ => interpolate)
  |>.filter (some "nowdoc") nowdoc (fun _ t => { t with kind := some .heredoc })
  |>.token term (.ofText "\\?>")
  |>.token .comment (.ofText "(?://|#).*")
  |>.token .comment (.ofText Presets.blockComment)
  |>.token .numeric (.ofText Presets.hexNumber)
  |>.token .numeric (.ofText Presets.realNumber)
  |>.token .delimiter (.ofText "<\\?(?:php)?")
  |>.token .operator (.ofText "[!%^&*\\-=+~:<>/|.;,]+|\\?")
  |>.token .variable_ (.ofText "\\$\\$?[a-zA-Z_]\\w*")
  |>.token .ident (.ofText "[a-zA-Z_]\\w*")
  |>.token .string (.ofText Presets.doubleQuoted)
  |>.token .string (.ofText Presets.singleQuoted)
  |>.token .function (.ofText "(?s)`(?:[^`\\\\]|\\\\.)*(?:`|\\z)")

/-- A name behind a word that defines it. -/
def definedName : Pattern := .ofText "(\\s+)([a-zA-Z_]\\w*)"
def heredocHead : Pattern := .ofText "(['\"]?)(\\w*)"
def lineRest : Pattern := .ofText ".+"
def word : Pattern := .ofText "\\w+"

/-- The kind of name that a word defines. -/
def definedBy? (word : String) : Option Kind :=
  match word with
  | "function" => some .function
  | "class" | "extends" | "implements" => some .type
  | _ => none

open Scan in
/-- Records the name that follows a word that defines it. -/
def definition (kind : Kind) : ScanM Unit := do
  if let some m ← scan definedName then
    let name ← groupOf m 2
    record none (← groupOf m 1)
    record (some .userFunction) name
    define name kind

open Scan in
/-- Records a word, and the name it defines. -/
def identifier (m : Match) : ScanM Unit := do
  let text ← textOf m
  record (some .ident) text
  if let some kind := definedBy? text then definition kind

/-- The end of a text of several lines, as a pattern: its name at the start of a line, or the end of the
source. -/
def heredocEnd (name : String) : String := "(?m)^" ++ Regex.quote name ++ "|\\z"

open Scan in
/-- Records the quote that closes a name, if it is the one that opened it. -/
def closeQuote (quote : String) : ScanM Unit := do
  if !quote.isEmpty && (← ofCursor (·.peekMany 1)) = quote then record none (← take 1)

open Scan in
/-- Records a text of several lines up to the name that ends it, and that name. -/
def heredocBody (quote name : String) : ScanM Unit := do
  if !name.isEmpty then
    if let some body ← scanUntil (← compile (heredocEnd name)) then
      recordMatch (some (if quote = "'" then nowdoc else .heredoc)) body
      scanAndRecord word (some .keyword)

open Scan in
/-- Records a text of several lines, from behind the operator that opens it. -/
def heredoc : ScanM Unit := do
  if let some head ← scan heredocHead then
    let quote ← groupOf head 1
    let name ← groupOf head 2
    record none quote
    record (some .keyword) name
    closeQuote quote
    scanAndRecord lineRest none
    heredocBody quote name

/-- Where a comment ends within its match: at a closing mark, unless it is a block. -/
def commentCut? (text : String) : Option Nat :=
  if text.startsWith "/*" then none else Text.indexOf? "?>" text

open Scan in
/-- Records a match that was consumed, and what belongs to it. -/
def takeToken (kind : Kind) (m : Match) : ScanM Unit := do
  let text ← textOf m
  if kind = .ident then identifier m
  else if kind = .operator && Text.occursIn "<<<" text then
    recordMatch (some .operator) m
    heredoc
  else
    match kind == .comment, commentCut? text with
    | true, some cut =>
      recordRange m.start (m.start + cut) (some .comment)
      setPos (m.start + cut)
    | _, _ => recordMatch (some kind) m

open Scan in
/-- One step of the code scanner from a place before the end. Returns whether the scan goes on. -/
def codeStep (g : Grammar) : ScanM Bool := do
  let start ← pos
  let before ← depth
  match ← g.nextMatch with
  | none =>
    recordRest none
    return false
  | some next =>
    recordRange start next.data.start none
    accept next.data
    if next.kind = term then
      let _ ← unscan
      return false
    takeToken next.kind next.data
    ensureProgress g.name start before
    return true

/-- Steps of the code scanner until it ends. -/
def codeLoop (g : Grammar) : Nat → ScanM Unit
  | 0 => throw (.outOfSteps g.name)
  | fuel + 1 => do
    if !(← Scan.atEnd) then
      if ← codeStep g then codeLoop g fuel

/-- Scans code up to the closing mark or the end. -/
def codeRun (g : Grammar) : ScanM Unit := do codeLoop g (Flat.budget (← get))

/-- A scanner for code. -/
structure PhpCodeScanner where
  grammar : Grammar := Php.grammar
  state : ScanState := {}

instance : Scanner PhpCodeScanner where
  grammar x := x.grammar
  state x := x.state
  withState x s := { x with state := s }
  setSource x source := { x with state := x.state.setSource source }
  main := fun x => zoom PhpCodeScanner.state (fun x s => { x with state := s }) (codeRun x.grammar) x
  interrupted _ := false

/-- A scanner for pages of HTML with code in it. A snippet starts with code. -/
structure PhpScanner where
  grammar : Grammar := .bare "php"
  html : Child HtmlScanner := ⟨.ofEmbedding { server := true }, none⟩
  code : Child PhpCodeScanner := ⟨{}, none⟩
  state : ScanState := {}
  snippet : Bool := false

/-- Operations of the scanner. -/
abbrev PhpM := EStateM ScanError PhpScanner

instance : MonadLift ScanM PhpM :=
  ⟨zoom PhpScanner.state fun x s => { x with state := s }⟩

/-- An opening mark. -/
def openMark : Pattern := .ofText "<\\?(?:php|=)?"

/-- A closing mark. -/
def closeMark : Pattern := .ofText "\\?>"

/-- Hands over to the child for HTML. -/
def toHtml : PhpM Unit := do
  let _ ← zoom (fun x => (x.state, x.html)) (fun x (s, c) => { x with state := s, html := c })
    (delegate none)

/-- Hands over to the child for code. -/
def toCode (wrap : Option Kind) : PhpM Unit := do
  let _ ← zoom (fun x => (x.state, x.code)) (fun x (s, c) => { x with state := s, code := c })
    (delegate wrap)

/-- Records a block of code behind its opening mark, if it has one. A block whose value is put into the
page is wrapped. -/
def codeBlock (opening : Option String) : PhpM Unit := do
  if let some mark := opening then Scan.record (some .delimiter) mark
  toCode (if opening = some "<?=" then some .interpolation else none)
  Scan.scanAndRecord closeMark (some .delimiter)

/-- A block of code, or the HTML up to the next one. -/
def round (inCode : Bool) : PhpM Unit := do
  let start ← Scan.pos
  let depth ← Scan.depth
  if inCode then codeBlock none
  else
    match ← (Scan.scan openMark : ScanM _) with
    | some m => codeBlock (some (← Scan.textOf m))
    | none => toHtml
  Scan.ensureProgress (← get).grammar.name start depth

/-- Blocks of code and HTML in turn until the end. -/
def loop : Nat → Bool → PhpM Unit
  | 0, _ => do throw (.outOfSteps (← get).grammar.name)
  | fuel + 1, inCode => do
    if !(← Scan.atEnd) then
      round inCode
      loop fuel false

/-- Scans to the end. -/
def main : PhpM Unit := do
  let x ← get
  loop (Flat.budget x.state) (x.snippet && x.state.pos == 0)

instance : Scanner PhpScanner where
  grammar x := x.grammar
  state x := x.state
  withState x s := { x with state := s }
  setSource x source :=
    { x with
      html := x.html.setSource source, code := x.code.setSource source,
      state := x.state.setSource source }
  main := main
  interrupted _ := false

/-- Is there an opening mark that does not open an XML declaration? -/
def opensCode : List Char → Bool
  | [] => false
  | '<' :: '?' :: rest => !List.isPrefixOf ['x', 'm', 'l'] rest || opensCode rest
  | _ :: rest => opensCode rest

def rate : Guess.Rating := fun text _ =>
  let sum : Float :=
    if Text.occursIn "<?php" text then 0.5 else if opensCode text.toList then 0.2 else 0
  Guess.weigh text sum [
    (.ofText "\\$this\\b|(?i:self|parent)::", 0.15),
    (.ofText "(?i)\\$[a-z_]\\w*->[a-z_]", 0.05),
    (.ofText "(?i)\\b(?:echo|require(?:_once)?|include(?:_once)?|preg_\\w)", 0.05)]

/-- A snippet is a little more likely than a page if the text closes a block that it did not open or opens
none, and a little less otherwise. -/
def rateSnippet : Guess.Rating := fun text overview =>
  let sum := rate text overview
  if sum ≤ 0 then sum
  else
    match Text.indexOf? "<?" text, Text.indexOf? "?>" text with
    | none, _ => sum + 0.01
    | some opened, some closed => if closed < opened then sum + 0.01 else sum - 0.01
    | _, _ => sum - 0.01

end Gloss.Language.Php

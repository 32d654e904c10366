import Gloss.Filter.Defaults
import Gloss.Guess.Weight
import Gloss.Pattern.Presets
import Gloss.Scan.Flat
import Gloss.Scan.Scanner
import Gloss.Scan.Unwind
import Gloss.Slash

/-!
Perl. What Perl text means can depend on what it does, so this is right most of the time. Quote-like
operators, slashes, texts of several lines and documentation are read by hand, because their extent depends
on what came before.
-/
namespace Gloss.Language.Perl

open Text (Source)

/-- A command in grave accents. -/
def command : Kind := ⟨"CMD"⟩

/-- Documentation. -/
def pod : Kind := ⟨"POD"⟩

/-- The mark after which no program follows. -/
def term : Kind := ⟨"TERM"⟩

/-- The announcement of a text of several lines. -/
def heredocMark : Kind := ⟨"HEREDOC_DECL"⟩

def slash : Kind := ⟨"SLASH"⟩
def quoteLike : Kind := ⟨"QUOTE_LIKE"⟩

/-- The region of a quoted body. -/
def quoted : Kind := ⟨"QUOTED"⟩

/-- Words after which a slash opens a regular expression. -/
def regexWords : List String := [
  "lt", "gt", "le", "ge", "eq", "ne", "cmp", "and", "or", "xor", "if", "elsif", "while",
  "unless", "split", "print"]

def keywords : List String := [
  "bless", "caller", "continue", "dbmclose", "dbmopen", "defined", "delete", "die", "do", "dump",
  "else", "elsif", "eval", "exit", "for", "foreach", "goto", "import", "if", "last", "local",
  "my", "next", "no", "our", "package", "prototype", "redo", "ref", "reset", "return", "require",
  "scalar", "sub", "tie", "tied", "undef", "untie", "unless", "use", "wantarray", "while"]

def wordOperators : List String := [
  "lt", "gt", "le", "ge", "eq", "ne", "cmp", "and", "or", "xor"]

def functions : List String := [
  "chomp", "chop", "chr", "crypt", "hex", "index", "lc", "lcfirst", "length", "oct", "ord",
  "pack", "reverse", "rindex", "sprintf", "substr", "uc", "ucfirst", "pos", "quotemeta", "split",
  "study", "abs", "atan2", "cos", "exp", "int", "log", "rand", "sin", "sqrt", "srand", "pop",
  "push", "shift", "splice", "unshift", "grep", "join", "map", "sort", "unpack", "delete",
  "each", "exists", "keys", "values", "binmode", "close", "closedir", "die", "eof", "fileno",
  "flock", "format", "getc", "print", "printf", "read", "readdir", "readline", "rewinddir",
  "seek", "seekdir", "select", "syscall", "sysread", "sysseek", "syswrite", "tell", "telldir",
  "truncate", "warn", "write", "vec", "chdir", "chmod", "chown", "chroot", "fcntl", "glob",
  "ioctl", "link", "lstat", "mkdir", "open", "opendir", "readlink", "rename", "rmdir", "stat",
  "symlink", "sysopen", "umask", "unlink", "utime", "alarm", "exec", "fork", "getpgrp",
  "getppid", "getpriority", "kill", "pipe", "readpipe", "setpgrp", "setpriority", "sleep",
  "system", "times", "wait", "waitpid", "accept", "bind", "connect", "getpeername",
  "getsockname", "getsockopt", "listen", "recv", "send", "setsockopt", "shutdown", "socket",
  "socketpair", "msgctl", "msgget", "msgrcv", "msgsnd", "semctl", "semget", "semop", "shmctl",
  "shmget", "shmread", "shmwrite", "endgrent", "endhostent", "endnetent", "endpwent", "getgrent",
  "getgrgid", "getgrnam", "getlogin", "getpwent", "getpwnam", "getpwuid", "setgrent", "setpwent",
  "endprotoent", "endservent", "gethostbyaddr", "gethostbyname", "gethostent", "getnetbyaddr",
  "getnetbyname", "getnetent", "getprotobyname", "getprotobynumber", "getprotoent",
  "getservbyname", "getservbyport", "getservent", "sethostent", "setnetent", "setprotoent",
  "setservent", "gmtime", "localtime", "time"]

/-- The grammar. Regular expressions are not marked up, since any character can delimit them. -/
def grammar : Grammar :=
  (Grammar.withFilters "perl").removeFilter "pcre"
  |>.showAs command (some .function)
  |>.showAs .opener none
  |>.wordsOf .keyword keywords
  |>.wordsOf .operator wordOperators
  |>.wordsOf .function functions
  |>.token .comment (.ofText "#.*")
  |>.token pod (.ofText "(?m)^=[a-zA-Z_]")
  |>.token .variable_ (.ofText "(?i)[$%@][a-z_]\\w*")
  |>.token .variable_ (.ofText "\\$[|%=\\-~^\\d&`'+_./\\\\,\"#$?*O\\[\\];!@]")
  |>.token command (.ofText "(?s)`(?:[^`\\\\]|\\\\.)*(?:`|\\z)")
  |>.token .string (.ofText Presets.doubleQuoted)
  |>.token .string (.ofText Presets.singleQuoted)
  |>.token term (.ofText "__(?:DATA|END)__")
  |>.token heredocMark (.ofText "(<<)(['\"`\\\\]?)([a-zA-Z_]\\w*)(['\"`]?)")
  |>.token .operator (.ofText "[!%^&*\\-=+;:|,.?<>~\\\\]+")
  |>.token slash (.ofText "//?")
  |>.token .opener (.ofText "[\\[\x7b(]+")
  |>.token .numeric (.ofText Presets.hexNumber)
  |>.token .numeric (.ofText Presets.realNumber)
  |>.token quoteLike (.ofText "(q[rqxw]?|m|s|tr|y)(\\s*)(\\\\?[^a-zA-Z0-9\\s])")
  |>.token .ident (.ofText "[a-zA-Z_]\\w*")

/-- How the body of a quoted text is recorded. -/
inductive Body where
  | as (kind : Kind)
  /-- Word by word, each a string. -/
  | words
  deriving DecidableEq, Repr

/-- The kind that text left over in a body gets. -/
def Body.kind : Body → Kind
  | .as kind => kind
  | .words => .string

/-- The character that closes what another opens. -/
def closing (c : Char) : Char :=
  match c with
  | '(' => ')'
  | '[' => ']'
  | '\x7b' => '\x7d'
  | '<' => '>'
  | _ => c

/-- The body of a quoted text in which `depth` openings wait for their closing: all before the closing of
the first one, none if it is not closed. A backslash escapes any character, and brackets nest. -/
def bodyFrom (opening : Char) (depth : Nat) (escaped : Bool) : List Char → Option (List Char)
  | [] => none
  | c :: rest =>
    if escaped then (bodyFrom opening depth false rest).map (c :: ·)
    else if c = '\\' then (bodyFrom opening depth true rest).map (c :: ·)
    else if c = closing opening then
      if depth ≤ 1 then some [] else (bodyFrom opening (depth - 1) false rest).map (c :: ·)
    else if c = opening then (bodyFrom opening (depth + 1) false rest).map (c :: ·)
    else (bodyFrom opening depth false rest).map (c :: ·)

/-- The body of a quoted text behind its opening. -/
def body? (opening : Char) (text : List Char) : Option (List Char) := bodyFrom opening 1 false text

def newline : Pattern := .ofText "\\n"
def variable_ : Pattern := .ofText "[$@][a-zA-Z_]\\w*"
def regexFlags : Pattern := .ofText "[cgimosx]+"
def quoteFlags : Pattern := .ofText "[cgimosxpe]+"
def secondDelimiter : Pattern := .ofText "[^a-zA-Z0-9]"
def podLine : Pattern := .ofText "(?m)^=.*"
def podEnd : Pattern := .ofText "(?m)^=cut$|\\z"

open Scan

/-- Opens the region of a quoted body, behind its opening character. -/
def openQuoted (opening : Char) (body : Body) (interpolation : Bool) : ScanM Unit := do
  pushRegion
    { name := quoted, start := ← pos, opening := opening.toString, interpolation,
      extra := some body.kind }

/-- Records words and the white space between them. Every step consumes a character. -/
def recordWords : Nat → List Char → ScanM Unit
  | 0, _ => return
  | _ + 1, [] => return
  | fuel + 1, c :: rest => do
    let isSame (d : Char) : Bool := Unicode.isBlank d == Unicode.isBlank c
    let run := (c :: rest).takeWhile isSame
    record (if Unicode.isBlank c then none else some .string) (String.ofList run)
    recordWords fuel ((c :: rest).dropWhile isSame)

/-- Records a body: word by word, or as one token with its variables marked. -/
def recordBody (body : Body) (interpolation : Bool) (text : String) : ScanM Unit :=
  match body with
  | .words => recordWords text.length text.toList
  | .as kind =>
    if interpolation && variable_.isMatch text then
      recordMarkup (some kind) (Markup.tagMatches variable_ (Markup.escape text) .variable_)
    else record (some kind) text

/-- Consumes the body of the innermost region and its closing character. If it is not closed nothing is
consumed, and the region stays open. Returns whether it is closed. -/
def consumeQuoted (body : Body) : ScanM Bool := do
  match ← region? with
  | none => return false
  | some r =>
    match r.opening.toList.head? with
    | none => return false
    | some opening =>
      match body? opening (← restChars) with
      | none => return false
      | some text =>
        let start ← pos
        let stop := start + Text.byteSize text
        recordBody body r.interpolation (← slice start stop)
        setPos (stop + (closing opening).utf8Size)
        record (some .delimiter) (closing opening).toString
        let _ ← popRegion
        return true

/-- Records the flags behind a regular expression. -/
def recordFlags (flags : Pattern) : ScanM Unit := scanAndRecord flags (some .keyword)

/-- A slash: a regular expression, or an operator after an operand. Two slashes are an operator. -/
def takeSlash (m : Match) : ScanM Unit := do
  let meaning := SlashMeaning.ofLatest (← get).tokens.latest regexWords
  accept m
  if m.span.size == 2 || meaning = .division then recordMatch (some .operator) m
  else
    recordMatch (some .delimiter) m
    openQuoted '/' (.as .regex) true
    if ← consumeQuoted (.as .regex) then recordFlags regexFlags

/-- What a quote-like operator holds: its body, whether flags follow and whether variables are
replaced. -/
def quoteBody (op : String) : Body × Bool × Bool :=
  match op with
  | "m" | "qr" | "s" => (.as .regex, true, true)
  | "tr" | "y" => (.as .regex, true, false)
  | "qw" => (.words, false, false)
  | "q" => (.as .string, false, false)
  | _ => (.as .string, false, true)

/-- Opens the second body of an operator that has two. If the first is not in brackets, the two share the
delimiter between them. Returns whether there is one. -/
def openSecond (opening : Char) (interpolation : Bool) : ScanM Bool := do
  skipBlank
  if closing opening = opening then
    openQuoted opening (.as .string) interpolation
    return true
  match ← scan secondDelimiter with
  | none => return false
  | some m =>
    recordMatch (some .delimiter) m
    openQuoted ((← textOf m).toList.head?.getD opening) (.as .string) interpolation
    return true

/-- Reads the second body of an operator that has two. Returns whether the operator is complete. -/
def secondBody (op : String) (opening : Char) (interpolation : Bool) : ScanM Bool := do
  if op = "s" || op = "tr" || op = "y" then
    if ← openSecond opening interpolation then consumeQuoted (.as .string) else return false
  else return true

/-- A quote-like operator with its bodies and flags. -/
def takeQuoteLike (m : Match) : ScanM Unit := do
  accept m
  recordMatch (some .delimiter) m
  let op ← groupOf m 1
  match (← groupOf m 3).toList.getLast? with
  | none => return
  | some opening =>
    let (body, flags, interpolation) := quoteBody op
    openQuoted opening body interpolation
    if ← consumeQuoted body then
      if ← secondBody op opening interpolation then
        if flags then recordFlags quoteFlags

/-- The announcement of a text of several lines; returns its name. A quote that is not closed announces
nothing, and only the operator is read. -/
def takeHeredocMark (m : Match) : ScanM (Option String) := do
  let op ← groupOf m 1
  let opening ← groupOf m 2
  let name ← groupOf m 3
  let closed := !opening.isEmpty && (← groupOf m 4) = opening
  record (some .operator) op
  if !closed && !opening.isEmpty && opening ≠ "\\" then
    shift op.utf8ByteSize
    return none
  let declared := opening ++ name ++ (if closed then opening else "")
  shift (op.utf8ByteSize + declared.utf8ByteSize)
  record (some .delimiter) declared
  return some name

/-- The end of a text of several lines, as a pattern. -/
def heredocEnd (name : String) : String := "(?m)^" ++ Regex.quote name ++ "\\b"

/-- A text of several lines, from the line end behind the line that announces it. -/
def takeHeredoc (name : String) : ScanM Unit := do
  record none (← take 1)
  let stop ← compile (heredocEnd name)
  match ← scanUntil stop with
  | some body =>
    recordMatch (some .heredoc) body
    scanAndRecord stop (some .delimiter)
  | none => recordRest (some .heredoc)

/-- Documentation, up to and with the line that ends it. -/
def takePod : ScanM Unit := do
  let start ← pos
  let _ ← scan podLine
  let _ ← scanUntil podEnd
  let _ ← scan podEnd
  record (some .docComment) (← slice start (← pos))

/-- A scanner for Perl. -/
structure PerlScanner where
  grammar : Grammar := Perl.grammar
  state : ScanState := {}
  /-- The name of a text of several lines that starts on the next line. -/
  heredoc : Option String := none

/-- Operations of the scanner. -/
abbrev PerlM := EStateM ScanError PerlScanner

instance : MonadLift ScanM PerlM :=
  ⟨zoom PerlScanner.state fun x s => { x with state := s }⟩

/-- Consumes and records a match. -/
def takeMatch (next : NextMatch) : PerlM Unit := do
  let m := next.data
  if next.kind = slash then takeSlash m
  else if next.kind = quoteLike then takeQuoteLike m
  else if next.kind = heredocMark then
    if let some name ← (takeHeredocMark m : ScanM _) then
      modify fun x => { x with heredoc := some name }
  else if next.kind = pod then takePod
  else if next.kind = term then
    accept m
    recordMatch (some .delimiter) m
    recordRest none
  else
    accept m
    recordMatch (some next.kind) m

/-- Reads the text of several lines that was announced, if its line starts before the next match. Returns
whether it did. -/
def heredocFirst (start : Nat) (next : Option NextMatch) : PerlM Bool := do
  match (← get).heredoc with
  | none => return false
  | some name =>
    match ← (search newline : ScanM _) with
    | none => return false
    | some found =>
      if next.all (found.start < ·.data.start) then
        modify fun x => { x with heredoc := none }
        recordRange start found.start none
        setPos found.start
        takeHeredoc name
        return true
      else return false

/-- One step from a place before the end. Returns whether the scan goes on. -/
def step : PerlM Bool := do
  let start ← pos
  let before ← depth
  let next ← (← get).grammar.nextMatch
  if ← heredocFirst start next then return true
  match next with
  | none =>
    recordRest none
    return false
  | some next =>
    recordRange start next.data.start none
    setPos next.data.start
    takeMatch next
    if 0 < (← depth) then return false
    ensureProgress (← get).grammar.name next.data.start before
    return true

/-- Steps until the scan ends. -/
def loop : Nat → PerlM Unit
  | 0 => do throw (.outOfSteps (← get).grammar.name)
  | fuel + 1 => do
    if !(← atEnd) then
      if ← step then loop fuel

/-- Scans to the end; a quoted body that is not closed runs to the end. -/
def main : PerlM Unit := do
  loop (Flat.budget (← get).state)
  unwind (← get).grammar

instance : Scanner PerlScanner where
  grammar x := x.grammar
  state x := x.state
  withState x s := { x with state := s }
  setSource x source := { x with state := x.state.setSource source, heredoc := none }
  main := main
  interrupted _ := false

/-- A first line that calls Perl decides at once. -/
def rate : Guess.Rating := fun text _ =>
  if Pattern.isMatch (.ofText "\\A#!.*\\bperl\\b") text then 1
  else Guess.weigh text 0 [
    (.ofText "\\$[a-zA-Z_]+", 0.02),
    (.ofText "@[a-zA-Z_]+", 0.02),
    (.ofText "%[a-zA-Z_]+", 0.02),
    (.ofText "\\bsub\\s+\\w+\\s*\\\x7b", 0.1),
    (.ofText "\\bmy\\s+[$@%]", 0.05),
    (.ofText "\\$[a-zA-Z_]\\w*\\s+=~\\s+s\\W", 0.15)]

end Gloss.Language.Perl

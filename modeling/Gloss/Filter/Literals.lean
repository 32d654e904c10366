import Gloss.Grammar.Basic
import Gloss.Unicode.Alphanumeric

/-!
Filters for strings and regular expressions: escapes are marked, and in a regular expression also its
operators, groups, sets, counts and flags.
-/
namespace Gloss.Filter

/-- An escape in markup: a code, an escaped entity or one escaped character. -/
def escapePattern : Pattern :=
  .ofText
    "(?i)\\\\(?:u[a-f0-9]\x7b4,8\x7d|[0-7]\x7b1,3\x7d|x[a-f0-9]\x7b2\x7d|&(?:lt|gt|amp);|.)"

/-- Marks escapes. -/
def stringEscapes (t : Token) : Token :=
  if t.text.toList.contains '\\' then
    let t := Markup.escapeToken t
    { t with text := Markup.tagMatches escapePattern t.text .escape }
  else t

/-- Text in tags, as characters. -/
def wrapChars (name : String) (s : List Char) : List Char :=
  (Markup.openTag name).toList ++ s ++ (Markup.closeTag name).toList

/-- The front of a text up to and with the first character that fits, and what is behind it; none if no
character fits. -/
def throughFirst? (fits : Char → Bool) (s : List Char) : Option (List Char × List Char) :=
  match s.dropWhile (!fits ·) with
  | [] => none
  | c :: rest => some (s.takeWhile (!fits ·) ++ [c], rest)

/-- Characters from a tag up to and with the next closing tag; all of them if there is none. -/
def throughClosing : List Char → List Char × List Char
  | [] => ([], [])
  | '<' :: '/' :: rest =>
    match throughFirst? (· == '>') rest with
    | some (front, rest) => ('<' :: '/' :: front, rest)
    | none => ('<' :: '/' :: rest, [])
  | c :: rest =>
    let (front, rest) := throughClosing rest
    (c :: front, rest)

/-- Is the text between braces a count: a number, or two with a comma of which one may be missing? -/
def isRepeatCount (inner : List Char) : Bool :=
  let lo := inner.takeWhile (· != ',')
  match inner.drop lo.length with
  | [] => !lo.isEmpty && lo.all Char.isDigit
  | _ :: hi => lo.all Char.isDigit && hi.all Char.isDigit && !(lo.isEmpty && hi.isEmpty)

/-- A count in braces at the front of a text. -/
def repeatMarker? (s : List Char) : Option (List Char × List Char) :=
  match throughFirst? (· == '\x7d') s with
  | some (front, rest) => if isRepeatCount (front.drop 1).dropLast then some (front, rest) else none
  | none => none

/-- How many characters introduce the kind of a group, from its question mark on. -/
def groupMark (afterMark : List Char) : Nat :=
  if "&lt;=".toList.isPrefixOf afterMark || "&lt;!".toList.isPrefixOf afterMark then 6
  else match afterMark with
    | c :: _ => if c.isAlpha || ":!|=".toList.contains c then 2 else 1
    | [] => 1

/-- Marks up the body of a regular expression that is markup already; tags and entities in it are passed
over. `prev` is the character before. Every step consumes a character. -/
def markRegexFrom (extended : Bool) : Nat → Char → List Char → List Char
  | 0, _, s => s
  | _ + 1, _, [] => []
  | fuel + 1, prev, c :: rest =>
    let onward (front : List Char) (prev : Char) (rest : List Char) : List Char :=
      front ++ markRegexFrom extended fuel prev rest
    match c with
    | '<' =>
      let (front, rest) := throughClosing (c :: rest)
      onward front '\\' rest
    | '&' =>
      match throughFirst? (· == ';') (c :: rest) with
      | some (front, rest) => onward front '&' rest
      | none => onward [c] '&' rest
    | '*' | '+' | '.' | '|' => onward (wrapChars "REGEX_OPERATOR" [c]) c rest
    | '?' =>
      if prev == '(' then
        let n := groupMark rest
        onward (wrapChars "REGEX_SUBPATTERN" ((c :: rest).take n)) '?' ((c :: rest).drop n)
      else onward (wrapChars "REGEX_OPERATOR" [c]) c rest
    | '(' | ')' => onward (wrapChars "REGEX_SUBPATTERN_MARKER" [c]) c rest
    | '[' | ']' => onward (wrapChars "REGEX_CLASS_MARKER" [c]) c rest
    | '\x7b' =>
      match repeatMarker? (c :: rest) with
      | some (front, rest) => onward (wrapChars "REGEX_REPEAT_MARKER" front) '\x7d' rest
      | none => onward [c] c rest
    | '#' =>
      if extended then
        let line := (c :: rest).takeWhile (· != '\n')
        onward (wrapChars "COMMENT" line) '#' ((c :: rest).drop line.length)
      else onward [c] c rest
    | _ => onward [c] c rest

/-- Splits off the flags of a regular expression: letters after a second occurrence of the delimiter that
it starts with. -/
def splitFlags (s : List Char) : List Char × List Char :=
  let letters := s.reverse.takeWhile Char.isAlpha
  let body := s.take (s.length - letters.length)
  let delimits (c : Char) : Bool := !Unicode.isAlphanumeric c && !Unicode.isBlank c && c != '&'
  let marked := 1 < Text.byteSize body && !letters.isEmpty && body.getLast? == s.head? &&
    s.head?.any delimits
  if marked then (body, letters.reverse) else (s, [])

/-- Marks up a regular expression that is markup already. -/
def markRegex (text : String) : String :=
  let (body, flags) := splitFlags text.toList
  let marked := markRegexFrom (flags.contains 'x') body.length '\x00' body
  String.ofList (marked ++ if flags.isEmpty then [] else wrapChars "KEYWORD" flags)

/-- Marks escapes and the parts of a regular expression. -/
def regexParts (t : Token) : Token :=
  let t := stringEscapes (Markup.escapeToken t)
  { t with text := markRegex t.text }

end Gloss.Filter

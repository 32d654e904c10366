import Gloss.Pattern.Replacement
import Gloss.Text.Newlines
import Gloss.Token.Stream

/-!
Inline markup. A token of kind `K` is written as its text between `<K>` and `</K>`. The three characters
that markup uses itself are escaped in text, so the text of any output can be recovered by `strip`.
-/
namespace Gloss.Markup

/-- One character of text as markup. -/
def escapeChar (c : Char) : List Char :=
  if c = '&' then ['&', 'a', 'm', 'p', ';']
  else if c = '<' then ['&', 'l', 't', ';']
  else if c = '>' then ['&', 'g', 't', ';']
  else [c]

/-- Text as markup. -/
def escapeChars (s : List Char) : List Char := s.flatMap escapeChar

def escape (s : String) : String := String.ofList (escapeChars s.toList)

/-- Reads entities back; an ampersand that starts none stands for itself. -/
def unescapeChars : List Char → List Char
  | [] => []
  | '&' :: 'a' :: 'm' :: 'p' :: ';' :: rest => '&' :: unescapeChars rest
  | '&' :: 'l' :: 't' :: ';' :: rest => '<' :: unescapeChars rest
  | '&' :: 'g' :: 't' :: ';' :: rest => '>' :: unescapeChars rest
  | c :: rest => c :: unescapeChars rest

def unescape (s : String) : String := String.ofList (unescapeChars s.toList)

/-- Drops tags: all from an opening angle bracket to the next closing one, or to the end if there is
none. -/
def dropTags (inTag : Bool) : List Char → List Char
  | [] => []
  | c :: rest =>
    if inTag then dropTags (c != '>') rest
    else if c = '<' then dropTags true rest
    else c :: dropTags false rest

/-- The text that markup shows. -/
def stripChars (s : List Char) : List Char := unescapeChars (dropTags false s)

def strip (s : String) : String := String.ofList (stripChars s.toList)

def openTag (name : String) : String := "<" ++ name ++ ">"

def closeTag (name : String) : String := "</" ++ name ++ ">"

/-- Markup in tags. With `split`, the tags are closed before and opened again after every line end, so
that each line stands on its own. -/
def tagBlock (kind : Kind) (block : String) (split : Bool) : String :=
  let name := kind.name
  let body :=
    if split then
      (closeTag name ++ "\n" ++ openTag name).intercalate
        ((Text.splitLines block.toList).map String.ofList)
    else block
  openTag name ++ body ++ closeTag name

/-- Markup with every match of a pattern in tags. -/
def tagMatches (p : Pattern) (text : String) (kind : Kind) : String :=
  p.replaceAll text (openTag kind.name ++ "$\x7b0\x7d" ++ closeTag kind.name)

/-- The token with its text as markup. -/
def escapeToken (t : Token) : Token :=
  if t.escaped then t else { t with text := escape t.text, escaped := true }

/-- A token as markup. -/
def renderToken (t : Token) : String :=
  let text := (escapeToken t).text
  match t.kind with
  | some kind => tagBlock kind text true
  | none => text

end Gloss.Markup

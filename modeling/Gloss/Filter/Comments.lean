import Gloss.Grammar.Basic

/-!
Filters for comments: notes to the reader are marked, and comments that document what follows get a kind
of their own with their tags marked.
-/
namespace Gloss.Filter

open Text (Source)

/-- Words that mark a note. -/
def notePattern : Pattern := .ofText "\\b(?:NOTE|XXX|FIXME|TODO|HACK|BUG):?"

/-- A line that starts with a tag: what leads up to it, the mark of the tag, its name and the rest. -/
def docLinePattern : Pattern := .ofText "(?m)^([/*#!\\s]*)([@\\\\])(\\S*)([ \\t][^\\n]*)?$"

/-- Text in braces. -/
def docBracePattern : Pattern := .ofText "\\\x7b[^\x7d]*\\\x7d"

/-- Marks notes. -/
def commentNote (t : Token) : Token :=
  if notePattern.isMatch t.text then
    let t := Markup.escapeToken t
    { t with text := Markup.tagMatches notePattern t.text .commentNote }
  else t

/-- Does a comment document what follows? Its third byte repeats the second or is an exclamation mark,
and the fourth does not repeat the third. -/
def isDocComment (text : String) : Bool :=
  match text.toList.flatMap String.utf8EncodeChar with
  | _ :: second :: third :: fourth :: _ =>
    (third == second || third == '!'.toNat.toUInt8) && fourth != third
  | _ => false

/-- Tags that are followed by a name. -/
def docTagsWithName : List String :=
  ["addtogroup", "category", "class", "def", "defgroup", "dir", "enum", "example", "extends", "file",
    "headerfile", "implements", "ingroup", "interface", "namespace", "memberof", "package", "page",
    "relates", "relatesalso", "weakgroup", "cond", "elseif", "exception", "if", "ifnot", "par", "param",
    "tparam", "retval", "throw", "throws", "xrefitem", "see", "since"]

/-- A line with a tag: the tag is marked, and so are the braces or the name that follow it. -/
def docTagLine (lead mark tag line : String) : String :=
  let head := lead ++ Markup.tagBlock .docTag (mark ++ tag) false
  let chars := line.toList
  if (chars.dropWhile Unicode.isBlank).head? == some '\x7b' then
    head ++ Markup.tagMatches docBracePattern line .docProperty
  else if docTagsWithName.contains (tag.map Char.toLower) then
    let blank := chars.takeWhile Unicode.isBlank
    let name := (chars.drop blank.length).takeWhile (!Unicode.isBlank ·)
    let rest := chars.drop (blank.length + name.length)
    head ++ Markup.tagBlock .docProperty (String.ofList (blank ++ name)) false ++ String.ofList rest
  else head ++ line

/-- Gives comments that document what follows their kind and marks the tags in them. -/
def docComment (t : Token) : Token :=
  if isDocComment t.text then
    let t := Markup.escapeToken t
    let src := Source.ofString t.text
    let replacement (m : Match) : String :=
      docTagLine (m.groupText src 1) (m.groupText src 2) (m.groupText src 3) (m.groupText src 4)
    { t with kind := some .docComment, text := docLinePattern.replaceWith t.text replacement }
  else t

end Gloss.Filter

import Gloss.Filter.Defaults
import Gloss.Guess.Weight
import Gloss.Pattern.Presets

/-!
Haskell. Block comments nest. A run of dashes starts a comment only if no character of an operator is next
to it on either side.
-/
namespace Gloss.Language.Haskell

open Scan

def keywords : List String := [
  "as", "case", "of", "class", "data", "family", "instance", "default", "deriving", "do",
  "forall", "foreign", "hiding", "if", "then", "else", "import", "infix", "infixl", "infixr",
  "let", "in", "mdo", "module", "newtype", "proc", "qualified", "rec", "type", "where"]

def types : List String := [
  "Bool", "Char", "Double", "Either", "FilePath", "Float", "Int", "Integer", "IO", "IOError",
  "Maybe", "Ordering", "ReadS", "ShowS", "String", "Bounded", "Enum", "Eq", "Floating",
  "Fractional", "Functor", "Integral", "Monad", "Num", "Ord", "Read", "Real", "RealFloat",
  "RealFrac", "Show"]

def values : List String := [
  "EQ", "False", "GT", "Just", "Left", "LT", "Nothing", "Right", "True"]

/-- Functions that are always in scope. -/
def functions : List String := [
  "abs", "acos", "acosh", "all", "and", "any", "appendFile", "applyM", "asTypeOf", "asin",
  "asinh", "atan", "atan2", "atanh", "break", "catch", "ceiling", "compare", "concat",
  "concatMap", "const", "cos", "cosh", "curry", "cycle", "decodeFloat", "div", "divMod", "drop",
  "dropWhile", "elem", "encodeFloat", "enumFrom", "enumFromThen", "enumFromThenTo", "enumFromTo",
  "error", "even", "exp", "exponent", "fail", "filter", "flip", "floatDigits", "floatRadix",
  "floatRange", "floor", "fmap", "foldl", "foldl1", "foldr", "foldr1", "fromEnum", "fromInteger",
  "fromIntegral", "fromRational", "fst", "gcd", "getChar", "getContents", "getLine", "head",
  "id", "init", "interact", "ioError", "isDenormalized", "isIEEE", "isInfinite", "isNaN",
  "isNegativeZero", "iterate", "last", "lcm", "length", "lex", "lines", "log", "logBase",
  "lookup", "map", "mapM", "mapM_", "max", "maxBound", "maximum", "maybe", "min", "minBound",
  "minimum", "mod", "negate", "not", "notElem", "null", "odd", "or", "otherwise", "pi", "pred",
  "print", "product", "properFraction", "putChar", "putStr", "putStrLn", "quot", "quotRem",
  "read", "readFile", "readIO", "readList", "readLn", "readParen", "reads", "readsPrec",
  "realToFrac", "recip", "rem", "repeat", "replicate", "return", "reverse", "round",
  "scaleFloat", "scanl", "scanl1", "scanr", "scanr1", "seq", "sequence", "sequence_", "show",
  "showChar", "showList", "showParen", "showString", "shows", "showsPrec", "significand",
  "signum", "sin", "sinh", "snd", "span", "splitAt", "sqrt", "subtract", "succ", "sum", "tail",
  "take", "takeWhile", "tan", "tanh", "toEnum", "toInteger", "toRational", "truncate", "uncurry",
  "undefined", "unlines", "until", "unwords", "unzip", "unzip3", "userError", "words",
  "writeFile", "zip", "zip3", "zipWith", "zipWith3"]

/-- Two or more dashes. -/
def dashesKind : Kind := ⟨"DASHES"⟩

/-- The opening of a block comment. -/
def nestedComment : Kind := ⟨"NESTED_COMMENT"⟩

def isOperatorChar (c : Char) : Bool := "+%^/*?#<>:;=@[]|\\~-!$&".toList.contains c

/-- Records a run of dashes as a comment to the end of the line, or as part of an operator. -/
def dashes : Handler := fun _ => do
  let start ← pos
  let rest ← restChars
  let beforeOk := !(← charBefore?).any isOperatorChar
  let afterOk := !(rest.dropWhile (· == '-')).head?.any isOperatorChar
  let (kind, text) :=
    if beforeOk && afterOk then (Kind.comment, rest.takeWhile (· != '\n'))
    else (Kind.operator, rest.takeWhile isOperatorChar)
  let stop := start + Text.byteSize text
  setPos stop
  recordRange start stop (some kind)

def commentOpen : Pattern := .ofText "\\\x7b-"

def commentClose : Pattern := .ofText "-\\\x7d"

/-- Gives names with a capital the kind of their word. -/
def mapType (ctx : FilterContext) (t : Token) : Token :=
  match ctx.words.get? t.text with
  | some kind => { t with kind := some kind }
  | none => t

/-- The grammar. A name in grave accents is used as an operator. -/
def grammar : Grammar :=
  Grammar.withFilters "haskell"
  |>.wordsOf .keyword keywords
  |>.wordsOf .type types
  |>.wordsOf .function functions
  |>.wordsOf .value values
  |>.filter (some "map-type") .type mapType
  |>.token .comment (.ofText "\\A#!.*")
  |>.token .type (.ofText "[A-Z]['\\w]*")
  |>.token .ident (.ofText "[_a-z]['\\w]*")
  |>.token dashesKind (.ofText "--+")
  |>.token .function
    (.ofText "!!|\\$!?|&&|\\|\\|?|\\*\\*?|\\+\\+?|-|\\.|/=?|<=?|==|=<<|>>?=?|\\^\\^?")
  |>.token .operator (.ofText "`[^`]*`")
  |>.token .function (.ofText "\\\\[^+%^/*?#<>:;=@\\[\\]|\\\\~\\-!$&\\s]\\S*")
  |>.token nestedComment (.ofText "\\\x7b-")
  |>.token .operator (.ofText "[+%^/*?#<>:;=@\\[\\]|\\\\~\\-!$&]+")
  |>.token .string (.ofText Presets.doubleQuotedLine)
  |>.token .character (.ofText Presets.singleQuotedLine)
  |>.token .numeric (.ofText "0[oO]\\d+|0[xX][a-fA-F\\d]+|\\d+(?:\\.\\d+)?(?:[eE][+-]?\\d+)?")
  |>.handle dashesKind dashes
  |>.handle nestedComment (fun _ => nestable .comment commentOpen commentClose)

def rate : Guess.Rating := fun text _ => Guess.weigh text 0 [
  (.ofText "\\\x7b-.*-\\\x7d", 0.05),
  (.ofText "(?m)^import\\s+qualified", 0.05),
  (.ofText "data\\s+\\w+\\s+\\w+\\s*=", 0.05)]

end Gloss.Language.Haskell

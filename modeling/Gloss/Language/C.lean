import Gloss.Filter.Defaults
import Gloss.Guess.Weight
import Gloss.Pattern.Presets

/-!
C and C++. Directives of the preprocessor run to the end of their line, which a backslash or a comment can
carry on, and are one token each; the strings, header names and comments in them are marked afterwards.
Parts that `#if 0` switches off are comments and nest.
-/
namespace Gloss.Language.C

open Scan
open Text (Source)

def keywords : List String := [
  "asm", "auto", "break", "case", "catch", "class", "continue", "const", "const_cast", "connect",
  "default", "delete", "do", "dynamic_cast", "else", "explicit", "extern", "for", "for_each",
  "friend", "goto", "if", "inline", "mutable", "namespace", "new", "operator", "private",
  "protected", "public", "register", "reinterpret_cast", "return", "static", "static_cast",
  "switch", "sizeof", "signed", "template", "this", "throw", "try", "typedef", "typeid",
  "typename", "using", "unsigned", "while", "NULL", "SIGNAL", "SLOT", "TRUE", "FALSE", "true",
  "false"]

def types : List String := [
  "bool", "char", "clock_t", "double", "div_t", "enum", "float", "fpos_t", "int", "int8",
  "int16", "int32", "int64", "int8_t", "int16_t", "int32_t", "int64_t", "long", "ldiv_t",
  "short", "struct", "size_t", "ptrdiff_t", "time_t", "union", "uint", "uint8", "uint16",
  "uint32", "uint64", "uint8_t", "uint16_t", "uint32_t", "uint64_t", "void", "va_list",
  "wchar_t", "pair", "list", "deque", "queue", "priority_queue", "set", "stack", "string", "map",
  "multiset", "multimap", "hash_set", "hash_multiset", "hash_map", "hash_multimap", "bitset",
  "vector", "valarray", "iterator"]

/-- Functions of the standard library. -/
def functions : List String := [
  "assert", "cabs", "cacos", "cacosh", "carg", "casin", "casinh", "catan", "catanh", "ccos",
  "ccosh", "cexp", "cimag", "cis", "clog", "conj", "cpow", "cproj", "creal", "csin", "csinh",
  "csqrt", "ctan", "ctanh", "digittoint", "isalnum", "isalpha", "isascii", "isblank", "iscntrl",
  "isdigit", "isgraph", "islower", "isprint", "ispunct", "isspace", "isupper", "isxdigit",
  "toascii", "tolower", "toupper", "imaxabs", "imaxdiv", "strtoimax", "strtoumax", "wcstoimax",
  "wcstoumax", "localeconv", "setlocale", "acos", "asin", "atan", "atan2", "atof", "ceil", "cos",
  "cosh", "exp", "fabs", "floor", "frexp", "ldexp", "log", "log10", "modf", "pow", "sin", "sinh",
  "sqrt", "tan", "tanh", "longjmp", "setjmp", "raise", "va_arg", "va_copy", "va_end", "va_start",
  "offsetof", "clearerr", "fclose", "feof", "ferror", "fflush", "fgetc", "fgetpos", "fgets",
  "fopen", "freopen", "fdopen", "fprintf", "fputc", "fputs", "fread", "fscanf", "fseek",
  "fsetpos", "ftell", "fwrite", "getc", "getchar", "gets", "perror", "printf", "sprintf",
  "snprintf", "putc", "putchar", "fputchar", "puts", "remove", "rename", "rewind", "scanf",
  "sscanf", "vfscanf", "vscanf", "vsscanf", "setbuf", "setvbuf", "tmpfile", "tmpnam", "ungetc",
  "vprintf", "vfprintf", "vsprintf", "abort", "abs", "labs", "atexit", "atoi", "atol", "bsearch",
  "div", "ldiv", "exit", "free", "itoa", "getenv", "ltoa", "malloc", "alloc", "realloc", "qsort",
  "rand", "srand", "strtod", "strtol", "strtoul", "system", "memchr", "memcmp", "memcpy",
  "memmove", "memset", "strcat", "strncat", "strchr", "strcmp", "strncmp", "strcoll", "strcpy",
  "strncpy", "strcspn", "strerror", "strlen", "strpbrk", "strrchr", "strspn", "strstr", "strtok",
  "strxfrm", "asctime", "clock", "ctime", "difftime", "gmtime", "localtime", "mktime",
  "strftime", "time", "btowc", "fgetwc", "fgetws", "fputwc", "fputws", "fwide", "fwprintf",
  "fwscanf", "getwc", "getwchar", "mbrlen", "mbrtowc", "mbsinit", "mbsrtowcs", "putwc",
  "putwchar", "swprintf", "swscanf", "ungetwc", "vfwprintf", "vswprintf", "vwprintf", "wcrtomb",
  "wcscat", "wcschr", "wcscmp", "wcscoll", "wcscpy", "wcscspn", "wcsftime", "wcslen", "wcsncat",
  "wcsncmp", "wcsncpy", "wcspbrk", "wcsrchr", "wcsrtombs", "wcsspn", "wcsstr", "wcstod",
  "wcstok", "wcstol", "wcstoul", "wcsxfrm", "wctob", "wmemchr", "wmemcmp", "wmemcpy", "wmemmove",
  "wmemset", "wprintf", "wscanf", "iswalnum", "iswalpha", "iswcntrl", "iswctype", "iswdigit",
  "iswgraph", "iswlower", "iswprint", "iswpunct", "iswspace", "iswupper", "iswxdigit",
  "towctrans", "towlower", "towupper", "wctrans", "wctype", "farmalloc", "getch", "getche",
  "gotoxy", "getaddrinfo", "getnameinfo"]

/-- A directive that switches a part off. -/
def ifZero : Pattern := .ofText "(?m)^[ \\t]*#[ \\t]*if[ \\t]+0\\b"

/-- A directive that opens a conditional part. -/
def ifOpen : Pattern := .ofText "(?m)^[ \\t]*#[ \\t]*if(?:n?def)?\\b"

/-- A directive that closes a conditional part. -/
def ifClose : Pattern := .ofText "(?m)^[ \\t]*#[ \\t]*endif\\b"

/-- A whole directive. -/
def directive : Pattern := .ofText "#(?:[^/\\n\\\\]+|(?s:/\\*.*?(?:\\*/|\\z))|//.*|/|\\\\(?s:.))*"

/-- A string, a header name or a comment in the markup of a directive. -/
def directivePart : Pattern :=
  .ofText "(?m)\"(?:[^\\\\\\n\"]+|\\\\.)*(?:\"|$)|&lt;(.*?)&gt;|//.*|(?s:/\\*.*?(?:\\*/|\\z))"

/-- Records a directive, or a part that is switched off. -/
def preprocessor : Handler := fun _ => do
  if (← check ifZero).isSome then nestable .comment ifOpen ifClose
  else
    skipBlank
    match ← scan directive with
    | some m => recordMatch (some .preprocessor) m
    | none => record (some .preprocessor) (← take 1)

/-- Marks strings, header names and comments in a directive. -/
def markDirective (t : Token) : Token :=
  let t := Markup.escapeToken t
  let src := Source.ofString t.text
  let replacement (m : Match) : String :=
    let all := m.text src
    if all.startsWith "\"" then Markup.tagBlock .string all true
    else if all.startsWith "&lt;" && (m.group? 1).isSome then
      "&lt;" ++ Markup.tagBlock .string (m.groupText src 1) true ++ "&gt;"
    else Markup.tagBlock .comment all true
  { t with text := directivePart.replaceWith t.text replacement }

/-- The grammar. A slash is an operator on its own, so that a comment behind an operator is seen. -/
def grammar : Grammar :=
  Grammar.withFilters "c"
  |>.filter (some "preprocessor") .preprocessor (fun _ => markDirective)
  |>.wordsOf .function functions
  |>.wordsOf .keyword keywords
  |>.wordsOf .type types
  |>.token .comment (.ofText Presets.blockComment)
  |>.token .comment (.ofText Presets.slashComment)
  |>.token .string (.ofText "(?m)L?\"(?:[^\\\\\"\\n]+|\\\\(?s:.))*(?:\"|$)")
  |>.token .character (.ofText "(?im)L?'(?:\\\\(?:x[a-f0-9]\x7b1,2\x7d|.)|.)(?:'|$)")
  |>.token .numeric (.ofText "(?i)0x[a-f0-9]+[ul]*")
  |>.token .numeric (.ofText "(?i)(?:\\d*\\.\\d+|\\d+\\.\\d*)(?:e[+-]?\\d+)?[fl]?")
  |>.token .numeric (.ofText "(?i)\\d+(?:[ul]+|(?:e[+-]?\\d+)?[fl]?)")
  |>.token .numeric (.ofText Presets.hexNumber)
  |>.token .numeric (.ofText Presets.realNumber)
  |>.token .operator (.ofText "[!%^&*\\-+=~:?.|<>]+|/")
  |>.token .preprocessor (.ofText "(?m)^[ \\t]*#")
  |>.token .ident (.ofText "[a-zA-Z_]\\w*")
  |>.handle .preprocessor preprocessor

def rate : Guess.Rating := fun text _ => Guess.weigh text 0 [
  (.ofText "(?m)^\\s*#\\s*(?:include\\s+[<\"]|ifdef|endif|define)\\b", 0.3),
  (.ofText "\\bchar\\s*\\*\\s*\\w+", 0.05),
  (.ofText "\\bmalloc\\s*\\(", 0.02)]

end Gloss.Language.C

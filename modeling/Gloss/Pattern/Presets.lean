/-!
Texts of patterns that several grammars share. A string or comment that is not closed runs to the end of
its line or of the source, so it is one token in any case.
-/
namespace Gloss.Presets

/-- A string in double quotes that may go on over lines. -/
def doubleQuoted : String := "(?s)\"(?:[^\"\\\\]|\\\\.)*(?:\"|\\\\?\\z)"

/-- A string in double quotes that ends with its line. -/
def doubleQuotedLine : String := "(?m)\"(?:[^\"\\\\\\n]|\\\\(?s:.))*(?:\"|\\\\?$)"

/-- A string in single quotes that may go on over lines. -/
def singleQuoted : String := "(?s)'(?:[^'\\\\]|\\\\.)*(?:'|\\\\?\\z)"

/-- A string in single quotes that ends with its line. -/
def singleQuotedLine : String := "(?m)'(?:[^'\\\\\\n]|\\\\(?s:.))*(?:'|\\\\?$)"

/-- A character in single quotes. -/
def character : String := "(?i)'(?:\\\\(?:x[a-f0-9]\x7b1,2\x7d|.)|[^'\\\\\\n])'?"

def hexNumber : String := "0[xX][a-fA-F0-9]+"

/-- A whole number, a decimal fraction or a number with an exponent. -/
def realNumber : String := "(?i)(?:\\d+(?:\\.\\d+)?|\\.\\d+)(?:e[+-]?\\d+)?"

/-- A comment after two slashes. -/
def slashComment : String := "//.*"

/-- A comment between slash and star; it does not nest. -/
def blockComment : String := "(?s)/\\*.*?(?:\\*/|\\z)"

/-- A comment after a hash sign. -/
def hashComment : String := "#.*"

/-- A string in single quotes where two quotes stand for one. -/
def doubledQuote : String := "'(?:[^']|'')*(?:'|\\z)"

/-- The same, with backslash escapes too. -/
def doubledQuoteEscaped : String := "(?s)'(?:[^'\\\\]|''|\\\\.)*(?:'|\\\\?\\z)"

end Gloss.Presets

/-!
Kinds of tokens. A kind is its name, which is also the name of the tag around the token's text in the
output.
-/
namespace Gloss

/-- The kind of a token. -/
structure Kind where
  name : String
  deriving DecidableEq, Hashable, Repr, Inhabited

namespace Kind

def keyword : Kind := ⟨"KEYWORD"⟩
def type : Kind := ⟨"TYPE"⟩
def function : Kind := ⟨"FUNCTION"⟩
def value : Kind := ⟨"VALUE"⟩
def ident : Kind := ⟨"IDENT"⟩
def variable_ : Kind := ⟨"VARIABLE"⟩
def constant : Kind := ⟨"CONSTANT"⟩
def userFunction : Kind := ⟨"USER_FUNCTION"⟩
def member : Kind := ⟨"OO"⟩
def comment : Kind := ⟨"COMMENT"⟩
def docComment : Kind := ⟨"DOCCOMMENT"⟩
def docTag : Kind := ⟨"DOCTAG"⟩
def docProperty : Kind := ⟨"DOCPROPERTY"⟩
def commentNote : Kind := ⟨"COMMENT_NOTE"⟩
def string : Kind := ⟨"STRING"⟩
def character : Kind := ⟨"CHARACTER"⟩
def escape : Kind := ⟨"ESC"⟩
def heredoc : Kind := ⟨"HEREDOC"⟩
def interpolation : Kind := ⟨"INTERPOLATION"⟩
def regex : Kind := ⟨"REGEX"⟩
def numeric : Kind := ⟨"NUMERIC"⟩
def operator : Kind := ⟨"OPERATOR"⟩
def preprocessor : Kind := ⟨"PREPROCESSOR"⟩
def delimiter : Kind := ⟨"DELIMITER"⟩
def tag : Kind := ⟨"TAG"⟩
def htmlTag : Kind := ⟨"HTMLTAG"⟩

/-- Opening brackets, kept apart so that a slash after one starts a regular expression. -/
def opener : Kind := ⟨"OPENER"⟩

/-- Closing brackets. -/
def closer : Kind := ⟨"CLOSER"⟩

/-- The name of the outermost state, in which no region is open. -/
def initial : Kind := ⟨"initial"⟩

end Kind

end Gloss

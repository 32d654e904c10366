import Gloss.Token.Stream

/-!
What a slash means. After an operand it divides, elsewhere it opens a regular expression. The token before
it decides, where comments and text without a kind do not count.
-/
namespace Gloss

/-- The two meanings of a slash. -/
inductive SlashMeaning where
  | regex
  | division
  deriving DecidableEq, Repr

namespace SlashMeaning

/-- Does the token count when a slash is read? -/
def isSignificant (t : Token) : Bool :=
  match t.kind with
  | some k => !k.name.startsWith "COMMENT"
  | none => false

/-- Does a slash after this token open a regular expression? It does after an operator, an opening bracket
and the given words. -/
def opensAfter (regexWords : List String) (t : Token) : Bool :=
  match t.kind with
  | some k =>
    if k = .operator || k = .opener then true
    else if k = .ident then regexWords.contains t.text
    else false
  | none => false

/-- The meaning of a slash after the recorded tokens, which are given latest first. -/
def ofLatest (latest : List Token) (regexWords : List String) : SlashMeaning :=
  match latest.find? isSignificant with
  | none => .regex
  | some t => if opensAfter regexWords t then .regex else .division

end SlashMeaning

end Gloss

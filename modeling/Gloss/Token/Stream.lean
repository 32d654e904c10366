import Gloss.Token.Kind

/-!
Tokens and the stream they are recorded in. A token without a kind is text that no rule claimed. The text
of an escaped token is markup already and is not escaped again.
-/
namespace Gloss

/-- A stretch of the output with its kind. -/
structure Token where
  kind : Option Kind
  text : String
  escaped : Bool := false
  deriving DecidableEq, Repr, Inhabited

namespace Token

/-- A token of raw text. -/
def raw (kind : Option Kind) (text : String) : Token := ⟨kind, text, false⟩

/-- A token of finished markup. -/
def markup (kind : Option Kind) (text : String) : Token := ⟨kind, text, true⟩

def is (t : Token) (kind : Kind) : Bool := t.kind == some kind

/-- One character of a quoted text: quotes, backslashes and the common control characters are written
with a backslash. -/
def quoteChar (c : Char) : String :=
  match c with
  | '"' => "\\\""
  | '\\' => "\\\\"
  | '\n' => "\\n"
  | '\t' => "\\t"
  | '\r' => "\\r"
  | '\x00' => "\\0"
  | _ =>
    if c.toNat < 32 || c.toNat == 127 then
      "\\u\x7b" ++ String.ofList (Nat.toDigits 16 c.toNat) ++ "\x7d"
    else String.singleton c

/-- A short form for reading: the kind or an underscore, a mark if escaped, and the quoted text. -/
def display (t : Token) : String :=
  let name := match t.kind with
    | some k => k.name
    | none => "_"
  let mark := if t.escaped then "!" else ""
  name ++ mark ++ "(\"" ++ String.join (t.text.toList.map quoteChar) ++ "\")"

end Token

/-- Recorded tokens. -/
structure TokenStream where
  /-- The tokens, latest first. -/
  latest : List Token := []
  deriving DecidableEq, Repr, Inhabited

namespace TokenStream

/-- The tokens in the order of recording. -/
def toList (s : TokenStream) : List Token := s.latest.reverse

/-- Records a token, unless its text is empty. -/
def push (s : TokenStream) (t : Token) : TokenStream :=
  if t.text.isEmpty then s else ⟨t :: s.latest⟩

/-- The tokens with text of a list. -/
def ofList (ts : List Token) : TokenStream := ts.foldl push {}

def size (s : TokenStream) : Nat := s.latest.length

def isEmpty (s : TokenStream) : Bool := s.latest.isEmpty

def last? (s : TokenStream) : Option Token := s.latest.head?

/-- The texts of all tokens, one after another. -/
def text (s : TokenStream) : String := String.join (s.toList.map (·.text))

end TokenStream

end Gloss

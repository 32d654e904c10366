import Gloss.Grammar.Basic

/-!
Filters for identifiers: known words get their kinds, names that the source defines and names in capitals
are marked, and all others lose their tag. The two filters of the stream are here too.
-/
namespace Gloss.Filter

/-- Gives identifiers the kind of their word. -/
def mapIdent (ctx : FilterContext) (t : Token) : Token :=
  if t.is .ident && !t.escaped then { t with kind := some (ctx.words.classify t.text) } else t

/-- Gives names that the source defines their kind. -/
def userDefs (ctx : FilterContext) (t : Token) : Token :=
  match ctx.userDefs.get? t.text with
  | some kind => { t with kind := some kind }
  | none => t

/-- Is a text a name of four or more capitals, digits and underscores, with a capital in it and no digit
first? -/
def isConstantName (s : List Char) : Bool :=
  let isName (c : Char) : Bool := c.isUpper || c == '_'
  match s with
  | [] => false
  | c :: rest =>
    4 ≤ s.length && isName c && rest.all (fun c => isName c || c.isDigit) && s.any Char.isUpper

/-- Marks names in capitals as constants. -/
def upperToConstant (_ : FilterContext) (t : Token) : Token :=
  if t.is .ident && isConstantName t.text.toList then { t with kind := some .constant } else t

/-- Takes the tag off identifiers that got no other kind. -/
def cleanIdent (_ : FilterContext) (t : Token) : Token :=
  if t.is .ident then { t with kind := none } else t

/-- Shows tokens under the kinds of the rule map. -/
def ruleMap (ctx : FilterContext) (ts : List Token) : List Token :=
  ts.map fun t =>
    match t.kind.bind ctx.ruleMap.get? with
    | some shown => { t with kind := shown }
    | none => t

/-- Does a token select a member of what comes before it? -/
def isAccess (t : Token) : Bool :=
  t.is .operator && (t.text.endsWith "." || t.text.endsWith "->" || t.text.endsWith "::")

/-- Marks identifiers right after a token that selects a member. -/
def membersFrom (afterAccess : Bool) : List Token → List Token
  | [] => []
  | t :: rest =>
    let t' := if afterAccess && t.is .ident then { t with kind := some .member } else t
    t' :: membersFrom (isAccess t) rest

/-- Marks identifiers right after a token that selects a member. -/
def members (_ : FilterContext) (ts : List Token) : List Token := membersFrom false ts

end Gloss.Filter

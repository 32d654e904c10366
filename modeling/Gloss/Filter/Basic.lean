import Gloss.Grammar.Basic

/-!
Ready filters, the building blocks for grammars put together from data.
-/
namespace Gloss.Filter

/-- Gives tokens another kind, or none. -/
def setKind (kind : Option Kind) (_ : FilterContext) (t : Token) : Token := { t with kind }

/-- Marks what a pattern matches in the markup of a token. -/
def markMatches (pattern : Pattern) (kind : Kind) (_ : FilterContext) (t : Token) : Token :=
  let t := Markup.escapeToken t
  { t with text := Markup.tagMatches pattern t.text kind }

/-- Puts the markup of a token into one more tag. -/
def wrapIn (kind : Kind) (_ : FilterContext) (t : Token) : Token :=
  let t := Markup.escapeToken t
  { t with text := Markup.tagBlock kind t.text false }

/-- Drops the tokens of a kind. -/
def dropKind (kind : Option Kind) (_ : FilterContext) (ts : List Token) : List Token :=
  ts.filter (·.kind != kind)

/-- Gives the tokens of a kind another. -/
def changeKind (old new : Option Kind) (_ : FilterContext) (ts : List Token) : List Token :=
  ts.map fun t => if t.kind == old then { t with kind := new } else t

end Gloss.Filter

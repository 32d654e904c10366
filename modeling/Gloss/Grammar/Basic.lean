import Gloss.Scan.State
import Gloss.WordMap

/-!
Grammars: all that one language registers. Patterns say which tokens there are, handlers take over the
scan for some kinds, filters change recorded tokens before they are rendered, and transitions, the rule map
and recovery patterns say how regions behave. A language that varies another starts from its grammar.
-/
namespace Gloss

/-- What a filter may look at. -/
structure FilterContext where
  words : WordMap
  userDefs : Keyed String Kind
  ruleMap : Keyed Kind (Option Kind)

/-- Takes over the scan at a match of some kind. -/
abbrev Handler := Match → ScanM Unit

/-- A change of the tokens of one kind. -/
structure TokenFilter where
  name : Option String
  kind : Kind
  apply : FilterContext → Token → Token

/-- A change of the whole stream of tokens. -/
structure StreamFilter where
  name : Option String
  apply : FilterContext → List Token → List Token

/-- The rules of a language. -/
structure Grammar where
  name : String
  patterns : PatternTable := {}
  words : WordMap := {}
  handlers : Keyed Kind Handler := []
  filters : List TokenFilter := []
  streamFilters : List StreamFilter := []
  /-- The kind that a rule is shown under; none shows no tag. -/
  ruleMap : Keyed Kind (Option Kind) := []
  /-- The kinds that may occur in a state. -/
  transitions : Keyed Kind (List Kind) := []
  /-- Patterns that take up a token or region that was left half-way. -/
  recovery : Keyed Kind Pattern := []
  deriving Inhabited

namespace Grammar

/-- A grammar without filters. -/
def bare (name : String) : Grammar := { name }

/-- Adds a pattern, at the end of the table. -/
def token (g : Grammar) (kind : Kind) (pattern : Pattern) : Grammar :=
  { g with patterns := g.patterns.register kind pattern }

/-- Adds a pattern that opens a region up to a match of `close`. -/
def region (g : Grammar) (kind : Kind) (pattern close : Pattern) : Grammar :=
  { g with patterns := g.patterns.register kind pattern (some close) }

/-- Drops the patterns of a kind. -/
def removePattern (g : Grammar) (kind : Kind) : Grammar :=
  { g with patterns := g.patterns.remove kind }

/-- Gives a kind to words. -/
def wordsOf (g : Grammar) (kind : Kind) (words : List String) : Grammar :=
  { g with words := g.words.add kind words }

def setCaseSensitive (g : Grammar) (on : Bool) : Grammar :=
  { g with words := g.words.setCaseSensitive on }

/-- Has a handler take over the matches of a kind. -/
def handle (g : Grammar) (kind : Kind) (handler : Handler) : Grammar :=
  { g with handlers := g.handlers.put kind handler }

def removeHandler (g : Grammar) (kind : Kind) : Grammar :=
  { g with handlers := g.handlers.erase kind }

/-- Adds a filter for the tokens of a kind, after those there are. -/
def filter (g : Grammar) (name : Option String) (kind : Kind)
    (apply : FilterContext → Token → Token) : Grammar :=
  { g with filters := g.filters ++ [⟨name, kind, apply⟩] }

def removeFilter (g : Grammar) (name : String) : Grammar :=
  { g with filters := g.filters.filter (·.name != some name) }

/-- Adds a filter for the stream, after those there are. -/
def streamFilter (g : Grammar) (name : Option String)
    (apply : FilterContext → List Token → List Token) : Grammar :=
  { g with streamFilters := g.streamFilters ++ [⟨name, apply⟩] }

def removeStreamFilter (g : Grammar) (name : String) : Grammar :=
  { g with streamFilters := g.streamFilters.filter (·.name != some name) }

/-- Shows a rule under another kind, or under none. -/
def showAs (g : Grammar) (kind : Kind) (shown : Option Kind) : Grammar :=
  { g with ruleMap := g.ruleMap.put kind shown }

/-- Allows a kind in a state, besides those that were allowed. -/
def allow (g : Grammar) (state kind : Kind) : Grammar :=
  { g with transitions := g.transitions.put state ((g.transitions.get? state).getD [] ++ [kind]) }

/-- Says all kinds that may occur in a state. -/
def allowOnly (g : Grammar) (state : Kind) (kinds : List Kind) : Grammar :=
  { g with transitions := g.transitions.put state kinds }

/-- Says how a token or region of a kind is taken up again. -/
def recover (g : Grammar) (kind : Kind) (pattern : Pattern) : Grammar :=
  { g with recovery := g.recovery.put kind pattern }

/-- Filters for the tokens of a kind, in order. -/
def filtersFor (g : Grammar) (kind : Kind) : List TokenFilter := g.filters.filter (·.kind == kind)

/-- The kind that a rule is shown under. -/
def displayKind (g : Grammar) (kind : Kind) : Option Kind :=
  (g.ruleMap.get? kind).getD (some kind)

/-- May a kind occur in a state? Without transitions everything may occur in the initial state and
nothing in any other. -/
def allows (g : Grammar) (state kind : Kind) : Bool :=
  match g.transitions.get? state with
  | some kinds => kinds.contains kind
  | none => state == .initial

/-- What filters see during a scan. -/
def context (g : Grammar) (s : ScanState) : FilterContext :=
  { words := g.words, userDefs := s.userDefs, ruleMap := g.ruleMap }

/-- The nearest match of the grammar's patterns. -/
def nextMatch (g : Grammar) : ScanM (Option NextMatch) := Scan.onCursor g.patterns.nextMatch

/-- Runs the filters of the kind that a token has at first. -/
def filterToken (g : Grammar) (ctx : FilterContext) (t : Token) : Token :=
  match t.kind with
  | none => t
  | some kind => (g.filtersFor kind).foldl (fun t f => f.apply ctx t) t

/-- Wraps the markup of a finished node of the tree: it is shown under the kind that the rule map says,
and filtered as the kind it has. -/
def wrapNode (g : Grammar) (ctx : FilterContext) (kind : Kind) (markup : String) : String :=
  let t : Token := .markup (g.displayKind kind) markup
  Markup.renderToken ((g.filtersFor kind).foldl (fun t f => f.apply ctx t) t)

/-- Tokens as markup, filtered first. -/
def renderTokens (g : Grammar) (ctx : FilterContext) (ts : List Token) : String :=
  let ts := g.streamFilters.foldl (fun ts f => f.apply ctx ts) ts
  String.join (ts.map fun t => Markup.renderToken (g.filterToken ctx t))

/-- Renders what was recorded and forgets it. -/
def tagged (g : Grammar) (s : ScanState) : String × ScanState :=
  let ctx := g.context s
  match s.outline with
  | some o => (o.collapse (g.wrapNode ctx), { s with outline := some {} })
  | none => (g.renderTokens ctx s.tokens.toList, { s with tokens := {} })

end Grammar

end Gloss

import Gloss.Cursor
import Gloss.Token.Kind

/-!
The ordered table of patterns of a grammar. Of all entries the one whose next match starts earliest is
taken, and on a tie the one registered first; the length of a match does not count.
-/
namespace Gloss

/-- A pattern with its kind. With a closing pattern it opens a region that the closing pattern ends. -/
structure PatternTable.Entry where
  kind : Kind
  pattern : Pattern
  close : Option Pattern := none

/-- Patterns in order of registration. -/
structure PatternTable where
  entries : List PatternTable.Entry := []

/-- The next match of a table: its kind, the number of its entry and the match. -/
structure NextMatch where
  kind : Kind
  entry : Nat
  data : Match
  deriving DecidableEq, Repr

namespace PatternTable

def register (t : PatternTable) (kind : Kind) (pattern : Pattern) (close : Option Pattern := none) :
    PatternTable :=
  ⟨t.entries ++ [⟨kind, pattern, close⟩]⟩

/-- Drops all entries of a kind. -/
def remove (t : PatternTable) (kind : Kind) : PatternTable :=
  ⟨t.entries.filter (·.kind != kind)⟩

def size (t : PatternTable) : Nat := t.entries.length

def get? (t : PatternTable) (i : Nat) : Option Entry := t.entries[i]?

def entriesFor (t : PatternTable) (kind : Kind) : List Entry := t.entries.filter (·.kind == kind)

/-- The patterns of the entries with a property, labelled by kind and number. -/
def labelled (t : PatternTable) (allowed : Kind → Bool) : List ((Kind × Nat) × Pattern) :=
  t.entries.zipIdx.filterMap fun (e, i) =>
    if allowed e.kind then some ((e.kind, i), e.pattern) else none

/-- The nearest match of the entries with an allowed kind. -/
def nextAllowed (t : PatternTable) (allowed : Kind → Bool) (c : Cursor) : Option NextMatch × Cursor :=
  let (best, c) := c.nearest (t.labelled allowed)
  (best.map fun ((kind, i), m) => ⟨kind, i, m⟩, c)

/-- The nearest match of all entries. -/
def nextMatch (t : PatternTable) (c : Cursor) : Option NextMatch × Cursor :=
  t.nextAllowed (fun _ => true) c

end PatternTable

end Gloss

import Gloss.Keyed
import Gloss.Token.Kind
import Gloss.Unicode.Lowercase

/-!
Kinds of words. A map from words to kinds is case sensitive or not; one that is not keeps its words in
small letters and compares all words that way. The latest kind given to a word counts.
-/
namespace Gloss

/-- Kinds of words. Each word stands once. -/
structure WordMap where
  entries : Keyed String Kind := []
  caseSensitive : Bool := true
  deriving Inhabited

namespace WordMap

/-- The form under which a word is kept. -/
def key (m : WordMap) (word : String) : String :=
  if m.caseSensitive then word else Unicode.lowercase word

/-- Gives a kind to words. -/
def add (m : WordMap) (kind : Kind) (words : List String) : WordMap :=
  { m with entries := words.foldl (fun es w => es.put (m.key w) kind) m.entries }

/-- The kind of a word. -/
def get? (m : WordMap) (word : String) : Option Kind := m.entries.get? (m.key word)

/-- Forgets a word. -/
def erase (m : WordMap) (word : String) : WordMap :=
  { m with entries := m.entries.erase (m.key word) }

/-- The kind of a word; a word without one is a plain identifier. -/
def classify (m : WordMap) (word : String) : Kind := (m.get? word).getD .ident

/-- Switches case sensitivity. Words are brought to small letters when it ends; when it starts they stay
as they are. -/
def setCaseSensitive (m : WordMap) (on : Bool) : WordMap :=
  if m.caseSensitive == on then m
  else if on then { m with caseSensitive := true }
  else
    { entries := m.entries.foldr (fun (w, k) es => Keyed.put es (Unicode.lowercase w) k) []
      caseSensitive := false }

def size (m : WordMap) : Nat := m.entries.length

def isEmpty (m : WordMap) : Bool := m.entries.isEmpty

end WordMap

end Gloss

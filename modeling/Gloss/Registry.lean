import Gloss.Scan.Any

/-!
Languages by code. Codes are compared without regard to case. A language that is added takes its codes from
languages added before it; one that has no code left is gone.
-/
namespace Gloss

open Language.Diff (Highlighter Lookup)

/-- Makes a scanner; a scanner that highlights code of other languages finds them by the lookup. -/
abbrev Factory := Lookup → Except ScanError AnyScanner

/-- A language that can be chosen. -/
structure Registry.Entry where
  codes : List String
  description : String
  factory : Factory
  rate : Guess.Rating := fun _ _ => 0

/-- Languages in the order in which they were added. -/
structure Registry where
  entries : List Registry.Entry := []
  /-- The language for codes that are not known. -/
  defaultCode : Option String := none
  deriving Inhabited

namespace Registry

/-- Are two codes the same but for the case of basic letters? -/
def sameCode (a b : String) : Bool := a.map Char.toLower == b.map Char.toLower

def Entry.hasCode (e : Entry) (code : String) : Bool := e.codes.any (sameCode · code)

/-- Takes a code from the language that has it. -/
def dropCode (entries : List Entry) (code : String) : List Entry :=
  (entries.map fun e => { e with codes := e.codes.filter (!sameCode · code) }).filter (!·.codes.isEmpty)

/-- Adds a language; without a code it is not added. -/
def add (r : Registry) (e : Entry) : Registry :=
  let kept := e.codes.foldl dropCode r.entries
  { r with entries := if e.codes.isEmpty then kept else kept ++ [e] }

/-- Removes the language with a code. -/
def remove (r : Registry) (code : String) : Registry :=
  { r with entries := r.entries.filter (!·.hasCode code) }

def setDefault (r : Registry) (code : String) : Registry := { r with defaultCode := some code }

/-- The language with a code. -/
def entry? (r : Registry) (code : String) : Option Entry := r.entries.find? (·.hasCode code)

/-- Codes and description of every language, in the order of registration. -/
def languages (r : Registry) : List (List String × String) := r.entries.map fun e => (e.codes, e.description)

def contains (r : Registry) (code : String) : Bool := (r.entry? code).isSome

/-- A scanner for a code, given how it finds highlighters. -/
def make (r : Registry) (lookup : Lookup) (code : String) : Except ScanError AnyScanner :=
  match r.entry? code with
  | some e => e.factory lookup
  | none => .error (.unknownLanguage code)

/-- What a fresh scanner makes of a text. -/
def highlightWith (x : AnyScanner) (text : String) : Except ScanError String :=
  match (Scanner.highlight text : EStateM ScanError AnyScanner String) x with
  | .ok out _ => .ok out
  | .error e _ => .error e

/-- A highlighter for a code. The number bounds how deep scanners stand in scanners: what a diff hands on is
shorter than the diff. -/
def highlighter (r : Registry) : Lookup
  | 0, code => .error (.unknownLanguage code)
  | depth + 1, code => do
    let x ← r.make (fun _ => highlighter r depth) code
    return ⟨Scanner.language x, highlightWith x⟩

/-- A scanner for a code. -/
def get (r : Registry) (code : String) : Except ScanError AnyScanner := r.make r.highlighter code

/-- A scanner for the default language. -/
def getDefault (r : Registry) : Except ScanError AnyScanner :=
  match r.defaultCode with
  | some code => r.get code
  | none => .error (.unknownLanguage "")

/-- A rating between zero and one. -/
def clamp (x : Float) : Float := if x < 0 then 0 else if 1 < x then 1 else x

/-- The better of two rated codes: a later one has to be higher. -/
def better (best : Option (String × Float)) (code : String) (score : Float) : Option (String × Float) :=
  if 0 < score && best.all (fun (_, b) => b < score) then some (code, score) else best

/-- The language that a text is most likely in, with its rating; the default language if none is
likely. -/
def guess (r : Registry) (text : String) : Option (String × Float) :=
  let overview := Guess.Overview.ofText text
  let best := r.entries.foldl (fun best e =>
    better best (e.codes.head?.getD "") (clamp (e.rate text overview))) none
  best <|> r.defaultCode.map ((·, 0))

end Registry

end Gloss

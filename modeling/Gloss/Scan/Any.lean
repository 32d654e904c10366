import Gloss.Language.Backus
import Gloss.Language.Diff
import Gloss.Language.Perl
import Gloss.Language.Php
import Gloss.Language.Plain

/-!
Scanners of any language. There is one case for each kind of main loop; languages with the same loop differ
by their grammars.
-/
namespace Gloss

open Language.Backus (BackusScanner)
open Language.Diff (DiffScanner)
open Language.Html (HtmlScanner)
open Language.Perl (PerlScanner)
open Language.Php (PhpCodeScanner PhpScanner)
open Language.Plain (PlainScanner)
open Language.Script (ScriptScanner)
open Language.Style (StyleScanner)
open Text (Source)

/-- A scanner of some language. -/
inductive AnyScanner where
  | plain (x : PlainScanner)
  | flat (x : FlatScanner)
  | nested (x : NestedScanner)
  | script (x : ScriptScanner)
  | style (x : StyleScanner)
  | html (x : HtmlScanner)
  | phpCode (x : PhpCodeScanner)
  | php (x : PhpScanner)
  | perl (x : PerlScanner)
  | backus (x : BackusScanner)
  | diff (x : DiffScanner)

namespace AnyScanner

/-- Puts the state of a scan back into its case. -/
def rewrap {α σ : Type} (wrap : σ → AnyScanner) : EStateM.Result ScanError σ α →
    EStateM.Result ScanError AnyScanner α
  | .ok a x => .ok a (wrap x)
  | .error e x => .error e (wrap x)

def grammar : AnyScanner → Grammar
  | .plain x => Scanner.grammar x
  | .flat x => Scanner.grammar x
  | .nested x => Scanner.grammar x
  | .script x => Scanner.grammar x
  | .style x => Scanner.grammar x
  | .html x => Scanner.grammar x
  | .phpCode x => Scanner.grammar x
  | .php x => Scanner.grammar x
  | .perl x => Scanner.grammar x
  | .backus x => Scanner.grammar x
  | .diff x => Scanner.grammar x

def state : AnyScanner → ScanState
  | .plain x => Scanner.state x
  | .flat x => Scanner.state x
  | .nested x => Scanner.state x
  | .script x => Scanner.state x
  | .style x => Scanner.state x
  | .html x => Scanner.state x
  | .phpCode x => Scanner.state x
  | .php x => Scanner.state x
  | .perl x => Scanner.state x
  | .backus x => Scanner.state x
  | .diff x => Scanner.state x

def withState (x : AnyScanner) (s : ScanState) : AnyScanner :=
  match x with
  | .plain x => .plain (Scanner.withState x s)
  | .flat x => .flat (Scanner.withState x s)
  | .nested x => .nested (Scanner.withState x s)
  | .script x => .script (Scanner.withState x s)
  | .style x => .style (Scanner.withState x s)
  | .html x => .html (Scanner.withState x s)
  | .phpCode x => .phpCode (Scanner.withState x s)
  | .php x => .php (Scanner.withState x s)
  | .perl x => .perl (Scanner.withState x s)
  | .backus x => .backus (Scanner.withState x s)
  | .diff x => .diff (Scanner.withState x s)

def setSource (x : AnyScanner) (source : Source) : AnyScanner :=
  match x with
  | .plain x => .plain (Scanner.setSource x source)
  | .flat x => .flat (Scanner.setSource x source)
  | .nested x => .nested (Scanner.setSource x source)
  | .script x => .script (Scanner.setSource x source)
  | .style x => .style (Scanner.setSource x source)
  | .html x => .html (Scanner.setSource x source)
  | .phpCode x => .phpCode (Scanner.setSource x source)
  | .php x => .php (Scanner.setSource x source)
  | .perl x => .perl (Scanner.setSource x source)
  | .backus x => .backus (Scanner.setSource x source)
  | .diff x => .diff (Scanner.setSource x source)

def main : EStateM ScanError AnyScanner Unit
  | .plain x => rewrap .plain (Scanner.main x)
  | .flat x => rewrap .flat (Scanner.main x)
  | .nested x => rewrap .nested (Scanner.main x)
  | .script x => rewrap .script (Scanner.main x)
  | .style x => rewrap .style (Scanner.main x)
  | .html x => rewrap .html (Scanner.main x)
  | .phpCode x => rewrap .phpCode (Scanner.main x)
  | .php x => rewrap .php (Scanner.main x)
  | .perl x => rewrap .perl (Scanner.main x)
  | .backus x => rewrap .backus (Scanner.main x)
  | .diff x => rewrap .diff (Scanner.main x)

def interrupted : AnyScanner → Bool
  | .script x => Scanner.interrupted x
  | .style x => Scanner.interrupted x
  | .html x => Scanner.interrupted x
  | _ => false

end AnyScanner

instance : Scanner AnyScanner where
  grammar := AnyScanner.grammar
  state := AnyScanner.state
  withState := AnyScanner.withState
  setSource := AnyScanner.setSource
  main := AnyScanner.main
  interrupted := AnyScanner.interrupted

/-- Children by name, in the order in which they were added. Where nothing else is said they are of any language. -/
abbrev Children (σ : Type := AnyScanner) := List (String × Child σ)

namespace Children

variable {σ : Type}

/-- Adds a child, in place of one with the same name. -/
def add (cs : Children σ) (name : String) (x : σ) : Children σ :=
  cs.filter (·.1 != name) ++ [(name, ⟨x, none⟩)]

def get? (cs : Children σ) (name : String) : Option (Child σ) :=
  (cs.find? (·.1 == name)).map (·.2)

/-- Puts a child back under its name. -/
def put (cs : Children σ) (name : String) (c : Child σ) : Children σ :=
  cs.map fun (n, d) => if n == name then (n, c) else (n, d)

def setSource [Scanner σ] (cs : Children σ) (source : Source) : Children σ :=
  cs.map fun (n, c) => (n, c.setSource source)

/-- The first child that has to go on, now that the host is at `pos`. -/
def due? (cs : Children σ) (pos : Nat) : Option String := (cs.find? (·.2.isDue pos)).map (·.1)

/-- The first child that was interrupted, with the offset at which it was. -/
def pending? (cs : Children σ) : Option (String × Nat) :=
  cs.findSome? fun (n, c) => c.resumeAt.map ((n, ·))

/-- Hands the source from the host's position on to a child. -/
def delegateTo [Scanner σ] (name : String) (wrap : Option Kind) :
    EStateM ScanError (ScanState × Children σ) Bool :=
  fun (host, cs) =>
    match cs.get? name with
    | none => .error (.unknownChild name) (host, cs)
    | some child =>
      match delegate wrap (host, child) with
      | .ok stopped (host, child) => .ok stopped (host, cs.put name child)
      | .error e (host, child) => .error e (host, cs.put name child)

end Children

end Gloss

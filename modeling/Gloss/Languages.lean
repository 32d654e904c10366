import Gloss.Language.C
import Gloss.Language.Haskell
import Gloss.Registry

/-!
The languages that are known from the start.
-/
namespace Gloss.Language

open Registry (Entry)

def plain : Entry :=
  { codes := ["plain", "text", "txt"], description := "Plain text", factory := fun _ => .ok (.plain {}) }

def c : Entry :=
  { codes := ["c", "cpp", "h", "hpp", "cxx", "hxx"], description := "C/C++"
    factory := fun _ => .ok (.flat { grammar := C.grammar }), rate := C.rate }

def haskell : Entry :=
  { codes := ["haskell", "hs"], description := "Haskell"
    factory := fun _ => .ok (.flat { grammar := Haskell.grammar }), rate := Haskell.rate }

def javaScript : Entry :=
  { codes := ["js", "javascript"], description := "JavaScript"
    factory := fun _ => .ok (.script (.ofEmbedding {})) }

def actionScript : Entry :=
  { codes := ["as", "actionscript"], description := "ActionScript"
    factory := fun _ => .ok (.script Script.ActionScript.scanner), rate := Script.ActionScript.rate }

def css : Entry :=
  { codes := ["css"], description := "CSS", factory := fun _ => .ok (.style {}), rate := Style.rate }

def html : Entry :=
  { codes := ["html", "htm"], description := "HTML"
    factory := fun _ => .ok (.html (.ofEmbedding {})), rate := Html.rate }

def php : Entry :=
  { codes := ["php"], description := "PHP", factory := fun _ => .ok (.php {}), rate := Php.rate }

def phpSnippet : Entry :=
  { codes := ["php_snippet"], description := "PHP Snippet"
    factory := fun _ => .ok (.php { snippet := true }), rate := Php.rateSnippet }

def perl : Entry :=
  { codes := ["perl", "pl", "pm"], description := "Perl"
    factory := fun _ => .ok (.perl {}), rate := Perl.rate }

def bnf : Entry :=
  { codes := ["bnf"], description := "Backus-Naur Form", factory := fun _ => .ok (.backus {}) }

def diff : Entry :=
  { codes := ["diff", "patch"], description := "Diff"
    factory := fun _ => .ok (.diff {}), rate := Diff.rate }

def prettyDiff : Entry :=
  { codes := ["prettydiff", "prettypatch", "diffpretty", "patchpretty"], description := "Diff-Pretty"
    factory := fun lookup => .ok (.diff { lookup := some lookup }) }

/-- All languages, in the order in which they are added. -/
def all : List Entry :=
  [plain, c, haskell, javaScript, actionScript, css, html, php, phpSnippet, perl, bnf, diff, prettyDiff]

end Gloss.Language

namespace Gloss.Registry

/-- A registry with all languages; plain text is the default. -/
def standard : Registry := (Language.all.foldl add {}).setDefault "plain"

end Gloss.Registry

import Gloss.Filter.Comments
import Gloss.Filter.Literals
import Gloss.Filter.Words

/-!
The filters that most grammars start with, in the order in which they run.
-/
namespace Gloss.Grammar

/-- A grammar with the usual filters. -/
def withFilters (name : String) : Grammar :=
  { name
    filters := [
      ⟨some "map-ident", .ident, Filter.mapIdent⟩,
      ⟨some "comment-note", .comment, fun _ => Filter.commentNote⟩,
      ⟨some "comment-to-doc", .comment, fun _ => Filter.docComment⟩,
      ⟨some "string-escape", .string, fun _ => Filter.stringEscapes⟩,
      ⟨some "char-escape", .character, fun _ => Filter.stringEscapes⟩,
      ⟨some "pcre", .regex, fun _ => Filter.regexParts⟩,
      ⟨some "user-defs", .ident, Filter.userDefs⟩,
      ⟨some "constant", .ident, Filter.upperToConstant⟩,
      ⟨some "clean-ident", .ident, Filter.cleanIdent⟩]
    streamFilters := [⟨some "rule-map", Filter.ruleMap⟩, ⟨some "oo-syntax", Filter.members⟩] }

end Gloss.Grammar

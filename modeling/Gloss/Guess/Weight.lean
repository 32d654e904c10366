import Gloss.Guess.Overview
import Gloss.Pattern.Basic
import Gloss.Text.Find

/-!
Weighing what a text holds. A guess is a sum of weights, each earned by something that is typical of a
language; the sum is taken in the order of the list.
-/
namespace Gloss.Guess

/-- Rates a text for a language. -/
abbrev Rating := String → Overview → Float

/-- Adds the weights of the patterns that match somewhere. -/
def weigh (text : String) (start : Float) (weights : List (Pattern × Float)) : Float :=
  weights.foldl (fun sum (p, w) => if p.isMatch text then sum + w else sum) start

end Gloss.Guess

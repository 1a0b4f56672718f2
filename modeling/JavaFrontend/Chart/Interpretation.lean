import JavaFrontend.Reduction.Error
import JavaFrontend.Token.Basic

/-!
What a parse makes of its input: something for each token and for each completed rule.
-/

namespace JavaFrontend

/-- What tokens and completed rules are made into. -/
structure Interpretation (α : Type) where
  leaf : Token → α
  /-- What the rule with the number is made into, given what its parts were matched with. -/
  reduce : Nat → List α → Except ReduceError α

end JavaFrontend

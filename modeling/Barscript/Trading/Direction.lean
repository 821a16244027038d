/-!
# Directions

A trade is made in one of two directions: `long` gains when the price rises, `short` when it falls.
-/

namespace Barscript.Trading

/-- The direction of a trade. -/
inductive Direction where
  | long
  | short
deriving DecidableEq, Repr

/-- The factor that turns a price change into a gain. -/
def Direction.sign : Direction → Float
  | .long => 1.0
  | .short => -1.0

/-- The name of a direction. -/
def Direction.label : Direction → String
  | .long => "long"
  | .short => "short"

end Barscript.Trading

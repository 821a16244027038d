import Barscript.Trading.Direction

/-!
# Positions

What is held at a moment: nothing, or a trade in one direction.
-/

namespace Barscript.Trading

/-- What is held. -/
inductive Position where
  | short
  | flat
  | long
deriving DecidableEq, Repr, Inhabited

/-- The position that a trade in some direction opens. -/
def Position.ofDirection : Direction → Position
  | .long => .long
  | .short => .short

/-- The direction of the open trade, if there is one. -/
def Position.direction? : Position → Option Direction
  | .long => some .long
  | .short => some .short
  | .flat => none

/-- Minus one, zero or one for short, flat and long. -/
def Position.value : Position → Int
  | .short => -1
  | .flat => 0
  | .long => 1

/-- `Position.value` as a number of the script. -/
def Position.sign : Position → Float
  | .short => -1.0
  | .flat => 0.0
  | .long => 1.0

/-- The name of a position. -/
def Position.label : Position → String
  | .short => "short"
  | .flat => "flat"
  | .long => "long"

theorem Position.direction?_ofDirection (d : Direction) :
    (Position.ofDirection d).direction? = some d := by
  cases d <;> rfl

theorem Position.direction?_eq_some_iff {p : Position} {d : Direction} :
    p.direction? = some d ↔ p = Position.ofDirection d := by
  cases p <;> cases d <;> decide

end Barscript.Trading

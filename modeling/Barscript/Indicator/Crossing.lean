import Barscript.Series.Column

/-!
# Crossings

A crossing is the bar at which one column moves from one side of another to the other side.  The
answer is a column of truth values; the first bar has nothing before it and is no crossing.  A
comparison with an undefined value is false.
-/

namespace Barscript.Indicator

open Barscript.Series

/-- Whether `crossed` holds between the values of two columns now and one bar before. -/
def crossing (crossed : Float × Float → Float × Float → Bool) (a b : Column) : Column :=
  overHistory (fun
    | now :: before :: _ => flag (crossed now before)
    | _ => 0.0) (List.zip a b)

/-- The bars at which `a` rises above `b`. -/
def crossover (a b : Column) : Column :=
  crossing (fun now before => now.2 < now.1 && before.1 ≤ before.2) a b

/-- The bars at which `a` falls below `b`. -/
def crossunder (a b : Column) : Column :=
  crossing (fun now before => now.1 < now.2 && before.2 ≤ before.1) a b

end Barscript.Indicator

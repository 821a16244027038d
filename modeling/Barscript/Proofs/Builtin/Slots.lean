import Barscript.Builtin.Functions
import Barscript.Builtin.Indicators
import Barscript.Proofs.Builtin.Arguments

/-!
# What a builtin reads as one number

Windows have a length, bands a multiplier, `nz` a replacement. A builtin reads
each of them as one number, from a slot that depends on its name and, where a
source may be left out, on the other arguments. These are the only arguments
whose newest bar matters to the other bars of the result.
-/

namespace Barscript.Builtin

open Barscript.Series Barscript.Script

/-- The slot of the replacement for what is undefined. -/
def replacementSlot : Nat × List String := (1, ["replacement"])

/-- The slots, by position and names, that a builtin reads as one number. -/
def numberSlots (name : String) (args : Arguments) :
    List (Nat × List String) :=
  match name with
  | "nz" => [replacementSlot]
  | "ta.sma" | "ta.ema" | "ta.rma" | "ta.wma" | "ta.vwma" | "ta.rsi"
  | "ta.change" | "ta.mom" | "ta.roc" => [(1, ["length"])]
  | "ta.macd" =>
    [(1, ["fast", "fastlen"]), (2, ["slow", "slowlen"]),
      (3, ["signal", "siglen"])]
  | "ta.bb" => [(1, ["length"]), (2, ["mult"])]
  | "ta.atr" | "ta.adx" | "ta.wpr" => [(0, ["length"])]
  | "ta.stoch" =>
    [(min args.leadingSources 3, ["length", "k"]),
      (min args.leadingSources 3 + 1, ["smooth_k"]),
      (min args.leadingSources 3 + 2, ["smooth_d", "d"])]
  | "ta.cci" | "ta.highest" | "ta.lowest" | "ta.mfi" =>
    [(args.lengthSlot, ["length"])]
  | "ta.supertrend" => [(0, ["length", "atrPeriod"]), (1, ["mult", "factor"])]
  | "ta.ichimoku" => [(0, ["tenkan"]), (1, ["kijun"]), (2, ["senkou"])]
  | _ => []

/-- No column stands where the builtin reads one number. -/
def Arguments.ReadsSteady (args : Arguments) (name : String) : Prop :=
  ∀ slot ∈ numberSlots name args, args.Steady slot

/-- The builtin reads the same numbers from both. -/
def Arguments.SameNumbers (args args' : Arguments) (name : String) : Prop :=
  ∀ slot ∈ numberSlots name args', args.SameAt args' slot

theorem Arguments.SameNumbers.refl (args : Arguments) (name : String) :
    args.SameNumbers args name :=
  fun _ _ => rfl

theorem Arguments.Begins.sameNumbers {n m : Nat} {args args' : Arguments}
    (h : args.Begins n m args') {name : String}
    (hs : args'.ReadsSteady name) : args.SameNumbers args' name :=
  fun slot hslot => h.sameAt (hs slot hslot)

end Barscript.Builtin

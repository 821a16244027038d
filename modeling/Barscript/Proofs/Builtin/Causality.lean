import Barscript.Proofs.Builtin.Indicators
import Barscript.Proofs.Series.Span

/-!
# Indicators do not repaint

What an indicator says about a bar is settled at that bar: cutting the bars and
the arguments to the oldest `k` cuts the answer to its oldest `k`, and nothing
else. The one exception shows in the hypothesis: a column that stands for a
length or a multiplier is read at its newest bar, and cutting it makes another
bar the newest.
-/

namespace Barscript.Builtin

open Barscript.Series Barscript.Market

variable {n k : Nat} {args : Arguments}

/-- The arguments on the oldest `length` bars. -/
def Arguments.truncate (length : Nat) (args : Arguments) : Arguments :=
  { positional := args.positional.map (Value.truncate length)
    named := args.named.map fun entry =>
      (entry.1, entry.2.truncate length) }

/-- Every column among the arguments has one number for each of `n` bars. -/
structure Arguments.Span (n : Nat) (args : Arguments) : Prop where
  positional : ∀ v ∈ args.positional, v.Spans n
  named : ∀ entry ∈ args.named, entry.2.Spans n

theorem Arguments.Span.begins_truncate (h : args.Span n) (hk : k ≤ n) :
    Arguments.Begins k n (args.truncate k) args where
  positional := by
    refine List.forall₂_map_left_iff.mpr (List.forall₂_same.mpr ?_)
    intro v hv
    exact (h.positional v hv).begins_truncate hk
  named := by
    refine List.forall₂_map_left_iff.mpr (List.forall₂_same.mpr ?_)
    intro entry hentry
    exact ⟨rfl, (h.named entry hentry).begins_truncate hk⟩

theorem Arguments.Span.begins_self (h : args.Span n) :
    Arguments.Begins n n args args where
  positional := List.forall₂_same.mpr fun v hv =>
    (h.positional v hv).begins_self
  named := List.forall₂_same.mpr fun entry hentry =>
    ⟨rfl, (h.named entry hentry).begins_self⟩

/-- Every name of an indicator has a value. -/
theorem exists_indicator? {name : String} (hname : name ∈ indicatorNames)
    (args : Arguments) (bars : List Bar) :
    ∃ v, indicator? name args bars = some v :=
  ⟨_, if_pos (List.contains_iff_mem.mpr hname)⟩

/-- **Indicators do not repaint.** Computed from the oldest `k` bars, with
arguments cut to them, an indicator answers with the oldest `k` numbers of what
it answers over all bars. -/
theorem indicator?_truncate {name : String} (hname : name ∈ indicatorNames)
    {bars : List Bar} (hk : k ≤ bars.length) (hargs : args.Span bars.length)
    (hs : args.ReadsSteady name) :
    ∃ v, indicator? name args bars = some v ∧
      indicator? name (args.truncate k) (bars.take k) =
        some (v.truncate k) := by
  obtain ⟨v, hv⟩ := exists_indicator? hname args bars
  obtain ⟨u, hu⟩ := exists_indicator? hname (args.truncate k) (bars.take k)
  have hbegins := hargs.begins_truncate hk
  have hvalues := begins_indicator? name hbegins hk (hbegins.sameNumbers hs)
  rw [hv, hu] at hvalues
  refine ⟨v, hv, ?_⟩
  rw [hu]
  exact congrArg some hvalues.eq_truncate

/-- A bar at which nothing moves. -/
def flatBar (price : Float) : Bar :=
  { time := ⟨0, 0⟩
    openPrice := price, high := price, low := price, close := price
    volume := 1.0 }

/-- Bands around the mean of two bars, over the first two of three bars. -/
theorem indicator?_truncate_bands :
    ∃ v, indicator? "ta.bb"
        ⟨[.series [1.0, 2.0, 4.0], .number 2.0], [("mult", .number 3.0)]⟩
        [flatBar 1.0, flatBar 2.0, flatBar 4.0] = some v ∧
      indicator? "ta.bb"
        ⟨[.series [1.0, 2.0], .number 2.0], [("mult", .number 3.0)]⟩
        [flatBar 1.0, flatBar 2.0] = some (v.truncate 2) := by
  refine indicator?_truncate (k := 2) (by decide) (by decide) ⟨?_, ?_⟩ ?_
  · intro v hv
    rcases List.mem_cons.mp hv with rfl | hv
    · exact rfl
    · obtain rfl := List.mem_singleton.mp hv
      exact trivial
  · intro entry hentry
    obtain rfl := List.mem_singleton.mp hentry
    exact trivial
  · intro slot hslot
    rcases List.mem_cons.mp hslot with rfl | hslot
    · intro v hv
      obtain rfl : Value.number 2.0 = v := Option.some.inj hv
      exact rfl
    · obtain rfl := List.mem_singleton.mp hslot
      intro v hv
      obtain rfl : Value.number 3.0 = v := Option.some.inj hv
      exact rfl

end Barscript.Builtin

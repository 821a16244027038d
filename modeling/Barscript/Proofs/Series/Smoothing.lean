import Barscript.Proofs.Series.Order
import Barscript.Series.Column

/-!
# Smoothing skips gaps

What a smoothing remembers behind some bars is its newest defined answer (`stateAfter_smooth`), and
an undefined input leaves the memory as it is. So the defined inputs are smoothed as if they stood
alone, and in a gap the newest defined answer is repeated (`smooth_gaps`). An answer may be undefined
without a gap, from infinite inputs; it is given, and not remembered.
-/

namespace Barscript.Series

/-- Whether a number is defined. -/
def isDefined (x : Float) : Bool :=
  !x.isNaN

/-- The defined numbers of a column. -/
def defined (xs : Column) : Column :=
  xs.filter isDefined

/-- The memory of a smoothing holds no undefined number. -/
def Settled (last : Option Float) : Prop :=
  ∀ p ∈ last, p.isNaN = false

section

variable {source : Column} {alpha x : Float} {last : Option Float}

theorem isDefined_eq_false (h : x.isNaN = true) : isDefined x = false :=
  congrArg not h

theorem isDefined_eq_true (h : x.isNaN = false) : isDefined x = true :=
  congrArg not h

theorem defined_concat_gap (xs : Column) (h : x.isNaN = true) :
    defined (xs ++ [x]) = defined xs := by
  simp [defined, isDefined_eq_false h]

theorem defined_concat (xs : Column) (h : x.isNaN = false) :
    defined (xs ++ [x]) = defined xs ++ [x] := by
  simp [defined, isDefined_eq_true h]

/-! ## One bar -/

theorem smoothStep_remembers (h : (smoothStep alpha last x).2.isNaN = false) :
    (smoothStep alpha last x).1 = some (smoothStep alpha last x).2 :=
  if_neg (Bool.eq_false_iff.mp h)

theorem smoothStep_forgets (h : (smoothStep alpha last x).2.isNaN = true) :
    (smoothStep alpha last x).1 = last :=
  if_pos h

theorem Settled.smoothStep (h : Settled last) : Settled (smoothStep alpha last x).1 := by
  cases hy : (Series.smoothStep alpha last x).2.isNaN with
  | true =>
      rw [smoothStep_forgets hy]
      exact h
  | false =>
      rw [smoothStep_remembers hy]
      intro p hp
      rwa [← Option.some.inj hp]

/-- **In a gap the memory is given out and kept.** -/
theorem smoothStep_gap (h : Settled last) (hx : x.isNaN = true) :
    smoothStep alpha last x = (last, last.getD undefined) := by
  cases last with
  | none =>
      have hy : (smoothStep alpha none x).2 = x := rfl
      have hlast : (smoothStep alpha none x).1 = none := smoothStep_forgets hx
      exact Prod.ext hlast (hy.trans (eq_undefined hx))
  | some p =>
      have hy : (smoothStep alpha (some p) x).2 = p := if_pos hx
      have hlast : (smoothStep alpha (some p) x).1 = some p := by
        rw [smoothStep_remembers (by rw [hy]; exact h p rfl), hy]
      exact Prod.ext hlast hy

/-! ## All bars -/

theorem settled_stateAfter (source : Column) (alpha : Float) :
    Settled (stateAfter (smoothStep alpha) none source) := by
  induction source using List.reverseRecOn with
  | nil => exact nofun
  | append_singleton source x ih =>
      rw [stateAfter_concat]
      exact ih.smoothStep

/-- Gaps leave no trace in the memory. -/
theorem stateAfter_defined (source : Column) (alpha : Float) :
    stateAfter (smoothStep alpha) none (defined source) =
      stateAfter (smoothStep alpha) none source := by
  induction source using List.reverseRecOn with
  | nil => rfl
  | append_singleton source x ih =>
      cases hx : x.isNaN with
      | true =>
          rw [defined_concat_gap source hx, stateAfter_concat,
            smoothStep_gap (settled_stateAfter source alpha) hx, ih]
      | false => rw [defined_concat source hx, stateAfter_concat, stateAfter_concat, ih]

theorem smooth_concat (source : Column) (alpha x : Float) :
    smooth (source ++ [x]) alpha = smooth source alpha ++
      [(smoothStep alpha (stateAfter (smoothStep alpha) none source) x).2] :=
  scan_append _ _ _ _

/-- **The memory is the newest defined answer.** -/
theorem stateAfter_smooth (source : Column) (alpha : Float) :
    stateAfter (smoothStep alpha) none source = (defined (smooth source alpha)).getLast? := by
  induction source using List.reverseRecOn with
  | nil => rfl
  | append_singleton source x ih =>
      rw [stateAfter_concat, smooth_concat]
      cases hy : (smoothStep alpha (stateAfter (smoothStep alpha) none source) x).2.isNaN with
      | true => rw [defined_concat_gap _ hy, smoothStep_forgets hy, ih]
      | false => rw [defined_concat _ hy, smoothStep_remembers hy, List.getLast?_concat]

/-- The answer at a bar, from the memory behind the bars before it. -/
theorem getElem?_smooth (alpha : Float) {t : ℕ} (h : source[t]? = some x) :
    (smooth source alpha)[t]? =
      some (smoothStep alpha (stateAfter (smoothStep alpha) none (source.take t)) x).2 := by
  unfold smooth
  rw [getElem?_scan, h, Option.map_some]

/-- The defined numbers in front of a bar are in front of it among the defined ones. -/
theorem defined_split {t : ℕ} (h : source[t]? = some x) (hx : x.isNaN = false) :
    (defined source)[(defined (source.take t)).length]? = some x ∧
      (defined source).take (defined (source.take t)).length = defined (source.take t) := by
  obtain ⟨hlt, hvalue⟩ := List.getElem?_eq_some_iff.mp h
  have hsplit : source = source.take t ++ x :: source.drop (t + 1) := by
    rw [← hvalue, ← List.drop_eq_getElem_cons hlt, List.take_append_drop]
  have hdefined : defined source =
      defined (source.take t) ++ x :: defined (source.drop (t + 1)) := by
    conv_lhs => rw [hsplit]
    simp [defined, isDefined_eq_true hx]
  rw [hdefined]
  simp

/-- **Smoothing ignores gaps.** A defined input is smoothed as if the undefined ones were not there,
and at an undefined one the newest defined answer is repeated. -/
theorem smooth_gaps (source : Column) (alpha : Float) :
    (smooth source alpha).length = source.length ∧
      ∀ (t : ℕ) (x : Float), source[t]? = some x →
        (x.isNaN = false →
          (defined source)[(defined (source.take t)).length]? = some x ∧
            (smooth source alpha)[t]? =
              (smooth (defined source) alpha)[(defined (source.take t)).length]?) ∧
        (x.isNaN = true →
          (smooth source alpha)[t]? =
            some ((defined ((smooth source alpha).take t)).getLast?.getD undefined)) := by
  refine ⟨length_scan _ _ _, ?_⟩
  intro t x h
  have hanswer := getElem?_smooth alpha h
  constructor
  · intro hx
    obtain ⟨halone, hfront⟩ := defined_split h hx
    refine ⟨halone, ?_⟩
    rw [hanswer, getElem?_smooth alpha halone, hfront, stateAfter_defined]
  · intro hx
    have htake : (smooth source alpha).take t = smooth (source.take t) alpha := take_scan _ _ _ _
    rw [hanswer, smoothStep_gap (settled_stateAfter _ alpha) hx, htake, stateAfter_smooth]

example : smooth [undefined, 4.0, undefined, 8.0] 0.5 = [undefined, 4.0, 4.0, 6.0] := by
  decide +kernel

end

end Barscript.Series

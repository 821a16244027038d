import Barscript.Proofs.Decimal.Bits
import Barscript.Proofs.Series.Order
import Barscript.Trading.Metrics

/-!
# The largest decline is the largest

Behind some samples a drawdown holds the largest of them and the largest decline any of them had
from the samples up to it (`Drawdown.Measures`). A new peak has no decline, and under a peak that is
not positive there is none. A sample that equals a positive peak is that peak, so what is computed
for it is zero or, at infinity, undefined, and never larger than what is held.
-/

namespace Barscript.Trading

open Barscript.Series Float.Model

/-! ## Declines -/

/-- The largest of some samples. -/
structure IsPeak (samples : List Float) (p : Float) : Prop where
  mem : p ∈ samples
  le : ∀ x ∈ samples, x ≤ p

/-- The decline to a sample from a peak, in percent. -/
def decline (peak equity : Float) : Float :=
  (peak - equity) / peak * 100.0

/-- A decline of a curve: to a sample from the largest one up to it, where that is positive and
larger. -/
def HasDecline (curve : List Float) (d : Float) : Prop :=
  ∃ (j : ℕ) (e p : Float), curve[j]? = some e ∧ IsPeak (curve.take (j + 1)) p ∧
    0.0 < p ∧ e < p ∧ d = decline p e

/-! ## A sample at its peak -/

section

variable {p l : Float}

/-- A positive number is infinite or has a mantissa. -/
theorem positive_cases (h : 0.0 < p) :
    p = infinity ∨ ∃ m e hm, p.toModel.unpack = .finite .positive m e hm := by
  have hcompare := lt_iff_unpack.mp h
  have hzero : (0.0 : Float).toModel.unpack = .zero .positive := rfl
  rw [hzero] at hcompare
  cases hp : p.toModel.unpack with
  | notANumber =>
      rw [hp] at hcompare
      cases hcompare
  | zero s =>
      rw [hp] at hcompare
      cases hcompare
  | infinity s =>
      rw [hp] at hcompare
      cases s with
      | negative => cases hcompare
      | positive =>
          left
          rw [Decimal.eq_ofModel_pack p, hp]
          rfl
  | finite s m e hm =>
      rw [hp] at hcompare
      cases s with
      | negative => cases hcompare
      | positive => exact .inr ⟨m, e, hm, rfl⟩

theorem decline_self (h : 0.0 < p) : decline p p = 0.0 ∨ (decline p p).isNaN = true := by
  rcases positive_cases h with rfl | ⟨m, e, hm, hp⟩
  · right
    decide +kernel
  · left
    -- The difference is an exact zero, which no division by the peak changes.
    have hdifference : p - p = 0.0 := by
      show Float.ofModel (.pack (UnpackedFloat.sub .binary64 p.toModel.unpack
        p.toModel.unpack)) = _
      rw [hp]
      unfold UnpackedFloat.sub
      simp only [Int.sub_self]
      rfl
    have hquotient : 0.0 / p = 0.0 := by
      show Float.ofModel (.pack (UnpackedFloat.div .binary64 (0.0 : Float).toModel.unpack
        p.toModel.unpack)) = _
      rw [hp]
      rfl
    unfold decline
    rw [hdifference, hquotient]
    rfl

/-- **A sample at its peak sets no record.** -/
theorem not_lt_decline_self (hp : 0.0 < p) (hl : 0.0 ≤ l) : ¬ l < decline p p := by
  intro h
  obtain ⟨hldef, hddef⟩ := defined_of_lt h
  rcases decline_self hp with hzero | hnan
  · rw [hzero] at h
    exact (le_iff_not_lt (defined_of_le hl).1 hldef).mp hl h
  · rw [hnan] at hddef
    cases hddef

end

/-! ## One more sample -/

section

variable {seen : List Float} {d : Drawdown} {e p q x : Float}

/-- Peaks of the same samples are equal, so positive ones are the same. -/
theorem IsPeak.eq (hp : IsPeak seen p) (hq : IsPeak seen q) (hpos : 0.0 < p) : p = q :=
  eq_of_le_of_le hpos (hq.le p hp.mem) (hp.le q hq.mem)

theorem IsPeak.concat_new (h : IsPeak seen p) (he : p < e) : IsPeak (seen ++ [e]) e := by
  refine ⟨by simp, ?_⟩
  intro x hx
  rw [List.mem_append, List.mem_singleton] at hx
  rcases hx with hx | rfl
  · exact number_le_of_lt (number_lt_of_le_of_lt (h.le x hx) he)
  · exact number_le_refl (defined_of_lt he).2

theorem IsPeak.concat_old (h : IsPeak seen p) (he : e ≤ p) : IsPeak (seen ++ [e]) p := by
  refine ⟨List.mem_append_left _ h.mem, ?_⟩
  intro x hx
  rw [List.mem_append, List.mem_singleton] at hx
  rcases hx with hx | rfl
  · exact h.le x hx
  · exact he

/-- The declines with one more sample are the old ones and the one to it. -/
theorem hasDecline_concat : HasDecline (seen ++ [e]) x ↔ HasDecline seen x ∨
    ∃ p, IsPeak (seen ++ [e]) p ∧ 0.0 < p ∧ e < p ∧ x = decline p e := by
  constructor
  · rintro ⟨j, e', p, hj, hp, hrest⟩
    rcases Nat.lt_or_ge j seen.length with hlt | hge
    · rw [List.getElem?_append_left hlt] at hj
      rw [List.take_append_of_le_length hlt] at hp
      exact .inl ⟨j, e', p, hj, hp, hrest⟩
    · have hlast : j = seen.length := by
        have hbound := (List.getElem?_eq_some_iff.mp hj).1
        rw [List.length_append, List.length_singleton] at hbound
        omega
      subst hlast
      rw [List.getElem?_concat_length, Option.some_inj] at hj
      subst hj
      rw [List.take_of_length_le (by simp)] at hp
      exact .inr ⟨p, hp, hrest⟩
  · rintro (⟨j, e', p, hj, hp, hrest⟩ | ⟨p, hp, hrest⟩)
    · have hlt := (List.getElem?_eq_some_iff.mp hj).1
      refine ⟨j, e', p, ?_, ?_, hrest⟩
      · rwa [List.getElem?_append_left hlt]
      · rwa [List.take_append_of_le_length hlt]
    · refine ⟨seen.length, e, p, List.getElem?_concat_length, ?_, hrest⟩
      rwa [List.take_of_length_le (by simp)]

/-- What a drawdown holds behind some samples. -/
structure Drawdown.Measures (d : Drawdown) (seen : List Float) : Prop where
  peak : IsPeak seen d.peak
  nonneg : 0.0 ≤ d.largest
  bound : ∀ x, HasDecline seen x → ¬ d.largest < x
  attained : d.largest = 0.0 ∨ HasDecline seen d.largest

theorem Drawdown.Measures.attained_concat (h : d.Measures seen) (e : Float) :
    d.largest = 0.0 ∨ HasDecline (seen ++ [e]) d.largest :=
  h.attained.imp id fun hold => hasDecline_concat.mpr (.inl hold)

/-- A new peak is no decline. -/
theorem Drawdown.Measures.rise (h : d.Measures seen) (he : d.peak < e) :
    ({ d with peak := e } : Drawdown).Measures (seen ++ [e]) := by
  refine ⟨h.peak.concat_new he, h.nonneg, ?_, h.attained_concat e⟩
  intro x hx
  rcases hasDecline_concat.mp hx with hold | ⟨p, hp, -, hlt, -⟩
  · exact h.bound x hold
  · -- The new sample is at least as large as any peak.
    have hle := (h.peak.concat_new he).le p hp.mem
    exact absurd (number_lt_of_lt_of_le hlt hle) (number_lt_irrefl e)

/-- Without a new peak the only new decline is the one from the old peak. -/
theorem Drawdown.Measures.eq_decline (h : d.Measures seen) (he : e ≤ d.peak)
    (hp : IsPeak (seen ++ [e]) p) (hpos : 0.0 < p) : p = d.peak :=
  hp.eq (h.peak.concat_old he) hpos

/-- A sample that sets no record. -/
theorem Drawdown.Measures.hold (h : d.Measures seen) (he : e ≤ d.peak)
    (hno : 0.0 < d.peak → ¬ d.largest < decline d.peak e) : d.Measures (seen ++ [e]) := by
  refine ⟨h.peak.concat_old he, h.nonneg, ?_, h.attained_concat e⟩
  intro x hx
  rcases hasDecline_concat.mp hx with hold | ⟨p, hp, hpos, -, rfl⟩
  · exact h.bound x hold
  · obtain rfl := h.eq_decline he hp hpos
    exact hno hpos

/-- A sample that sets a record. -/
theorem Drawdown.Measures.record (h : d.Measures seen) (he : e ≤ d.peak) (hpos : 0.0 < d.peak)
    (hrecord : d.largest < decline d.peak e) :
    ({ d with largest := decline d.peak e } : Drawdown).Measures (seen ++ [e]) := by
  have hpeak := h.peak.concat_old he
  have hnonneg : 0.0 ≤ decline d.peak e := number_le_trans h.nonneg (number_le_of_lt hrecord)
  refine ⟨hpeak, hnonneg, ?_, ?_⟩
  · intro x hx hlt
    rcases hasDecline_concat.mp hx with hold | ⟨p, hp, hpp, -, rfl⟩
    · exact h.bound x hold (number_lt_of_lt_of_le hrecord (number_le_of_lt hlt))
    · rw [h.eq_decline he hp hpp] at hlt
      exact number_lt_irrefl _ hlt
  · right
    have hdefined := defined_of_le he
    have hlower : e < d.peak := by
      by_contra hnot
      have hequal := eq_of_le_of_le hpos ((le_iff_not_lt hdefined.2 hdefined.1).mpr hnot) he
      rw [← hequal] at hrecord
      exact not_lt_decline_self hpos h.nonneg hrecord
    exact hasDecline_concat.mpr (.inr ⟨d.peak, hpeak, hpos, hlower, rfl⟩)

/-- What one sample can do: it is a new peak, it sets a record, or it changes nothing. -/
theorem Drawdown.step_cases (d : Drawdown) (e : Float) :
    (d.peak < e ∧ d.step e = { d with peak := e }) ∨
      (¬ d.peak < e ∧ 0.0 < d.peak ∧ d.largest < decline d.peak e ∧
        d.step e = { d with largest := decline d.peak e }) ∨
      (¬ d.peak < e ∧ (0.0 < d.peak → ¬ d.largest < decline d.peak e) ∧ d.step e = d) := by
  unfold Drawdown.step
  by_cases hrise : d.peak < e
  · exact .inl ⟨hrise, if_pos hrise⟩
  · right
    rw [if_neg hrise]
    by_cases hpos : 0.0 < d.peak
    · rw [if_pos hpos]
      by_cases hrecord : d.largest < decline d.peak e
      · exact .inl ⟨hrise, hpos, hrecord, if_pos hrecord⟩
      · exact .inr ⟨hrise, fun _ => hrecord, if_neg hrecord⟩
    · exact .inr ⟨hrise, fun hpos' => absurd hpos' hpos, if_neg hpos⟩

/-- **One more sample.** -/
theorem Drawdown.Measures.step (h : d.Measures seen) (he : e.isNaN = false) :
    (d.step e).Measures (seen ++ [e]) := by
  have hpeak := (defined_of_le (h.peak.le _ h.peak.mem)).1
  rcases d.step_cases e with ⟨hrise, heq⟩ | ⟨hnot, hpos, hrecord, heq⟩ | ⟨hnot, hno, heq⟩
  · rw [heq]
    exact h.rise hrise
  · rw [heq]
    exact h.record ((le_iff_not_lt he hpeak).mpr hnot) hpos hrecord
  · rw [heq]
    exact h.hold ((le_iff_not_lt he hpeak).mpr hnot) hno

/-- A sample never lowers the largest decline. -/
theorem Drawdown.largest_step (h : d.largest.isNaN = false) (e : Float) :
    d.largest ≤ (d.step e).largest := by
  rcases d.step_cases e with ⟨-, heq⟩ | ⟨-, -, hrecord, heq⟩ | ⟨-, -, heq⟩
  · rw [heq]
    exact number_le_refl h
  · rw [heq]
    exact number_le_of_lt hrecord
  · rw [heq]
    exact number_le_refl h

/-! ## All samples -/

theorem Drawdown.Measures.foldl (h : d.Measures seen) {more : List Float}
    (hmore : ∀ x ∈ more, x.isNaN = false) :
    (more.foldl Drawdown.step d).Measures (seen ++ more) := by
  induction more generalizing d seen with
  | nil => simpa using h
  | cons e more ih =>
      obtain ⟨he, hmore⟩ := List.forall_mem_cons.mp hmore
      have hrest := ih (h.step he) hmore
      rwa [List.append_assoc] at hrest

theorem Drawdown.largest_foldl (h : d.largest.isNaN = false) (more : List Float) :
    d.largest ≤ (more.foldl Drawdown.step d).largest := by
  induction more generalizing d with
  | nil => exact number_le_refl h
  | cons e more ih =>
      have hstep := d.largest_step h e
      exact number_le_trans hstep (ih (defined_of_le hstep).2)

theorem zero_le_zero : (0.0 : Float) ≤ 0.0 := by
  decide +kernel

/-- The first sample is the first peak. -/
theorem measures_first (he : e.isNaN = false) : (⟨e, 0.0⟩ : Drawdown).Measures [e] := by
  refine ⟨⟨by simp, by simpa using number_le_refl he⟩, zero_le_zero, ?_, .inl rfl⟩
  rintro x ⟨j, e', p, hj, hp, -, hlt, -⟩
  obtain rfl : p = e := List.mem_singleton.mp (List.mem_of_mem_take hp.mem)
  obtain rfl : e' = p := List.mem_singleton.mp (List.mem_of_getElem? hj)
  exact absurd hlt (number_lt_irrefl e')

/-- The first sample is read twice: as the first peak and as the first sample. -/
theorem step_first (e : Float) : (⟨e, 0.0⟩ : Drawdown).step e = ⟨e, 0.0⟩ := by
  rcases Drawdown.step_cases ⟨e, 0.0⟩ e with ⟨hrise, -⟩ | ⟨-, hpos, hrecord, -⟩ | ⟨-, -, heq⟩
  · exact absurd hrise (number_lt_irrefl e)
  · exact absurd hrecord (not_lt_decline_self hpos zero_le_zero)
  · exact heq

theorem largestDecline_cons (first : Float) (rest : List Float) :
    largestDecline (first :: rest) = (rest.foldl Drawdown.step ⟨first, 0.0⟩).largest := by
  show ((first :: rest).foldl Drawdown.step ⟨first, 0.0⟩).largest = _
  rw [List.foldl_cons, step_first]

end

section

variable {curve : List Float}

/-- A drawdown measures all samples of a curve. -/
theorem exists_measures (hne : curve ≠ []) (hdefined : ∀ x ∈ curve, x.isNaN = false) :
    ∃ d : Drawdown, d.Measures curve ∧ d.largest = largestDecline curve ∧
      ∀ more, largestDecline (curve ++ more) = (more.foldl Drawdown.step d).largest := by
  obtain ⟨first, rest, rfl⟩ := List.exists_cons_of_ne_nil hne
  obtain ⟨hfirst, hrest⟩ := List.forall_mem_cons.mp hdefined
  refine ⟨rest.foldl Drawdown.step ⟨first, 0.0⟩, (measures_first hfirst).foldl hrest,
    (largestDecline_cons first rest).symm, ?_⟩
  intro more
  rw [List.cons_append, largestDecline_cons, List.foldl_append]

/-- Defined samples have a largest one. -/
theorem exists_isPeak (hne : curve ≠ []) (hdefined : ∀ x ∈ curve, x.isNaN = false) :
    ∃ p, IsPeak curve p := by
  obtain ⟨d, hd, -⟩ := exists_measures hne hdefined
  exact ⟨d.peak, hd.peak⟩

/-- **The maximum drawdown is the largest decline from the running peak.** Every sample has a peak
behind it, no decline is larger, it is zero or one of them, and more samples do not lower it. -/
theorem maxDrawdown_largest (capital : Float) (trades : List Trade) (hne : curve ≠ [])
    (hdefined : ∀ x ∈ curve, x.isNaN = false) :
    (∀ j < curve.length, ∃ p, IsPeak (curve.take (j + 1)) p) ∧
      0.0 ≤ (Metrics.compute capital trades curve).maxDrawdown ∧
      (∀ x, HasDecline curve x → ¬ (Metrics.compute capital trades curve).maxDrawdown < x) ∧
      ((Metrics.compute capital trades curve).maxDrawdown = 0.0 ∨
        HasDecline curve (Metrics.compute capital trades curve).maxDrawdown) ∧
      ∀ more, (Metrics.compute capital trades curve).maxDrawdown ≤
        (Metrics.compute capital trades (curve ++ more)).maxDrawdown := by
  obtain ⟨d, hd, hlargest, hmore⟩ := exists_measures hne hdefined
  have hvalue : ∀ samples, (Metrics.compute capital trades samples).maxDrawdown =
      largestDecline samples := fun _ => rfl
  refine ⟨?_, ?_, ?_, ?_, ?_⟩
  · intro j hj
    apply exists_isPeak
    · simpa using hne
    · intro x hx
      exact hdefined x (List.mem_of_mem_take hx)
  · rw [hvalue, ← hlargest]
    exact hd.nonneg
  · rw [hvalue, ← hlargest]
    exact hd.bound
  · rw [hvalue, ← hlargest]
    exact hd.attained
  · intro more
    rw [hvalue, hvalue, hmore, ← hlargest]
    exact Drawdown.largest_foldl (defined_of_le hd.nonneg).2 more

/-- Two declines, of which the first is larger. -/
def dippingCurve : List Float :=
  [100.0, 120.0, 90.0, 130.0, 104.0]

theorem maxDrawdown_largest_dipping :
    dippingCurve ≠ [] ∧ (∀ x ∈ dippingCurve, x.isNaN = false) ∧
      (Metrics.compute 100.0 [] dippingCurve).maxDrawdown = 25.0 ∧
      ∀ x, HasDecline dippingCurve x → ¬ 25.0 < x := by
  have hne : dippingCurve ≠ [] := List.cons_ne_nil _ _
  have hdefined : ∀ x ∈ dippingCurve, x.isNaN = false := by decide +kernel
  have hvalue : (Metrics.compute 100.0 [] dippingCurve).maxDrawdown = 25.0 := by decide +kernel
  refine ⟨hne, hdefined, hvalue, ?_⟩
  intro x hx
  rw [← hvalue]
  exact (maxDrawdown_largest 100.0 [] hne hdefined).2.2.1 x hx

end

end Barscript.Trading

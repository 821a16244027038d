import Barscript.Proofs.Builtin.Causality

/-!
# Values that fit a view

What an expression evaluates to over `n` bars is no column at all, or one of
exactly `n` numbers, or several of them, and then at least one. Operations,
functions and indicators keep to this shape.
-/

namespace Barscript.Series

open Barscript.Script

variable {n k : Nat} {v w : Value}

/-- Every column has one number for each of `n` bars, and where several columns
may stand there is one. -/
def Value.Fits (n : Nat) : Value → Prop
  | .series xs => xs.length = n
  | .tuple outputs =>
    outputs ≠ [] ∧ ∀ output ∈ outputs, output.2.length = n
  | _ => True

theorem Value.Fits.spans (h : v.Fits n) : v.Spans n := by
  cases v with
  | series xs => exact h
  | tuple outputs => exact h.2
  | _ => exact trivial

theorem Value.Spans.fits (h : v.Spans n) (hv : v ≠ .tuple []) :
    v.Fits n := by
  cases v with
  | series xs => exact h
  | tuple outputs =>
      refine ⟨?_, h⟩
      rintro rfl
      exact hv rfl
  | _ => exact trivial

theorem Value.fits_of_isColumn (h : v.isColumn = false) : v.Fits n := by
  cases v, h using Value.scalarCases with
  | _ => exact trivial

theorem Value.Fits.truncate (h : v.Fits n) (hk : k ≤ n) :
    (v.truncate k).Fits k := by
  have htake : ∀ xs : Column, xs.length = n → (xs.take k).length = k :=
    fun xs hxs => Begins.length_prefix (begins_take hxs hk)
  cases v with
  | series xs => exact htake xs h
  | tuple outputs =>
      obtain ⟨hne, hlength⟩ := h
      refine ⟨mt List.map_eq_nil_iff.mp hne, ?_⟩
      intro output houtput
      obtain ⟨whole, hwhole, rfl⟩ := List.mem_map.mp houtput
      exact htake whole.2 (hlength whole hwhole)
  | _ => exact trivial

theorem Value.Fits.component? (name : String) (h : v.Fits n) :
    ((v.component? name).getD .na).Fits n := by
  cases v with
  | tuple outputs =>
      simp only [Value.component?]
      cases hfind : outputs.find? fun output => output.1 == name with
      | none => exact trivial
      | some output => exact h.2 output (List.mem_of_find?_eq_some hfind)
  | _ => exact trivial

/-! ## Operations -/

/-- Whether several columns stand together. -/
def Value.isTuple : Value → Bool
  | .tuple _ => true
  | _ => false

theorem Value.Spans.fits_of_isTuple (h : v.Spans n)
    (hv : v.isTuple = false) : v.Fits n := by
  refine h.fits ?_
  rintro rfl
  cases hv

theorem Value.isTuple_primary (v : Value) : v.primary.isTuple = false := by
  cases v with
  | tuple outputs =>
      simp only [Value.primary]
      cases mainOutput? outputs <;> rfl
  | _ => rfl

theorem Value.isTuple_zipWith (f : Float → Float → Float) (v w : Value) :
    (v.zipWith f w).isTuple = false := by
  unfold Value.zipWith
  dsimp only
  split
  · rfl
  · split
    · rfl
    · split <;> rfl

theorem Value.isTuple_binary (op : BinaryOp) (v w : Value) :
    (Value.binary op v w).isTuple = false := by
  have hlogical : ∀ u : Value, u.isTuple = false →
      (u.asLogical op).isTuple = false := by
    intro u hu
    cases u with
    | number x =>
        simp only [Value.asLogical]
        split <;> rfl
    | _ => exact hu
  have htext : ∀ same, (textOp op same).isTuple = false := by
    intro same
    cases op <;> rfl
  unfold Value.binary
  split
  · rfl
  · rfl
  · exact htext _
  · exact htext _
  · exact htext _
  · exact hlogical _ (Value.isTuple_zipWith _ _ _)

theorem Value.isTuple_unary (op : UnaryOp) (v : Value) :
    (Value.unary op v).isTuple = false := by
  unfold Value.unary
  split
  case h_4 => split <;> rfl
  all_goals rfl

theorem Value.isTuple_lag (offset : Nat) (v : Value) :
    (v.lag offset).isTuple = false := by
  have hprimary := Value.isTuple_primary v
  unfold Value.lag
  split
  · rfl
  · exact hprimary

theorem Value.Fits.mapWith (f : Float → Float) (h : v.Fits n) :
    (v.mapWith f).Fits n := by
  refine (h.spans.begins_self.mapWith f).spans.fits_of_isTuple ?_
  unfold Value.mapWith
  split <;> rfl

theorem Value.Fits.zipWith (f : Float → Float → Float) (h : v.Fits n)
    (h' : w.Fits n) : (v.zipWith f w).Fits n :=
  (h.spans.begins_self.zipWith f h'.spans.begins_self).spans.fits_of_isTuple
    (Value.isTuple_zipWith f v w)

theorem Value.Fits.binary (op : BinaryOp) (h : v.Fits n) (h' : w.Fits n) :
    (Value.binary op v w).Fits n :=
  (h.spans.begins_self.binary op h'.spans.begins_self).spans.fits_of_isTuple
    (Value.isTuple_binary op v w)

theorem Value.Fits.unary (op : UnaryOp) (h : v.Fits n) :
    (Value.unary op v).Fits n :=
  (h.spans.begins_self.unary op).spans.fits_of_isTuple
    (Value.isTuple_unary op v)

theorem Value.Fits.lag (offset : Nat) (h : v.Fits n) :
    (v.lag offset).Fits n :=
  (h.spans.begins_self.lag offset).spans.fits_of_isTuple
    (Value.isTuple_lag offset v)

end Barscript.Series

namespace Barscript.Builtin

open Barscript.Series Barscript.Script Barscript.Market

variable {n : Nat} {args : Arguments}

/-- Every argument fits a view of `n` bars. -/
structure Arguments.Fit (n : Nat) (args : Arguments) : Prop where
  positional : ∀ v ∈ args.positional, v.Fits n
  named : ∀ entry ∈ args.named, entry.2.Fits n

theorem Arguments.Fit.span (h : args.Fit n) : args.Span n where
  positional v hv := (h.positional v hv).spans
  named entry hentry := (h.named entry hentry).spans

theorem Arguments.Fit.empty : Arguments.Fit n .empty where
  positional _ hv := absurd hv List.not_mem_nil
  named _ hentry := absurd hentry List.not_mem_nil

theorem Arguments.Fit.ofList {as : List (Argument Value)}
    (h : ∀ a ∈ as, a.value.Fits n) : Arguments.Fit n (.ofList as) where
  positional v hv := by
    obtain ⟨a, ha, rfl⟩ := List.mem_map.mp hv
    exact h a (List.mem_of_mem_filter ha)
  named entry hentry := by
    obtain ⟨a, ha, hvalue⟩ := List.mem_filterMap.mp hentry
    obtain ⟨name, _, rfl⟩ := Option.map_eq_some_iff.mp hvalue
    exact h a ha

theorem Arguments.Fit.get? (h : args.Fit n) {index : Nat}
    {names : List String} {v : Value} (hv : args.get? index names = some v) :
    v.Fits n := by
  unfold Arguments.get? at hv
  rcases Option.or_eq_some_iff.mp hv with hnamed | ⟨_, hpositional⟩
  · obtain ⟨entry, hentry, rfl⟩ := Option.map_eq_some_iff.mp hnamed
    exact h.named entry (List.mem_of_find?_eq_some hentry)
  · exact h.positional v (List.mem_of_getElem? hpositional)

/-! ## Functions -/

theorem fits_ofNumber (h : args.Fit n) (f : Float → Float) :
    (ofNumber args f).Fits n := by
  unfold ofNumber
  cases hv : args.get? 0 ["number", "x"] with
  | none => exact trivial
  | some v => exact (h.get? hv).mapWith f

theorem fits_ofAll (h : args.Fit n) (pick : Float → Float → Float) :
    (ofAll args pick).Fits n := by
  obtain ⟨positional, named⟩ := args
  cases positional with
  | nil => exact trivial
  | cons first rest =>
      have hfold : ∀ vs : List Value, (∀ v ∈ vs, v.Fits n) → ∀ v : Value,
          v.Fits n → (vs.foldl (Value.zipWith pick) v).Fits n := by
        intro vs
        induction vs with
        | nil => exact fun _ _ hv => hv
        | cons u us ih =>
            intro hvs v hv
            exact ih (fun x hx => hvs x (List.mem_cons_of_mem u hx)) _
              (hv.zipWith pick (hvs u List.mem_cons_self))
      exact hfold rest
        (fun v hv => h.positional v (List.mem_cons_of_mem first hv)) first
        (h.positional first List.mem_cons_self)

theorem fits_power (h : args.Fit n) : (power args).Fits n := by
  unfold power
  split
  · rename_i hbase hexponent
    exact (h.get? hbase).zipWith Float.pow (h.get? hexponent)
  · exact trivial

theorem fits_replaceUndefined (h : args.Fit n) :
    (replaceUndefined args).Fits n := by
  unfold replaceUndefined
  dsimp only
  split
  · exact trivial
  · exact trivial
  · rename_i hv
    exact (h.get? hv).mapWith _

theorem fits_testUndefined (h : args.Fit n) :
    (testUndefined args).Fits n := by
  unfold testUndefined
  split
  · exact trivial
  · exact trivial
  · exact trivial
  · rename_i hv
    exact (h.get? hv).mapWith _

/-- **Functions keep the number of bars.** -/
theorem fits_function? (name : String) (h : args.Fit n) :
    ((function? name args).getD .na).Fits n := by
  unfold function?
  split
  · exact fits_ofNumber h _
  · exact fits_ofNumber h _
  · exact fits_ofNumber h _
  · exact fits_ofNumber h _
  · exact fits_ofNumber h _
  · exact fits_ofNumber h _
  · exact fits_ofNumber h _
  · exact fits_power h
  · exact fits_ofAll h _
  · exact fits_ofAll h _
  · exact fits_replaceUndefined h
  · exact fits_testUndefined h
  · split
    · cases hv : args.get? 0 ["defval"] with
      | none => exact trivial
      | some v => exact h.get? hv
    · exact trivial

/-! ## Indicators -/

/-- An indicator that has lines has at least one. -/
theorem compute?_ne (name : String) (args : Arguments) (bars : List Bar) :
    compute? name args bars ≠ some (.tuple []) := by
  unfold compute?
  split
  all_goals
    simp [ofSource, ofOptionalSource, ofRange, ofPair,
      Option.bind_eq_some_iff, macdOutputs, bandOutputs, stochasticOutputs,
      supertrendOutputs, levelOutputs, ichimokuOutputs]

/-- **Indicators have one number for each bar.** -/
theorem fits_indicator? (name : String) {bars : List Bar}
    (h : args.Fit bars.length) :
    ((indicator? name args bars).getD .na).Fits bars.length := by
  have hself := begins_indicator? name h.span.begins_self (Nat.le_refl _)
    (.refl args name)
  refine hself.spans.fits ?_
  unfold indicator?
  split
  · cases hv : compute? name args bars with
    | none => exact Value.noConfusion
    | some v =>
        rintro rfl
        exact compute?_ne name args bars hv
  · exact Value.noConfusion

end Barscript.Builtin

import Barscript.Proofs.Bounds.Columns
import Barscript.Proofs.Bounds.Shape
import Barscript.Proofs.Series.Count
import Barscript.Session.Evaluation

/-!
# Operators and calls with checks

Two values are combined by the numbers of their bars, aligned at the newest
one, and the builtins reach for their columns as in the module before. A window
that an argument states is checked to have bars. Over arguments that fit the
bars all of it succeeds.
-/

namespace Barscript.Bounds

open Barscript.Series Barscript.Script Barscript.Builtin Barscript.Indicator
open Barscript.Market

variable {α β : Type}

/-! ## Operators -/

/-- The number at a bar of a column that is brought to `length` bars. -/
def aligned (xs : Column) (length i : Nat) : Checked Float := do
  let pad ← minus length xs.length
  if i < pad then .ok undefined
  else do
    let j ← minus i pad
    item xs j

/-- Two columns combined at `length` bars. -/
def zipAligned (f : Float → Float → Float) (length : Nat) (xs ys : Column) :
    Checked Value := do
  let zs ← tabulate length fun i => do
    let a ← aligned xs length i
    let b ← aligned ys length i
    .ok (f a b)
  .ok (.series zs)

/-- Two numeric values combined bar by bar. -/
def zipWith (f : Float → Float → Float) (left right : Value) :
    Checked Value :=
  let left := left.primary
  let right := right.primary
  match left.scalar?, right.scalar? with
  | some a, some b => .ok (.number (f a b))
  | _, _ =>
    match commonLength? left right with
    | none => .ok .na
    | some length =>
      match left.column? length, right.column? length with
      | some xs, some ys => zipAligned f length xs ys
      | _, _ => .ok .na

/-- An operator between two values. -/
def binary (op : BinaryOp) (left right : Value) : Checked Value :=
  match left.primary, right.primary with
  | .na, _ => .ok .na
  | _, .na => .ok .na
  | .text a, .text b => .ok (textOp op (a == b))
  | .text _, _ => .ok (textOp op false)
  | _, .text _ => .ok (textOp op false)
  | l, r => do
    let v ← zipWith (applyOp op) l r
    .ok (v.asLogical op)

/-- The value some bars back. -/
def lag (offset : Nat) (v : Value) : Checked Value :=
  match v.primary with
  | .series xs => do
    let ys ← shift xs offset
    .ok (.series ys)
  | v => .ok v

/-- The value some bars back, where the offset is the newest number of a
value. -/
def lagBy (base offset : Value) : Checked Value :=
  match offset.number? with
  | some k =>
    if isFinite k && 0.0 ≤ k then lag (toCount k) base else .ok .na
  | none => .ok .na

theorem length_alignNewest {xs : Column} {length : Nat}
    (h : xs.length ≤ length) : (alignNewest length xs).length = length := by
  rw [alignNewest, List.length_append, List.length_replicate]
  omega

theorem aligned_ok {xs : Column} {length i : Nat} (h : xs.length ≤ length)
    (hi : i < (alignNewest length xs).length) :
    aligned xs length i = .ok (alignNewest length xs)[i] := by
  rw [length_alignNewest h] at hi
  unfold aligned
  rw [minus_ok h, ok_bind]
  simp only [alignNewest]
  split
  · rename_i hpad
    rw [List.getElem_append_left (by rw [List.length_replicate]; exact hpad),
      List.getElem_replicate]
  · rename_i hpad
    rw [minus_ok (Nat.le_of_not_lt hpad), ok_bind, item_ok (by omega),
      List.getElem_append_right
        (by rw [List.length_replicate]; exact Nat.le_of_not_lt hpad)]
    simp only [List.length_replicate]

theorem length_column?_le {v : Value} {length : Nat}
    (hv : v.isTuple = false) (h : ∀ xs, v = .series xs → xs.length ≤ length)
    {xs : Column} (hxs : v.column? length = some xs) :
    xs.length ≤ length := by
  cases v with
  | number x =>
      cases hxs
      exact Nat.le_of_eq List.length_replicate
  | bool b =>
      cases hxs
      exact Nat.le_of_eq List.length_replicate
  | series ys =>
      cases hxs
      exact h xs rfl
  | tuple outputs => cases hv
  | _ => cases hxs

/-- Neither operand has more bars than they have together. -/
theorem length_le_of_commonLength? {v w : Value} {length : Nat}
    (h : commonLength? v w = some length) :
    (∀ xs, v = .series xs → xs.length ≤ length) ∧
      ∀ ys, w = .series ys → ys.length ≤ length := by
  constructor
  · rintro xs rfl
    cases w with
    | series ys =>
        cases h
        exact Nat.le_max_left _ _
    | _ =>
        cases h
        exact Nat.le_refl _
  · rintro ys rfl
    cases v with
    | series xs =>
        cases h
        exact Nat.le_max_right _ _
    | _ =>
        cases h
        exact Nat.le_refl _

theorem zipAligned_ok (f : Float → Float → Float) {length : Nat}
    {xs ys : Column} (hx : xs.length ≤ length) (hy : ys.length ≤ length) :
    zipAligned f length xs ys =
      .ok (.series (List.zipWith f (alignNewest length xs)
        (alignNewest length ys))) := by
  have hzip : (List.zipWith f (alignNewest length xs)
      (alignNewest length ys)).length = length := by
    rw [List.length_zipWith, length_alignNewest hx, length_alignNewest hy,
      Nat.min_self]
  unfold zipAligned
  rw [tabulate_ok hzip, ok_bind]
  intro i hi
  rw [hzip] at hi
  rw [aligned_ok hx (by rw [length_alignNewest hx]; exact hi), ok_bind,
    aligned_ok hy (by rw [length_alignNewest hy]; exact hi), ok_bind,
    List.getElem_zipWith]

theorem zipWith_ok (f : Float → Float → Float) (v w : Value) :
    zipWith f v w = .ok (Value.zipWith f v w) := by
  have hv := Value.isTuple_primary v
  have hw := Value.isTuple_primary w
  unfold zipWith Value.zipWith
  generalize v.primary = l at hv
  generalize w.primary = r at hw
  dsimp only
  cases hcommon : commonLength? l r with
  | none => cases l.scalar? <;> cases r.scalar? <;> rfl
  | some length =>
      obtain ⟨hl, hr⟩ := length_le_of_commonLength? hcommon
      dsimp only
      cases hxs : l.column? length with
      | none => cases l.scalar? <;> cases r.scalar? <;> rfl
      | some xs =>
          cases hys : r.column? length with
          | none => cases l.scalar? <;> cases r.scalar? <;> rfl
          | some ys =>
              have hzip := zipAligned_ok f (length_column?_le hv hl hxs)
                (length_column?_le hw hr hys)
              cases l.scalar? <;> cases r.scalar? <;>
                first | rfl | exact hzip

theorem binary_ok (op : BinaryOp) (v w : Value) :
    binary op v w = .ok (Value.binary op v w) := by
  have hzip : ∀ l r, (do
      let v ← zipWith (applyOp op) l r
      .ok (v.asLogical op) : Checked Value) =
        .ok ((Value.zipWith (applyOp op) l r).asLogical op) := by
    intro l r
    rw [zipWith_ok, ok_bind]
  unfold binary Value.binary
  generalize v.primary = l
  generalize w.primary = r
  cases l with
  | na => rfl
  | text a => cases r <;> rfl
  | _ =>
      cases r with
      | na => rfl
      | text b => rfl
      | _ => exact hzip _ _

theorem lag_ok (offset : Nat) (v : Value) :
    lag offset v = .ok (v.lag offset) := by
  unfold lag Value.lag
  cases v.primary with
  | series xs =>
      dsimp only
      rw [shift_ok, ok_bind]
  | _ => rfl

theorem lagBy_ok (base offset : Value) :
    lagBy base offset = .ok (Session.lagBy base offset) := by
  unfold lagBy Session.lagBy
  cases offset.number? with
  | none => rfl
  | some k =>
      dsimp only
      cases isFinite k && decide (0.0 ≤ k) with
      | true => exact lag_ok _ base
      | false => rfl

/-! ## Functions -/

/-- A choice among all unnamed arguments. -/
def ofAll (args : Arguments) (pick : Float → Float → Float) :
    Checked Value :=
  match args.positional with
  | [] => .ok .na
  | first :: rest => rest.foldlM (zipWith pick) first

/-- A power of two given values. -/
def power (args : Arguments) : Checked Value :=
  match args.get? 0 ["base"], args.get? 1 ["exponent"] with
  | some base, some exponent => zipWith Float.pow base exponent
  | _, _ => .ok .na

/-- The value of a function. The others than these three take the numbers of a
column as they come. -/
def function? (name : String) (args : Arguments) : Checked (Option Value) :=
  match name with
  | "math.pow" => do
    let v ← power args
    .ok (some v)
  | "math.max" => do
    let v ← ofAll args strictLarger
    .ok (some v)
  | "math.min" => do
    let v ← ofAll args strictSmaller
    .ok (some v)
  | _ => .ok (Builtin.function? name args)

theorem ofAll_ok (args : Arguments) (pick : Float → Float → Float) :
    ofAll args pick = .ok (Builtin.ofAll args pick) := by
  have hfold : ∀ (vs : List Value) (v : Value),
      vs.foldlM (zipWith pick) v = .ok (vs.foldl (Value.zipWith pick) v) := by
    intro vs
    induction vs with
    | nil => exact fun _ => rfl
    | cons u us ih =>
        intro v
        rw [List.foldlM_cons, zipWith_ok, ok_bind, ih, List.foldl_cons]
  obtain ⟨positional, named⟩ := args
  cases positional with
  | nil => rfl
  | cons first rest => exact hfold rest first

theorem power_ok (args : Arguments) :
    power args = .ok (Builtin.power args) := by
  unfold power Builtin.power
  cases args.get? 0 ["base"] with
  | none => rfl
  | some base =>
      cases args.get? 1 ["exponent"] with
      | none => rfl
      | some exponent => exact zipWith_ok Float.pow base exponent

theorem function?_ok (name : String) (args : Arguments) :
    function? name args = .ok (Builtin.function? name args) := by
  unfold function?
  split
  · rw [power_ok, ok_bind]
    rfl
  · rw [ofAll_ok, ok_bind]
    rfl
  · rw [ofAll_ok, ok_bind]
    rfl
  · rfl

/-! ## Arguments of indicators -/

/-- The length of a window that an argument states, or the default. -/
def length (args : Arguments) (index : Nat) (names : List String)
    (default : Nat) : Checked Nat :=
  window (args.length index names default)

theorem length_ok (args : Arguments) (index : Nat) (names : List String)
    {default : Nat} (hd : 1 ≤ default) :
    length args index names default = .ok (args.length index names default) := by
  refine window_ok ?_
  unfold Arguments.length
  split
  · split
    · rename_i hx
      exact one_le_toCount (of_decide_eq_true (Bool.and_eq_true_iff.mp hx).2)
    · exact hd
  · exact hd

theorem length_prices (bars : List Bar) (price : Bar → Float) :
    (prices bars price).length = bars.length :=
  List.length_map _

theorem length_column? {v : Value} {n : Nat} (h : v.Fits n) {xs : Column}
    (hxs : v.column? n = some xs) : xs.length = n := by
  cases v with
  | number x =>
      cases hxs
      exact List.length_replicate
  | bool b =>
      cases hxs
      exact List.length_replicate
  | series ys =>
      cases hxs
      exact h
  | tuple outputs =>
      obtain ⟨output, houtput, rfl⟩ := Option.map_eq_some_iff.mp hxs
      exact h.2 output (List.mem_of_mem_head? houtput)
  | _ => cases hxs

section

variable {args : Arguments} {bars : List Bar} {xs : Column}

theorem length_source? (h : args.Fit bars.length) {index : Nat}
    (hxs : source? args bars index = some xs) : xs.length = bars.length := by
  unfold source? at hxs
  cases hv : args.get? index sourceNames with
  | none =>
      rw [hv] at hxs
      cases hxs
      exact length_prices bars Bar.close
  | some v =>
      rw [hv] at hxs
      exact length_column? (h.get? hv) hxs

theorem length_sourceOr? (h : args.Fit bars.length) {price : Bar → Float}
    (hxs : sourceOr? args bars price = some xs) :
    xs.length = bars.length := by
  unfold sourceOr? at hxs
  split at hxs
  · exact length_source? h hxs
  · cases hxs
    exact length_prices bars price

/-- All three columns of a stochastic oscillator have one number a bar. -/
theorem length_stochasticSources? (h : args.Fit bars.length)
    {high low close : Column}
    (hxs : stochasticSources? args bars = some (high, low, close)) :
    high.length = bars.length ∧ low.length = bars.length ∧
      close.length = bars.length := by
  unfold stochasticSources? at hxs
  dsimp only at hxs
  split at hxs
  · obtain ⟨c, hc, hxs⟩ := Option.bind_eq_some_iff.mp hxs
    obtain ⟨t, ht, hxs⟩ := Option.bind_eq_some_iff.mp hxs
    obtain ⟨b, hb, hxs⟩ := Option.bind_eq_some_iff.mp hxs
    cases hxs
    exact ⟨length_source? h ht, length_source? h hb, length_source? h hc⟩
  · split at hxs
    · obtain ⟨c, hc, hxs⟩ := Option.map_eq_some_iff.mp hxs
      cases hxs
      exact ⟨length_prices _ _, length_prices _ _, length_source? h hc⟩
    · cases hxs
      exact ⟨length_prices _ _, length_prices _ _, length_prices _ _⟩

end

/-! ## Indicators -/

/-- An indicator of a source and a length in the second place. -/
def ofSource (args : Arguments) (bars : List Bar) (default : Nat)
    (compute : Column → Nat → Checked Column) : Checked (Option Value) :=
  (source? args bars 0).mapM fun source => do
    let k ← length args 1 ["length"] default
    let ys ← compute source k
    .ok (.series ys)

/-- An indicator of an optional source and a length behind it. -/
def ofOptionalSource (args : Arguments) (bars : List Bar)
    (price : Bar → Float) (default : Nat)
    (compute : Column → Nat → Checked Column) : Checked (Option Value) :=
  (sourceOr? args bars price).mapM fun source => do
    let k ← length args args.lengthSlot ["length"] default
    let ys ← compute source k
    .ok (.series ys)

/-- An indicator of high, low, close and a length. -/
def ofRange (args : Arguments) (bars : List Bar)
    (compute : Column → Column → Column → Nat → Checked Column) :
    Checked (Option Value) := do
  let k ← length args 0 ["length"] 14
  let ys ← compute (prices bars Bar.high) (prices bars Bar.low)
    (prices bars Bar.close) k
  .ok (some (.series ys))

/-- A crossing of two given columns. -/
def ofPair (args : Arguments) (bars : List Bar)
    (compute : Column → Column → Checked Column) : Checked (Option Value) :=
  match args.column? 0 ["source1"] bars.length,
    args.column? 1 ["source2"] bars.length with
  | some a, some b => do
    let ys ← compute a b
    .ok (some (.series ys))
  | _, _ => .ok none

/-- The value of an indicator over all bars. -/
def compute? (name : String) (args : Arguments) (bars : List Bar) :
    Checked (Option Value) :=
  let high := prices bars Bar.high
  let low := prices bars Bar.low
  let close := prices bars Bar.close
  let volume := prices bars Bar.volume
  match name with
  | "ta.sma" => ofSource args bars 14 sma
  | "ta.ema" => ofSource args bars 14 fun source k => .ok (ema source k)
  | "ta.rma" => ofSource args bars 14 fun source k => .ok (rma source k)
  | "ta.wma" => ofSource args bars 14 wma
  | "ta.vwma" => ofSource args bars 14 fun source => vwma source volume
  | "ta.rsi" => ofSource args bars 14 rsi
  | "ta.macd" => (source? args bars 0).mapM fun source => do
    let fast ← length args 1 ["fast", "fastlen"] 12
    let slow ← length args 2 ["slow", "slowlen"] 26
    let signal ← length args 3 ["signal", "siglen"] 9
    .ok (.tuple (macdOutputs (macd source fast slow signal)))
  | "ta.bb" => (source? args bars 0).mapM fun source => do
    let k ← length args 1 ["length"] 20
    let bands ← bollinger source k (args.number 2 ["mult"] 2.0)
    .ok (.tuple (bandOutputs bands))
  | "ta.tr" => do
    let ys ← trueRange high low close
    .ok (some (.series ys))
  | "ta.atr" => ofRange args bars atr
  | "ta.stoch" =>
    (stochasticSources? args bars).mapM fun (high, low, close) => do
      let slot := min args.leadingSources 3
      let k ← length args slot ["length", "k"] 14
      let smoothK ← length args (slot + 1) ["smooth_k"] 1
      let smoothD ← length args (slot + 2) ["smooth_d", "d"] 3
      let lines ← stochastic high low close k smoothK smoothD
      .ok (.tuple (stochasticOutputs lines))
  | "ta.cci" => ofOptionalSource args bars Bar.hlc3 20 cci
  | "ta.adx" => ofRange args bars adx
  | "ta.supertrend" => do
    let k ← length args 0 ["length", "atrPeriod"] 10
    let lines ← supertrend high low close k
      (args.number 1 ["mult", "factor"] 3.0)
    .ok (some (.tuple (supertrendOutputs lines)))
  | "ta.vwap" => do
    let ys ← vwap high low close volume
    .ok (some (.series ys))
  | "ta.highest" => ofOptionalSource args bars Bar.high 14 highest
  | "ta.lowest" => ofOptionalSource args bars Bar.low 14 lowest
  | "ta.crossover" => ofPair args bars (crossing fun now before =>
      now.2 < now.1 && before.1 ≤ before.2)
  | "ta.crossunder" => ofPair args bars (crossing fun now before =>
      now.1 < now.2 && before.2 ≤ before.1)
  | "ta.change" => ofSource args bars 1 change
  | "ta.mom" => ofSource args bars 10 change
  | "ta.roc" => ofSource args bars 10 roc
  | "ta.wpr" => ofRange args bars williamsR
  | "ta.obv" => do
    let ys ← obv close volume
    .ok (some (.series ys))
  | "ta.mfi" =>
    ofOptionalSource args bars Bar.hlc3 14 fun source => mfi source volume
  | "ta.pivot" => do
    let levels ← pivotLevels high low close
    .ok (some (.tuple (levelOutputs levels)))
  | "ta.ichimoku" => do
    let tenkan ← length args 0 ["tenkan"] 9
    let kijun ← length args 1 ["kijun"] 26
    let senkou ← length args 2 ["senkou"] 52
    let lines ← ichimoku high low tenkan kijun senkou
    .ok (some (.tuple (ichimokuOutputs lines)))
  | _ => .ok none

/-- The value of an indicator. -/
def indicator? (name : String) (args : Arguments) (bars : List Bar) :
    Checked (Option Value) :=
  if indicatorNames.contains name then do
    let v ← compute? name args bars
    .ok (some (v.getD .na))
  else .ok none

theorem mapM_ok {x : Option α} {f : α → Checked β} {g : α → β}
    (h : ∀ a, x = some a → f a = .ok (g a)) : x.mapM f = .ok (x.map g) := by
  cases x with
  | none => rfl
  | some a =>
      rw [Option.mapM_some, h a rfl]
      rfl

section

variable {args : Arguments} {bars : List Bar} {default : Nat}

theorem ofSource_ok (h : args.Fit bars.length) (hd : 1 ≤ default)
    {compute : Column → Nat → Checked Column}
    {plain : Column → Nat → Column}
    (hc : ∀ xs k, xs.length = bars.length →
      compute xs k = .ok (plain xs k)) :
    ofSource args bars default compute =
      .ok (Builtin.ofSource args bars default plain) := by
  refine mapM_ok fun xs hxs => ?_
  rw [length_ok args 1 ["length"] hd, ok_bind, hc xs _ (length_source? h hxs),
    ok_bind]

theorem ofOptionalSource_ok (h : args.Fit bars.length) (price : Bar → Float)
    (hd : 1 ≤ default) {compute : Column → Nat → Checked Column}
    {plain : Column → Nat → Column}
    (hc : ∀ xs k, xs.length = bars.length →
      compute xs k = .ok (plain xs k)) :
    ofOptionalSource args bars price default compute =
      .ok (Builtin.ofOptionalSource args bars price default plain) := by
  refine mapM_ok fun xs hxs => ?_
  rw [length_ok args args.lengthSlot ["length"] hd, ok_bind,
    hc xs _ (length_sourceOr? h hxs), ok_bind]

theorem ofRange_ok
    {compute : Column → Column → Column → Nat → Checked Column}
    {plain : Column → Column → Column → Nat → Column}
    (hc : ∀ {high low close : Column} (_ : high.length = close.length)
      (_ : low.length = close.length) (k : Nat),
      compute high low close k = .ok (plain high low close k)) :
    ofRange args bars compute = .ok (Builtin.ofRange args bars plain) := by
  unfold ofRange
  rw [length_ok args 0 ["length"] (by decide), ok_bind,
    hc ((length_prices _ _).trans (length_prices _ _).symm)
      ((length_prices _ _).trans (length_prices _ _).symm), ok_bind]
  rfl

theorem ofPair_ok (crossed : Float × Float → Float × Float → Bool) :
    ofPair args bars (crossing crossed) =
      .ok (Builtin.ofPair args bars (Indicator.crossing crossed)) := by
  unfold ofPair Builtin.ofPair
  cases args.column? 0 ["source1"] bars.length with
  | none => rfl
  | some a =>
      cases args.column? 1 ["source2"] bars.length with
      | none => rfl
      | some b =>
          dsimp only
          rw [crossing_ok, ok_bind]
          rfl

/-- **Indicators stay in bounds.** Over arguments that fit the bars every item
they reach for is there, and every window has bars. -/
theorem compute?_ok (name : String) (h : args.Fit bars.length) :
    compute? name args bars = .ok (Builtin.compute? name args bars) := by
  have hprices : ∀ price price' : Bar → Float,
      (prices bars price).length = (prices bars price').length :=
    fun _ _ => (length_prices _ _).trans (length_prices _ _).symm
  unfold compute? Builtin.compute?
  dsimp only
  split
  · exact ofSource_ok h (by decide) fun xs k _ => sma_ok xs k
  · exact ofSource_ok h (by decide) fun xs k _ => rfl
  · exact ofSource_ok h (by decide) fun xs k _ => rfl
  · exact ofSource_ok h (by decide) fun xs k _ => wma_ok xs k
  · exact ofSource_ok h (by decide) fun xs k _ => vwma_ok xs _ k
  · exact ofSource_ok h (by decide) fun xs k _ => rsi_ok xs k
  · refine mapM_ok fun xs _ => ?_
    rw [length_ok args 1 _ (by decide), ok_bind,
      length_ok args 2 _ (by decide), ok_bind,
      length_ok args 3 _ (by decide), ok_bind]
  · refine mapM_ok fun xs _ => ?_
    rw [length_ok args 1 _ (by decide), ok_bind, bollinger_ok, ok_bind]
  · exact bind_of_ok (trueRange_ok (hprices _ _) (hprices _ _)) _
  · exact ofRange_ok atr_ok
  · refine mapM_ok fun columns hcolumns => ?_
    obtain ⟨high, low, close⟩ := columns
    obtain ⟨hh, hl, hc⟩ := length_stochasticSources? h hcolumns
    dsimp only
    rw [length_ok args _ _ (by decide), ok_bind,
      length_ok args _ _ (by decide), ok_bind,
      length_ok args _ _ (by decide), ok_bind,
      stochastic_ok (hh.trans hc.symm) (hl.trans hc.symm), ok_bind]
  · exact ofOptionalSource_ok h Bar.hlc3 (by decide) fun xs k _ => cci_ok xs k
  · exact ofRange_ok adx_ok
  · exact (bind_of_ok (length_ok args 0 _ (by decide)) _).trans
      (bind_of_ok (supertrend_ok (hprices _ _) (hprices _ _) _ _) _)
  · exact bind_of_ok
      (vwap_ok (hprices _ _) (hprices _ _) (hprices _ _)) _
  · exact ofOptionalSource_ok h Bar.high (by decide)
      fun xs k _ => highest_ok xs k
  · exact ofOptionalSource_ok h Bar.low (by decide)
      fun xs k _ => lowest_ok xs k
  · exact ofPair_ok _
  · exact ofPair_ok _
  · exact ofSource_ok h (by decide) fun xs k _ => change_ok xs k
  · exact ofSource_ok h (by decide) fun xs k _ => change_ok xs k
  · exact ofSource_ok h (by decide) fun xs k _ => roc_ok xs k
  · exact ofRange_ok williamsR_ok
  · exact bind_of_ok (obv_ok (hprices _ _)) _
  · exact ofOptionalSource_ok h Bar.hlc3 (by decide) fun xs k hxs =>
      mfi_ok ((length_prices bars Bar.volume).trans hxs.symm) k
  · exact bind_of_ok (pivotLevels_ok (hprices _ _) (hprices _ _)) _
  · exact (bind_of_ok (length_ok args 0 _ (by decide)) _).trans
      ((bind_of_ok (length_ok args 1 _ (by decide)) _).trans
        ((bind_of_ok (length_ok args 2 _ (by decide)) _).trans
          (bind_of_ok (ichimoku_ok _ _ _ _ _) _)))
  · simp only [*]

theorem indicator?_ok (name : String) (h : args.Fit bars.length) :
    indicator? name args bars = .ok (Builtin.indicator? name args bars) := by
  unfold indicator? Builtin.indicator?
  split
  · rw [compute?_ok name h, ok_bind]
  · rfl

end

end Barscript.Bounds

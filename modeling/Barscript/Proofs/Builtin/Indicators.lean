import Barscript.Proofs.Indicator.Prefix
import Barscript.Proofs.Builtin.Slots

/-!
# Indicator calls over a prefix of the bars

An indicator called over the oldest bars, with arguments evaluated there,
answers with the beginning of what it answers over all bars, as long as no
column stands where it reads a length or a multiplier.
-/

namespace Barscript.Builtin

open Barscript.Series Barscript.Indicator Barscript.Market

variable {n : Nat} {args args' : Arguments} {bars : List Bar}

/-! ## Sources -/

theorem begins_prices (hn : n ≤ bars.length) (price : Bar → Float) :
    Series.Begins n bars.length (prices (bars.take n) price)
      (prices bars price) :=
  ⟨hn, List.length_map _, by rw [prices, prices, List.map_take]⟩

theorem Arguments.Begins.source? (h : args.Begins n bars.length args')
    (hn : n ≤ bars.length) (index : Nat) :
    Option.Rel (Series.Begins n bars.length)
      (source? args (bars.take n) index) (source? args' bars index) := by
  unfold Builtin.source?
  rcases rel_cases (h.get? index sourceNames) with
    ⟨ha, hb⟩ | ⟨v, w, ha, hb, hv⟩
  · rw [ha, hb]
    exact .some (begins_prices hn Bar.close)
  · rw [ha, hb, List.length_take, Nat.min_eq_left hn]
    exact hv.column? hn

theorem Arguments.Begins.sourceOr? (h : args.Begins n bars.length args')
    (hn : n ≤ bars.length) (price : Bar → Float) :
    Option.Rel (Series.Begins n bars.length)
      (sourceOr? args (bars.take n) price) (sourceOr? args' bars price) := by
  unfold Builtin.sourceOr?
  rw [h.hasSource_eq]
  split
  · exact h.source? hn 0
  · exact .some (begins_prices hn price)

/-- Three columns that begin three others. -/
def ThreeBegin (n m : Nat) (a b : Column × Column × Column) : Prop :=
  Series.Begins n m a.1 b.1 ∧ Series.Begins n m a.2.1 b.2.1 ∧
    Series.Begins n m a.2.2 b.2.2

theorem Arguments.Begins.stochasticSources?
    (h : args.Begins n bars.length args') (hn : n ≤ bars.length) :
    Option.Rel (ThreeBegin n bars.length)
      (stochasticSources? args (bars.take n))
      (stochasticSources? args' bars) := by
  have hhigh := begins_prices hn Bar.high
  have hlow := begins_prices hn Bar.low
  unfold Builtin.stochasticSources?
  rw [h.leadingSources_eq]
  -- Three sources, one, or none: prices stand for those that are left out.
  simp only
  split
  · rcases rel_cases (h.source? hn 0) with ⟨ha, hb⟩ | ⟨c, c', ha, hb, hc⟩
    · rw [ha, hb]
      exact .none
    · rcases rel_cases (h.source? hn 1) with ⟨ha', hb'⟩ | ⟨u, u', ha', hb', hu⟩
      · rw [ha, hb, ha', hb']
        exact .none
      · rcases rel_cases (h.source? hn 2) with
          ⟨hd, he⟩ | ⟨l, l', hd, he, hl⟩
        · rw [ha, hb, ha', hb', hd, he]
          exact .none
        · rw [ha, hb, ha', hb', hd, he]
          exact .some ⟨hu, hl, hc⟩
  · split
    · rcases rel_cases (h.source? hn 0) with ⟨ha, hb⟩ | ⟨c, c', ha, hb, hc⟩
      · rw [ha, hb]
        exact .none
      · rw [ha, hb]
        exact .some ⟨hhigh, hlow, hc⟩
    · exact .some ⟨hhigh, hlow, begins_prices hn Bar.close⟩

/-! ## Families -/

theorem Arguments.Begins.ofSource (h : args.Begins n bars.length args')
    (hn : n ≤ bars.length) (hs : args.SameAt args' (1, ["length"]))
    (default : Nat) {compute compute' : Column → Nat → Column}
    (hc : ∀ length xs ys, Series.Begins n bars.length xs ys →
      Series.Begins n bars.length (compute xs length) (compute' ys length)) :
    Value.Begins n bars.length
      ((ofSource args (bars.take n) default compute).getD .na)
      ((ofSource args' bars default compute').getD .na) := by
  unfold Builtin.ofSource
  rw [hs.length_eq]
  refine .optional (h.source? hn 0) ?_
  intro xs ys hxs
  exact .series (hc _ xs ys hxs)

theorem Arguments.Begins.ofOptionalSource
    (h : args.Begins n bars.length args') (hn : n ≤ bars.length)
    (hs : args.SameAt args' (args'.lengthSlot, ["length"])) (price : Bar → Float)
    (default : Nat) {compute compute' : Column → Nat → Column}
    (hc : ∀ length xs ys, Series.Begins n bars.length xs ys →
      Series.Begins n bars.length (compute xs length) (compute' ys length)) :
    Value.Begins n bars.length
      ((ofOptionalSource args (bars.take n) price default compute).getD .na)
      ((ofOptionalSource args' bars price default compute').getD .na) := by
  unfold Builtin.ofOptionalSource
  rw [h.lengthSlot_eq, hs.length_eq]
  refine .optional (h.sourceOr? hn price) ?_
  intro xs ys hxs
  exact .series (hc _ xs ys hxs)

theorem Arguments.SameAt.ofRange (hs : args.SameAt args' (0, ["length"]))
    (hn : n ≤ bars.length)
    {compute : Column → Column → Column → Nat → Column}
    (hc : ∀ length hs hs' ls ls' cs cs',
      Series.Begins n bars.length hs hs' →
      Series.Begins n bars.length ls ls' →
      Series.Begins n bars.length cs cs' →
      Series.Begins n bars.length (compute hs ls cs length)
        (compute hs' ls' cs' length)) :
    Value.Begins n bars.length
      ((ofRange args (bars.take n) compute).getD .na)
      ((ofRange args' bars compute).getD .na) := by
  unfold Builtin.ofRange
  rw [hs.length_eq]
  exact .series (hc _ _ _ _ _ _ _ (begins_prices hn _) (begins_prices hn _)
    (begins_prices hn _))

theorem Arguments.Begins.ofPair (h : args.Begins n bars.length args')
    (hn : n ≤ bars.length)
    (crossed : Float × Float → Float × Float → Bool) :
    Value.Begins n bars.length
      ((ofPair args (bars.take n) (crossing crossed)).getD .na)
      ((ofPair args' bars (crossing crossed)).getD .na) := by
  unfold Builtin.ofPair
  rw [List.length_take, Nat.min_eq_left hn]
  rcases rel_cases (h.column? hn 0 ["source1"]) with
    ⟨ha, hb⟩ | ⟨xs, ys, ha, hb, hx⟩
  · rw [ha, hb]
    exact .na
  · rcases rel_cases (h.column? hn 1 ["source2"]) with
      ⟨hc, hd⟩ | ⟨us, vs, hc, hd, hu⟩
    · rw [ha, hb, hc, hd]
      exact .na
    · rw [ha, hb, hc, hd]
      exact .series (begins_crossing crossed hx hu)

/-! ## Several lines -/

theorem begins_macdOutputs {m : Nat} (fast slow signal : Nat)
    {xs ys : Column} (h : Series.Begins n m xs ys) :
    OutputsBegin n m (macdOutputs (macd xs fast slow signal))
      (macdOutputs (macd ys fast slow signal)) :=
  .cons ⟨rfl, begins_macdLine fast slow signal h⟩
    (.cons ⟨rfl, begins_macdSignal fast slow signal h⟩
      (.cons ⟨rfl, begins_macdHistogram fast slow signal h⟩ .nil))

theorem begins_stochasticOutputs {m : Nat} (length smoothK smoothD : Nat)
    {a b : Column × Column × Column} (h : ThreeBegin n m a b) :
    OutputsBegin n m
      (stochasticOutputs
        (stochastic a.1 a.2.1 a.2.2 length smoothK smoothD))
      (stochasticOutputs
        (stochastic b.1 b.2.1 b.2.2 length smoothK smoothD)) := by
  obtain ⟨hhigh, hlow, hclose⟩ := h
  exact .cons ⟨rfl, begins_stochasticK _ _ smoothD hhigh hlow hclose⟩
    (.cons ⟨rfl, begins_stochasticD _ _ _ hhigh hlow hclose⟩ .nil)

theorem begins_macd (h : args.Begins n bars.length args')
    (hn : n ≤ bars.length) (hs : args.SameNumbers args' "ta.macd") :
    Value.Begins n bars.length
      ((compute? "ta.macd" args (bars.take n)).getD .na)
      ((compute? "ta.macd" args' bars).getD .na) := by
  have hfast : args.SameAt args' (1, ["fast", "fastlen"]) :=
    hs _ List.mem_cons_self
  have hslow : args.SameAt args' (2, ["slow", "slowlen"]) :=
    hs _ (List.mem_cons_of_mem _ List.mem_cons_self)
  have hsignal : args.SameAt args' (3, ["signal", "siglen"]) :=
    hs _ (List.mem_cons_of_mem _ (List.mem_cons_of_mem _ List.mem_cons_self))
  simp only [compute?]
  rw [hfast.length_eq, hslow.length_eq, hsignal.length_eq]
  refine .optional (h.source? hn 0) ?_
  intro xs ys hxs
  exact .tuple (begins_macdOutputs _ _ _ hxs)

theorem begins_bollinger (h : args.Begins n bars.length args')
    (hn : n ≤ bars.length) (hs : args.SameNumbers args' "ta.bb") :
    Value.Begins n bars.length
      ((compute? "ta.bb" args (bars.take n)).getD .na)
      ((compute? "ta.bb" args' bars).getD .na) := by
  have hlength : args.SameAt args' (1, ["length"]) := hs _ List.mem_cons_self
  have hmult : args.SameAt args' (2, ["mult"]) :=
    hs _ (List.mem_cons_of_mem _ List.mem_cons_self)
  simp only [compute?]
  rw [hlength.length_eq, hmult.number_eq]
  refine .optional (h.source? hn 0) ?_
  intro xs ys hxs
  obtain ⟨hbasis, hupper, hlower⟩ := begins_bands (args'.length 1 ["length"] 20)
    (args'.number 2 ["mult"] 2.0) hxs
  exact .tuple (.cons ⟨rfl, hbasis⟩
    (.cons ⟨rfl, hupper⟩ (.cons ⟨rfl, hlower⟩ .nil)))

theorem begins_stochastic (h : args.Begins n bars.length args')
    (hn : n ≤ bars.length) (hs : args.SameNumbers args' "ta.stoch") :
    Value.Begins n bars.length
      ((compute? "ta.stoch" args (bars.take n)).getD .na)
      ((compute? "ta.stoch" args' bars).getD .na) := by
  have hlength : args.SameAt args' (min args'.leadingSources 3, ["length", "k"]) :=
    hs _ List.mem_cons_self
  have hsmoothK :
      args.SameAt args' (min args'.leadingSources 3 + 1, ["smooth_k"]) :=
    hs _ (List.mem_cons_of_mem _ List.mem_cons_self)
  have hsmoothD :
      args.SameAt args' (min args'.leadingSources 3 + 2, ["smooth_d", "d"]) :=
    hs _ (List.mem_cons_of_mem _ (List.mem_cons_of_mem _ List.mem_cons_self))
  simp only [compute?]
  rw [h.leadingSources_eq, hlength.length_eq, hsmoothK.length_eq,
    hsmoothD.length_eq]
  refine .optional (h.stochasticSources? hn) ?_
  intro xs ys hxs
  exact .tuple (begins_stochasticOutputs _ _ _ hxs)

theorem begins_supertrendCall (hn : n ≤ bars.length)
    (hs : args.SameNumbers args' "ta.supertrend") :
    Value.Begins n bars.length
      ((compute? "ta.supertrend" args (bars.take n)).getD .na)
      ((compute? "ta.supertrend" args' bars).getD .na) := by
  have hlength : args.SameAt args' (0, ["length", "atrPeriod"]) :=
    hs _ List.mem_cons_self
  have hmult : args.SameAt args' (1, ["mult", "factor"]) :=
    hs _ (List.mem_cons_of_mem _ List.mem_cons_self)
  simp only [compute?]
  rw [hlength.length_eq, hmult.number_eq]
  obtain ⟨hline, hdirection⟩ := begins_supertrend
    (args'.length 0 ["length", "atrPeriod"] 10)
    (args'.number 1 ["mult", "factor"] 3.0) (begins_prices hn Bar.high)
    (begins_prices hn Bar.low) (begins_prices hn Bar.close)
  exact .tuple (.cons ⟨rfl, hline⟩ (.cons ⟨rfl, hdirection⟩ .nil))

theorem begins_pivot (args args' : Arguments) (hn : n ≤ bars.length) :
    Value.Begins n bars.length
      ((compute? "ta.pivot" args (bars.take n)).getD .na)
      ((compute? "ta.pivot" args' bars).getD .na) := by
  have hlevels := begins_pivotLevels (begins_prices hn Bar.high)
    (begins_prices hn Bar.low) (begins_prices hn Bar.close)
  exact .tuple (.cons ⟨rfl, hlevels.map _⟩ (.cons ⟨rfl, hlevels.map _⟩
    (.cons ⟨rfl, hlevels.map _⟩ (.cons ⟨rfl, hlevels.map _⟩
      (.cons ⟨rfl, hlevels.map _⟩ (.cons ⟨rfl, hlevels.map _⟩
        (.cons ⟨rfl, hlevels.map _⟩ .nil)))))))

theorem begins_ichimokuCall (hn : n ≤ bars.length)
    (hs : args.SameNumbers args' "ta.ichimoku") :
    Value.Begins n bars.length
      ((compute? "ta.ichimoku" args (bars.take n)).getD .na)
      ((compute? "ta.ichimoku" args' bars).getD .na) := by
  have htenkan : args.SameAt args' (0, ["tenkan"]) := hs _ List.mem_cons_self
  have hkijun : args.SameAt args' (1, ["kijun"]) :=
    hs _ (List.mem_cons_of_mem _ List.mem_cons_self)
  have hsenkou : args.SameAt args' (2, ["senkou"]) :=
    hs _ (List.mem_cons_of_mem _ (List.mem_cons_of_mem _ List.mem_cons_self))
  simp only [compute?]
  rw [htenkan.length_eq, hkijun.length_eq, hsenkou.length_eq]
  obtain ⟨hfast, hslow, hspanA, hspanB⟩ := begins_ichimoku
    (args'.length 0 ["tenkan"] 9) (args'.length 1 ["kijun"] 26)
    (args'.length 2 ["senkou"] 52) (begins_prices hn Bar.high)
    (begins_prices hn Bar.low)
  exact .tuple (.cons ⟨rfl, hfast⟩ (.cons ⟨rfl, hslow⟩
    (.cons ⟨rfl, hspanA⟩ (.cons ⟨rfl, hspanB⟩ .nil))))

/-! ## All indicators -/

theorem begins_compute? (name : String) (h : args.Begins n bars.length args')
    (hn : n ≤ bars.length) (hs : args.SameNumbers args' name) :
    Value.Begins n bars.length
      ((compute? name args (bars.take n)).getD .na)
      ((compute? name args' bars).getD .na) := by
  have hhigh := begins_prices hn Bar.high
  have hlow := begins_prices hn Bar.low
  have hclose := begins_prices hn Bar.close
  have hvolume := begins_prices hn Bar.volume
  -- Most families read one number, from their first slot.
  have hfirst : ∀ {slot}, slot ∈ (numberSlots name args').head? →
      args.SameAt args' slot := fun hslot => hs _ (List.mem_of_mem_head? hslot)
  unfold compute?
  split
  · exact h.ofSource hn (hfirst rfl) 14 fun l _ _ hx => begins_sma l hx
  · exact h.ofSource hn (hfirst rfl) 14 fun l _ _ hx => begins_ema l hx
  · exact h.ofSource hn (hfirst rfl) 14 fun l _ _ hx => begins_rma l hx
  · exact h.ofSource hn (hfirst rfl) 14 fun l _ _ hx => begins_wma l hx
  · exact h.ofSource hn (hfirst rfl) 14
      fun l _ _ hx => begins_vwma l hx hvolume
  · exact h.ofSource hn (hfirst rfl) 14 fun l _ _ hx => begins_rsi l hx
  · exact begins_macd h hn hs
  · exact begins_bollinger h hn hs
  · exact .series (begins_trueRange hhigh hlow hclose)
  · exact Arguments.SameAt.ofRange (hfirst rfl) hn
      fun l _ _ _ _ _ _ hh hl hc => begins_atr l hh hl hc
  · exact begins_stochastic h hn hs
  · exact h.ofOptionalSource hn (hfirst rfl) Bar.hlc3 20
      fun l _ _ hx => begins_cci l hx
  · exact Arguments.SameAt.ofRange (hfirst rfl) hn
      fun l _ _ _ _ _ _ hh hl hc => begins_adx l hh hl hc
  · exact begins_supertrendCall hn hs
  · exact .series (begins_vwap hhigh hlow hclose hvolume)
  · exact h.ofOptionalSource hn (hfirst rfl) Bar.high 14
      fun l _ _ hx => begins_highest l hx
  · exact h.ofOptionalSource hn (hfirst rfl) Bar.low 14
      fun l _ _ hx => begins_lowest l hx
  · exact h.ofPair hn _
  · exact h.ofPair hn _
  · exact h.ofSource hn (hfirst rfl) 1 fun l _ _ hx => hx.change l
  · exact h.ofSource hn (hfirst rfl) 10 fun l _ _ hx => hx.change l
  · exact h.ofSource hn (hfirst rfl) 10 fun l _ _ hx => begins_roc l hx
  · exact Arguments.SameAt.ofRange (hfirst rfl) hn
      fun l _ _ _ _ _ _ hh hl hc => begins_williamsR l hh hl hc
  · exact .series (begins_obv hclose hvolume)
  · exact h.ofOptionalSource hn (hfirst rfl) Bar.hlc3 14
      fun l _ _ hx => begins_mfi l hx hvolume
  · exact begins_pivot args args' hn
  · exact begins_ichimokuCall hn hs
  · exact .na

/-- **Indicator calls do not look ahead** where no column is read as one
number. -/
theorem begins_indicator? (name : String)
    (h : args.Begins n bars.length args') (hn : n ≤ bars.length)
    (hs : args.SameNumbers args' name) :
    Value.Begins n bars.length
      ((indicator? name args (bars.take n)).getD .na)
      ((indicator? name args' bars).getD .na) := by
  unfold indicator?
  split
  · exact begins_compute? name h hn hs
  · exact .na

end Barscript.Builtin

import Barscript.Proofs.Session.Backtest
import Barscript.Proofs.Session.Rules
import Barscript.Proofs.Session.ViewDependence

/-!
# Backtests do not look ahead

A backtest over some bars makes the trades that a backtest over more bars
makes on the same bars, if no guard looks at the newest bar where it should
not (`CausalGuards`). The two runs go through the common bars in lockstep:
every guard holds in one when it holds in the other, so the progress is the
same. Afterwards the longer run only adds later trades.
-/

namespace Barscript.Session

open Barscript.Script Barscript.Series Barscript.Builtin Barscript.Market
open Barscript.Trading

/-- What the guards read. -/
def World.guardScope (w : World) : Scope w :=
  .of w w.IsGuard

/-- No guard looks at the newest bar where it should not: the indicator calls
that it reads do not look at the newest of all bars, and a guard that is
evaluated once over all bars gives no column to `nz` as the replacement. -/
structure CausalGuards (w : World) : Prop where
  causal : ∀ g, w.IsGuard g → Causal w w.guardScope [] g
  replacements : ∀ g, w.IsGuard g → dependsOnView w.strategy g = false →
    PlainReplacements w w.guardScope [] g

/-! ## One bar -/

section

variable {w : World} {n : Nat} {p : Position}

/-- Two memories, the first over a prefix of the bars. -/
structure MemoriesBegin (w : World) (n : Nat) (a b : Memory) : Prop where
  cache : CachesBegin w w.guardScope [] n a.cache b.cache
  guards : ∀ key, Option.Rel (Value.Begins n w.bars.length)
    (a.guards.lookup key) (b.guards.lookup key)

theorem MemoriesBegin.empty (w : World) (n : Nat) :
    MemoriesBegin w n ⟨[], []⟩ ⟨[], []⟩ :=
  ⟨⟨fun _ => .none, .first⟩, fun _ => .none⟩

/-- The guards that were evaluated before, with one more. -/
theorem guards_cons {gs gs' : List ((GuardKey × Position) × Value)}
    (h : ∀ key, Option.Rel (Value.Begins n w.bars.length) (gs.lookup key)
      (gs'.lookup key))
    {v v' : Value} (hv : Value.Begins n w.bars.length v v')
    (key other : GuardKey × Position) :
    Option.Rel (Value.Begins n w.bars.length)
      (((key, v) :: gs).lookup other) (((key, v') :: gs').lookup other) := by
  rw [List.lookup_cons, List.lookup_cons]
  split
  · exact .some hv
  · exact h other

/-- A guard holds at a bar over the prefix when it does over all bars. -/
theorem together_guardHoldsAt (ho : w.PlainOverrides) (h : CausalGuards w)
    (hn : n ≤ w.bars.length) (key : GuardKey) {guard : Option Expr}
    (hguard : ∀ g, guard = some g → w.IsGuard g) {i : Nat} (hi : i < n) :
    Together (MemoriesBegin w n) Eq
      (((w.holding p).upTo n).guardHoldsAt key guard i)
      ((w.holding p).guardHoldsAt key guard i) := by
  cases guard with
  | none => exact .pure rfl
  | some g =>
      have hg : w.IsGuard g := hguard g rfl
      have hmem : w.guardScope.contains w.definitions g := .root hg
      intro a b hab
      cases hview : dependsOnView w.strategy g with
      | true =>
          -- Evaluated in the view of the bar, which is the same on both sides.
          have hviews : Views n w.bars.length (i + 1) (i + 1) :=
            ⟨hn, hi, by omega, Nat.le_refl _⟩
          obtain ⟨hvalue, hcache⟩ := together_evaluate ho p hviews g
            ⟨hmem, Or.inl rfl, Or.inr (h.causal g hg)⟩ _ _ hab.cache
          rw [guardHoldsAt_view (w := w.holding p) hview,
            guardHoldsAt_view (w := (w.holding p).upTo n) hview]
          exact ⟨congrArg Value.isTruthy hvalue.eq, hcache, hab.guards⟩
      | false =>
          -- Read off a column over all bars, at a bar that both sides have.
          have hfree := allViewFree_of_dependsOnView hview
            (h.replacements g hg hview)
          rcases rel_cases (hab.guards (key, p)) with
            ⟨ha, hb⟩ | ⟨v, v', ha, hb, hv⟩
          · obtain ⟨hvalue, hcache⟩ := together_evaluate ho p (.all hn) g
              ⟨hmem, Or.inr hfree, Or.inr (h.causal g hg)⟩ _ _ hab.cache
            have hprefix : ((w.holding p).upTo n).value g =
                evaluate ((w.holding p).upTo n) w.definitions n g := by
              rw [World.value, length_upTo (w := w.holding p) hn]
              rfl
            rw [guardHoldsAt_miss (w := w.holding p) hview hb,
              guardHoldsAt_miss (w := (w.holding p).upTo n) hview ha,
              hprefix]
            exact ⟨hvalue.truthyAt_eq hi, hcache,
              guards_cons hab.guards hvalue (key, p)⟩
          · rw [guardHoldsAt_hit (w := w.holding p) hview hb,
              guardHoldsAt_hit (w := (w.holding p).upTo n) hview ha]
            exact ⟨hv.truthyAt_eq hi, hab⟩

/-- The bars of the prefix bring the same progress in both runs. -/
theorem together_over (ho : w.PlainOverrides) (h : CausalGuards w)
    (hn : n ≤ w.bars.length) (q : Progress) (bars : List Bar) (i : Nat)
    (hi : i + bars.length ≤ n) :
    Together (MemoriesBegin w n) Eq (q.over (w.upTo n) i bars)
      (q.over w i bars) := by
  have hanswered : AnsweredAlike (MemoriesBegin w n) (w.upTo n) w
      (w.upTo n).remembered w.remembered n := by
    intro p key index hindex
    exact together_guardHoldsAt (p := p) ho h hn key
      (fun _ hg => isGuard_of_guardOf? hg) hindex
  rw [over_eq_overBy, over_eq_overBy]
  exact together_overBy (.refl w.strategy) hanswered q i bars hi

/-! ## The whole run -/

/-- The progress over more bars holds the progress over the first ones. -/
theorem extends_backtest (ho : w.PlainOverrides) (h : CausalGuards w)
    (hn : n ≤ w.bars.length) (hpositive : 0 < n) (capital : Float) :
    Extends ((w.upTo n).backtest capital ⟨[], []⟩).1
      (w.backtest capital ⟨[], []⟩).1 n w.bars.length
      (w.bars.length - n) := by
  have htail : w.bars.tail =
      (w.bars.take n).tail ++ w.bars.drop n := by
    rw [← List.tail_append_of_ne_nil, List.take_append_drop]
    intro hnil
    have hlength := congrArg List.length hnil
    rw [List.length_take, Nat.min_eq_left hn] at hlength
    exact Nat.ne_of_gt hpositive hlength
  have hlength : (w.bars.take n).tail.length = n - 1 := by
    rw [List.length_tail, List.length_take, Nat.min_eq_left hn]
  obtain ⟨hsame, _⟩ := together_over ho h hn (.start capital)
    (w.bars.take n).tail 1 (by rw [hlength]; omega) _ _ (.empty w n)
  unfold World.backtest
  rw [htail, over_append, hlength, Nat.add_sub_cancel' hpositive]
  obtain ⟨r, hr⟩ : ∃ r, (Progress.start capital).over w 1
    (w.bars.take n).tail ⟨[], []⟩ = r := ⟨_, rfl⟩
  have hwhole : ((do
      let q ← (Progress.start capital).over w 1 (w.bars.take n).tail
      q.over w n (w.bars.drop n) : Remembering Progress) ⟨[], []⟩).1 =
      (r.1.over w n (w.bars.drop n) r.2).1 := by
    rw [← hr]
    rfl
  rw [hr] at hsame
  rw [hwhole]
  show Extends ((Progress.start capital).over (w.upTo n) 1
    (w.bars.take n).tail ⟨[], []⟩).1 _ _ _ _
  rw [hsame]
  have hrest := extends_over w r.1 n (w.bars.drop n) r.2
  rw [List.length_drop, Nat.add_sub_cancel' hn] at hrest
  exact hrest

/-- A run trades on the bars of its world but the first, and notes the
capital once for each of them. -/
theorem extends_start (w : World) (capital : Float) :
    Extends (.start capital) (w.backtest capital ⟨[], []⟩).1 1
      (1 + (w.bars.length - 1)) (w.bars.length - 1) := by
  have hover := extends_over w (.start capital) 1 w.bars.tail ⟨[], []⟩
  rw [List.length_tail] at hover
  exact hover

theorem trades_upTo (ho : w.PlainOverrides) (h : CausalGuards w)
    (hn : n ≤ w.bars.length) (capital : Float) :
    ((w.upTo n).backtest capital ⟨[], []⟩).1.trades =
      (w.backtest capital ⟨[], []⟩).1.trades.filter (fun t => t.bar < n) := by
  by_cases hzero : n = 0
  · subst hzero
    obtain ⟨added, htrades, hbars⟩ := (extends_start w capital).trades
    have hnone : (w.backtest capital ⟨[], []⟩).1.trades.filter
        (fun t => t.bar < 0) = [] := by
      rw [List.filter_eq_nil_iff]
      intro t _ ht
      exact Nat.not_lt_zero _ (of_decide_eq_true ht)
    rw [hnone]
    rfl
  · have hpositive : 0 < n := Nat.pos_of_ne_zero hzero
    obtain ⟨late, hlate, hafter⟩ :=
      (extends_backtest ho h hn hpositive capital).trades
    obtain ⟨early, hearly, hbefore⟩ :=
      (extends_start (w.upTo n) capital).trades
    rw [length_upTo hn] at hbefore
    -- All trades over the first bars are kept, all that are added are dropped.
    have hkept : ((w.upTo n).backtest capital ⟨[], []⟩).1.trades.filter
        (fun t => t.bar < n) =
        ((w.upTo n).backtest capital ⟨[], []⟩).1.trades := by
      rw [List.filter_eq_self]
      intro t ht
      rw [hearly] at ht
      have hbar := (hbefore t ht).2
      exact decide_eq_true (by omega)
    have hdropped : late.filter (fun t => t.bar < n) = [] := by
      rw [List.filter_eq_nil_iff]
      intro t ht hlt
      exact Nat.not_lt_of_le (hafter t ht).1 (of_decide_eq_true hlt)
    rw [hlate, List.filter_append, hkept, hdropped, List.append_nil]

theorem curve_upTo (ho : w.PlainOverrides) (h : CausalGuards w)
    (hn : n ≤ w.bars.length) (hpositive : 0 < n) (capital : Float) :
    ((w.upTo n).backtest capital ⟨[], []⟩).1.curve =
      (w.backtest capital ⟨[], []⟩).1.curve.take n := by
  obtain ⟨late, hlate, _⟩ := (extends_backtest ho h hn hpositive capital).curve
  obtain ⟨notes, hnotes, hlength⟩ := (extends_start (w.upTo n) capital).curve
  rw [length_upTo hn] at hlength
  have hall : ((w.upTo n).backtest capital ⟨[], []⟩).1.curve.length = n := by
    rw [hnotes, List.length_append, hlength]
    show 1 + (n - 1) = n
    omega
  rw [hlate, List.take_left' hall]

end

/-- **No look-ahead.** In every state that a session can reach, if no guard
looks at the newest bar where it should not, the trades over `xs` are the
trades over `xs ++ ys` on the bars of `xs`, and so is the equity curve. -/
theorem runBacktest_prefix {strategy : Strategy} {symbol : String}
    {s : Session} (hs : Reached strategy symbol s) (config : Config)
    (xs ys : List Bar)
    (h : CausalGuards (s.loadBars (xs ++ ys)).toWorld) :
    ((s.loadBars xs).runBacktest config).1.trades =
        ((s.loadBars (xs ++ ys)).runBacktest config).1.trades.filter
          (fun t => t.bar < xs.length) ∧
      (xs ≠ [] →
        ((s.loadBars xs).runBacktest config).1.curve =
          ((s.loadBars (xs ++ ys)).runBacktest config).1.curve.take
            xs.length) := by
  have ho : (s.loadBars (xs ++ ys)).toWorld.PlainOverrides :=
    (sound_of_reached hs).overrides
  generalize hw : (s.loadBars (xs ++ ys)).toWorld = w at h ho
  have hbars : w.bars = xs ++ ys := by
    rw [← hw]
    rfl
  have hupTo : (s.loadBars xs).toWorld = w.upTo xs.length := by
    rw [World.upTo, hbars, List.take_left, ← hw]
    rfl
  have hn : xs.length ≤ w.bars.length := by
    rw [hbars, List.length_append]
    omega
  show ((s.loadBars xs).toWorld.backtest config.capital ⟨[], []⟩).1.trades =
      ((s.loadBars (xs ++ ys)).toWorld.backtest config.capital
        ⟨[], []⟩).1.trades.filter _ ∧
    (_ → ((s.loadBars xs).toWorld.backtest config.capital ⟨[], []⟩).1.curve =
      ((s.loadBars (xs ++ ys)).toWorld.backtest config.capital
        ⟨[], []⟩).1.curve.take _)
  rw [hw, hupTo]
  refine ⟨trades_upTo ho h hn config.capital, ?_⟩
  intro hxs
  exact curve_upTo ho h hn (List.length_pos_iff.mpr hxs) config.capital

/-- A bar that opens and closes at one price. -/
def stillBar (price : Float) : Bar :=
  ⟨⟨0, 0⟩, price, price, price, price, 0.0⟩

/-- A strategy that enters when the close crosses the open. -/
def crossingStrategy : Strategy :=
  { entries := [
      { id := none, function := "strategy.entry", direction := .long
        guard := some (.call 0 "ta.crossover"
          [⟨none, .ref "close"⟩, ⟨none, .ref "open"⟩])
        quantity := none, stop := none, target := none }] }

theorem causalGuards_crossing (bars : List Bar) :
    CausalGuards ((start crossingStrategy "").loadBars bars).toWorld := by
  generalize hw : ((start crossingStrategy "").loadBars bars).toWorld = w
  have hguard : ∀ g, w.IsGuard g → g = .call 0 "ta.crossover"
      [⟨none, .ref "close"⟩, ⟨none, .ref "open"⟩] := by
    subst hw
    rintro g (⟨entry, hentry, hg⟩ | ⟨exit, hexit, _⟩)
    · obtain rfl := List.mem_singleton.mp hentry
      exact (Option.some.inj hg).symm
    · cases hexit
  have hread : ∀ {into g f}, w.IsGuard g → Reads w into g f →
      f = g ∨ isLeaf f = true := by
    intro into g f hg hreads
    rw [hguard g hg] at hreads ⊢
    refine reads_call_of_isLeaf ?_ hreads
    decide
  constructor
  · intro g hg id name args hname hreads
    rcases hread hg hreads with heq | heq
    · rw [hguard g hg] at heq
      cases heq
      refine ⟨fun _ _ _ _ _ slot hslot => absurd hslot List.not_mem_nil, ?_⟩
      intro a ha f hf
      have hvalue : a.value = .ref "close" ∨ a.value = .ref "open" := by
        rcases List.mem_cons.mp ha with rfl | ha
        · exact Or.inl rfl
        · obtain rfl := List.mem_singleton.mp ha
          exact Or.inr rfl
      have hleaf : isLeaf a.value = true := by
        rcases hvalue with hvalue | hvalue <;> (rw [hvalue]; rfl)
      rcases hf.cases_head with rfl | ⟨e, hpart, _⟩
      · rcases hvalue with hvalue | hvalue <;>
          (rw [hvalue]; show _ ≠ newestBarName; decide)
      · exact absurd hpart (not_part_of_isLeaf hleaf)
    · cases heq
  · intro g hg _ id args hreads
    rcases hread hg hreads with heq | heq
    · rw [hguard g hg] at heq
      injection heq with _ hname _
      exact absurd hname (by decide)
    · cases heq

/-- Two bars and a later one that do not matter to the first two. -/
theorem runBacktest_prefix_crossing :
    ((start crossingStrategy "").loadBars
          [stillBar 3.0, stillBar 5.0]).runBacktest .default |>.1.trades =
        ((((start crossingStrategy "").loadBars ([stillBar 3.0, stillBar 5.0] ++
          [stillBar 20.0])).runBacktest .default).1.trades.filter
            (fun t => t.bar < [stillBar 3.0, stillBar 5.0].length)) ∧
      ([stillBar 3.0, stillBar 5.0] ≠ [] →
        (((start crossingStrategy "").loadBars
          [stillBar 3.0, stillBar 5.0]).runBacktest .default).1.curve =
        (((start crossingStrategy "").loadBars ([stillBar 3.0, stillBar 5.0] ++
          [stillBar 20.0])).runBacktest .default).1.curve.take
            [stillBar 3.0, stillBar 5.0].length) :=
  runBacktest_prefix .start .default [stillBar 3.0, stillBar 5.0]
    [stillBar 20.0] (causalGuards_crossing _)

/-- A script whose guard compares the close with a level that the newest bar
decides on. -/
def hindsightScript : String :=
  "strategy.entry(\"L\", strategy.long, when=ta.crossover(close, close > 10 ? 4 : 6))"

/-- The bars at which a backtest of a script trades. -/
def tradedBars (source : String) (bars : List Bar) : Option (List Nat) :=
  (Strategy.parse source).toOption.map fun strategy =>
    (backtest strategy .default [] bars).trades.map Trade.bar

/-- With hindsight the close crossed the level at bar 1, without it did not. -/
theorem tradedBars_hindsight :
    tradedBars hindsightScript [stillBar 3.0, stillBar 5.0] = some [] ∧
      tradedBars hindsightScript
        ([stillBar 3.0, stillBar 5.0] ++ [stillBar 20.0]) = some [1] := by
  decide +kernel

/-- Without a condition on the guards a backtest may look ahead. -/
theorem backtest_looks_ahead :
    ¬∀ (source : String) (strategy : Strategy) (config : Config)
      (xs ys : List Bar), Strategy.parse source = .ok strategy →
      (backtest strategy config [] xs).trades =
          (backtest strategy config [] (xs ++ ys)).trades.filter
            (fun t => t.bar < xs.length) ∧
        (xs ≠ [] → (backtest strategy config [] xs).curve =
          (backtest strategy config [] (xs ++ ys)).curve.take xs.length) := by
  intro hclaim
  obtain ⟨hshort, hlong⟩ := tradedBars_hindsight
  unfold tradedBars at hshort hlong
  obtain ⟨strategy, hparse, hnone⟩ := exists_ok_of_map hshort
  rw [hparse] at hlong
  have htrades := (hclaim hindsightScript strategy .default
    [stillBar 3.0, stillBar 5.0] [stillBar 20.0] hparse).1
  have hnone := List.map_eq_nil_iff.mp hnone
  obtain ⟨t, hone, hbar⟩ :=
    List.map_eq_singleton_iff.mp (Option.some.inj hlong)
  have hkept : t.bar < [stillBar 3.0, stillBar 5.0].length := by
    rw [hbar]
    decide
  rw [hnone, hone, List.filter_cons, if_pos (decide_eq_true hkept)]
    at htrades
  cases htrades

end Barscript.Session

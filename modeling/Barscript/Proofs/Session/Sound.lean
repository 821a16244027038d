import Barscript.Proofs.Session.Keeps
import Barscript.Proofs.Session.Lockstep

/-!
# Sessions in any state

`Reached` are the sessions that the operations lead to: setting inputs that
are no columns, loading bars, evaluating anything in any view, answering bars,
running backtests. In each of them the cache is *sound*: every column in it
has one number for each loaded bar.
-/

namespace Barscript.Session

open Barscript.Script Barscript.Series Barscript.Builtin Barscript.Market
open Barscript.Trading

/-! ## Sound caches -/

/-- Every column in the cache has one number for each of `m` bars. -/
def SoundCache (m : Nat) (c : Cache) : Prop :=
  ∀ id v, c.lookup id = some v → Value.Begins m m v v

theorem SoundCache.empty (m : Nat) : SoundCache m [] := by
  intro id v hv
  cases hv

section

variable {w : World} {m : Nat}

theorem upTo_length (w : World) : w.upTo w.bars.length = w := by
  rw [World.upTo, List.take_length]

theorem SoundCache.cachesBegin (scope : Scope w) {c : Cache}
    (h : SoundCache w.bars.length c) :
    CachesBegin w scope c w.bars.length c c where
  lookup id := by
    cases hv : c.lookup id with
    | none => exact .none
    | some v => exact .some (h id v hv)
  cached := .first

theorem CachesBegin.sound {scope : Scope w} {first c d : Cache}
    (h : CachesBegin w scope first w.bars.length c d) :
    SoundCache w.bars.length d := by
  intro id v hv
  have hlookup := h.lookup id
  rw [hv] at hlookup
  cases hcu : c.lookup id with
  | none =>
      rw [hcu] at hlookup
      cases hlookup
  | some u =>
      rw [hcu] at hlookup
      cases hlookup with
      | some huv =>
          rw [huv.eq] at huv
          exact huv

/-- Evaluation in a view of the loaded bars keeps the cache sound. -/
theorem keeps_evaluate (ho : w.PlainOverrides) {available : Definitions}
    (ha : available.Sublist w.definitions) {shown : Nat}
    (hs : shown ≤ w.bars.length) (e : Expr) :
    Keeps (SoundCache w.bars.length) (evaluate w available shown e) := by
  intro c hc
  have hviews : Views w.bars.length w.bars.length shown shown :=
    ⟨Nat.le_refl _, hs, hs, Nat.le_refl _⟩
  -- Compared with itself: sound is what begins itself over the same bars.
  have hcomparable : Comparable w (Scope.full w) c w.bars.length shown shown
      available e := ⟨ha, Or.inl rfl, Or.inl rfl⟩
  have htogether := together_evaluate ho w.position hviews e hcomparable c c
    (hc.cachesBegin _)
  exact htogether.2.sound

theorem keeps_valueOn (ho : w.PlainOverrides) {shown : Nat}
    (hs : shown ≤ w.bars.length) (e : Expr) :
    Keeps (SoundCache w.bars.length) (w.valueOn shown e) :=
  keeps_evaluate ho (List.Sublist.refl _) hs e

end

/-! ## Reached sessions -/

/-- The sessions of a strategy that operations lead to. -/
inductive Reached (strategy : Strategy) (symbol : String) :
    Session → Prop where
  | start : Reached strategy symbol (start strategy symbol)
  | setInput {s : Session} (h : Reached strategy symbol s) (name : String)
      {value : Value} (hv : value.isColumn = false) :
      Reached strategy symbol (s.setInput name value)
  | loadBars {s : Session} (h : Reached strategy symbol s)
      (bars : List Bar) : Reached strategy symbol (s.loadBars bars)
  | holding {s : Session} (h : Reached strategy symbol s) (p : Position) :
      Reached strategy symbol { s with position := p }
  | evaluate {s : Session} (h : Reached strategy symbol s) {shown : Nat}
      (hs : shown ≤ s.bars.length) (e : Expr) :
      Reached strategy symbol (s.run fun w => w.valueOn shown e).2
  | resolveName {s : Session} (h : Reached strategy symbol s)
      (name : String) : Reached strategy symbol (s.resolveName name).2
  | processBar {s : Session} (h : Reached strategy symbol s) (bar : Bar) :
      Reached strategy symbol (s.processBar bar).2
  | runBacktest {s : Session} (h : Reached strategy symbol s)
      (config : Config) : Reached strategy symbol (s.runBacktest config).2

/-- What holds of every reached session: no input was replaced by a column,
and the cache is sound. -/
structure Sound (s : Session) : Prop where
  overrides : s.PlainOverrides
  cache : SoundCache s.bars.length s.cache

theorem plainOverrides_insert {w : World} (ho : w.PlainOverrides)
    (name : String) {value : Value} (hv : value.isColumn = false) :
    ({ w with overrides := w.overrides.insert name value }
      : World).PlainOverrides := by
  intro other v hother
  have hinsert : (w.overrides.insert name value)[other]? = some v := hother
  rw [Std.ExtTreeMap.getElem?_insert] at hinsert
  split at hinsert
  · cases hinsert
    exact hv
  · exact ho other v hinsert

/-- What evaluation keeps in caches holds of every reached cache, if it holds
of the empty one. -/
theorem Reached.kept {P : Nat → Cache → Prop} (hempty : ∀ m, P m [])
    (hkeeps : ∀ w : World, w.PlainOverrides → ∀ {shown : Nat},
      shown ≤ w.bars.length → ∀ e,
        Keeps (P w.bars.length) (w.valueOn shown e))
    {strategy : Strategy} {symbol : String} {s : Session}
    (h : Reached strategy symbol s) :
    s.PlainOverrides ∧ P s.bars.length s.cache := by
  have hstates : ∀ w : World, w.PlainOverrides →
      KeptByStates w (P w.bars.length) :=
    fun w ho p _ e hs _ => hkeeps (w.holding p) ho hs e
  induction h with
  | start =>
      refine ⟨?_, hempty _⟩
      intro name v hv
      have hnone : (∅ : Bindings Value)[name]? = some v := hv
      rw [Std.ExtTreeMap.getElem?_empty] at hnone
      cases hnone
  | setInput _ name hv ih =>
      exact ⟨plainOverrides_insert ih.1 name hv, hempty _⟩
  | loadBars _ bars ih => exact ⟨ih.1, hempty _⟩
  | holding _ p ih => exact ih
  | evaluate _ hs e ih => exact ⟨ih.1, hkeeps _ ih.1 hs e _ ih.2⟩
  | @resolveName s _ name ih =>
      refine ⟨ih.1, ?_⟩
      have hname := hkeeps _ ih.1 (Nat.le_refl _) (.ref name)
      unfold World.valueOn at hname
      rw [Session.evaluate] at hname
      exact hname _ ih.2
  | @processBar s _ bar ih =>
      have hplain : (s.loadBars (s.bars ++ [bar])).PlainOverrides := ih.1
      exact ⟨ih.1,
        keeps_decide (hstates _ hplain) s.entryQuantity [] (hempty _)⟩
  | runBacktest _ config ih =>
      exact ⟨ih.1,
        keeps_backtest (hstates _ ih.1) config.capital ⟨[], []⟩ (hempty _)⟩

/-- **Every reached session is sound.** -/
theorem sound_of_reached {strategy : Strategy} {symbol : String}
    {s : Session} (h : Reached strategy symbol s) : Sound s := by
  obtain ⟨hplain, hcache⟩ := h.kept SoundCache.empty
    fun w ho {_} hs e => keeps_valueOn (w := w) ho hs e
  exact ⟨hplain, hcache⟩

end Barscript.Session

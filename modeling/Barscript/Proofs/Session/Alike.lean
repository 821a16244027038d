import Barscript.Proofs.Script.Identities
import Barscript.Proofs.Session.Backtest
import Barscript.Proofs.Session.Rules

/-!
# Worlds that answer alike

Two worlds with the same rules and bars answer a bar alike, and their backtests
make the same progress, when the expressions of the rules have the same values
in both. The caches of both sides may differ: a relation between them is what
every evaluation keeps.
-/

namespace Barscript.Session

open Barscript.Script Barscript.Series Barscript.Market Barscript.Trading

/-- An expression that a rule of the strategy states. -/
inductive RuleStates (s : Strategy) : Expr → Prop where
  | entry {entry : Entry} (h : entry ∈ s.entries) {e : Expr}
      (he : entry.States e) : RuleStates s e
  | exit {exit : Exit} (h : exit ∈ s.exits) {e : Expr}
      (he : exit.guard = some e) : RuleStates s e

theorem RuleStates.states {s : Strategy} {e : Expr} (h : RuleStates s e) :
    s.States e := by
  cases h with
  | entry h he => exact .entry h he
  | exit h he => exact .exit h he

/-- A guard is stated by its rule. -/
theorem ruleStates_of_isGuard {w : World} {g : Expr} (h : w.IsGuard g) :
    RuleStates w.strategy g := by
  rcases h with ⟨entry, hentry, hg⟩ | ⟨exit, hexit, hg⟩
  · exact .entry hentry (List.mem_cons.mpr (Or.inl hg.symm))
  · exact .exit hexit hg

/-- The worlds have the same rules and bars, and from related caches the
expressions of the rules have the same values in every position. The values of
the indicator calls may differ. -/
structure Alike (w w' : World) (R : Cache → Cache → Prop) : Prop where
  symbol : w'.symbol = w.symbol
  bars : w'.bars = w.bars
  position : w'.position = w.position
  indicators : w'.strategy.indicators = w.strategy.indicators
  entries : w'.strategy.entries = w.strategy.entries
  exits : w'.strategy.exits = w.strategy.exits
  view : ∀ {e : Expr}, RuleStates w.strategy e →
    dependsOnView w'.strategy e = dependsOnView w.strategy e
  values : ∀ (p : Position) {shown : Nat} {e : Expr},
    shown ≤ w.bars.length → RuleStates w.strategy e →
    Together R Eq ((w.holding p).valueOn shown e)
      ((w'.holding p).valueOn shown e)
  calls : ∀ (p : Position) {e : Expr}, e ∈ w.strategy.indicators →
    Together R (fun _ _ => True) ((w.holding p).value e)
      ((w'.holding p).value e)

section

variable {w w' : World} {R : Cache → Cache → Prop}

theorem Alike.holding (h : Alike w w' R) (p : Position) :
    Alike (w.holding p) (w'.holding p) R where
  symbol := h.symbol
  bars := h.bars
  position := rfl
  indicators := h.indicators
  entries := h.entries
  exits := h.exits
  view := h.view
  values := h.values
  calls := h.calls

/-! ## Answering a bar -/

theorem Alike.holding_position (h : Alike w w' R) :
    w'.holding w.position = w' := by
  rw [← h.position]
  rfl

theorem Alike.value (h : Alike w w' R) {e : Expr}
    (he : RuleStates w.strategy e) :
    Together R Eq (w.value e) (w'.value e) := by
  have hvalue := h.values w.position (Nat.le_refl _) he
  rw [h.holding_position] at hvalue
  unfold World.value
  rw [h.bars]
  exact hvalue

/-- Each rule corresponds to itself. -/
theorem Alike.rules (h : Alike w w' R) :
    RulesAlike w w' R fun e e' => e' = e ∧ RuleStates w.strategy e where
  symbol := h.symbol
  bars := h.bars
  position := h.position
  entries := by
    rw [h.entries]
    refine List.forall₂_same.mpr fun entry hentry => ?_
    have hself : ∀ e ∈ [entry.guard, entry.quantity, entry.stop,
        entry.target], Option.Rel (fun e e' => e' = e ∧
          RuleStates w.strategy e) e e := by
      rintro (_ | e) he
      · exact .none
      · exact .some ⟨rfl, .entry hentry he⟩
    refine ⟨rfl, hself _ ?_, hself _ ?_, hself _ ?_, hself _ ?_⟩ <;> simp
  exits := by
    rw [h.exits]
    refine List.forall₂_same.mpr fun exit hexit => ?_
    unfold ExitMatches
    cases hguard : exit.guard with
    | none => exact .none
    | some e => exact .some ⟨rfl, .exit hexit hguard⟩
  values := by
    rintro e _ ⟨rfl, he⟩
    exact h.value he
  calls := by
    rw [h.indicators]
    refine List.forall₂_same.mpr fun call hcall => ?_
    have hvalue := h.calls w.position hcall
    rw [h.holding_position] at hvalue
    unfold World.value at hvalue ⊢
    exact hvalue

/-- **Alike worlds decide alike.** -/
theorem Alike.decide (h : Alike w w' R) (quantity : Float) :
    Together R Eq (w.decide quantity) (w'.decide quantity) :=
  h.rules.decide quantity

/-! ## Backtests -/

theorem Alike.directions (h : Alike w w' R) :
    SameDirections w.strategy w'.strategy where
  entries := by
    rw [h.entries]
    exact List.forall₂_same.mpr fun _ _ => rfl
  exits := by
    rw [h.exits]
    exact List.forall₂_same.mpr fun _ _ => trivial

/-- The caches inside of two memories are related, and the guards are the
same. -/
structure MemoriesMatch (R : Cache → Cache → Prop) (m m' : Memory) : Prop where
  cache : R m.cache m'.cache
  guards : m'.guards = m.guards

theorem Alike.guardHoldsAt (h : Alike w w' R) (key : GuardKey)
    (guard : Option Expr)
    (hguard : ∀ g, guard = some g → RuleStates w.strategy g) {index : Nat}
    (hi : index < w.bars.length) :
    Together (MemoriesMatch R) Eq (w.guardHoldsAt key guard index)
      (w'.guardHoldsAt key guard index) := by
  rintro m m' ⟨hcache, hguards⟩
  cases guard with
  | none => exact ⟨rfl, hcache, hguards⟩
  | some g =>
      have hstates := hguard g rfl
      have hview := h.view hstates
      cases hdepends : dependsOnView w.strategy g with
      | true =>
          rw [guardHoldsAt_view hdepends,
            guardHoldsAt_view (hview.trans hdepends)]
          have hvalue := h.values w.position hi hstates
          rw [h.holding_position] at hvalue
          obtain ⟨heq, hafter⟩ := hvalue m.cache m'.cache hcache
          exact ⟨congrArg Value.isTruthy heq, hafter, hguards⟩
      | false =>
          have hdepends' := hview.trans hdepends
          have hlookup : m'.guards.lookup (key, w'.position) =
              m.guards.lookup (key, w.position) := by
            rw [hguards, h.position]
          cases hknown : m.guards.lookup (key, w.position) with
          | some v =>
              rw [guardHoldsAt_hit hdepends hknown,
                guardHoldsAt_hit hdepends' (hlookup.trans hknown)]
              exact ⟨rfl, hcache, hguards⟩
          | none =>
              rw [guardHoldsAt_miss hdepends hknown,
                guardHoldsAt_miss hdepends' (hlookup.trans hknown)]
              obtain ⟨heq, hafter⟩ :=
                h.value hstates m.cache m'.cache hcache
              rw [← heq, hguards, h.position]
              exact ⟨rfl, hafter, rfl⟩

theorem Alike.answered (h : Alike w w' R) :
    AnsweredAlike (MemoriesMatch R) w w' w.remembered w'.remembered
      w.bars.length := by
  intro p key index hindex
  have hsame : w'.guardOf? key = w.guardOf? key := by
    cases key with
    | entry k => exact congrArg (fun l => l[k]?.bind Entry.guard) h.entries
    | exit k => exact congrArg (fun l => l[k]?.bind Exit.guard) h.exits
  rw [hsame]
  exact (h.holding p).guardHoldsAt key (w.guardOf? key)
    (fun _ hg => ruleStates_of_isGuard (isGuard_of_guardOf? hg)) hindex

/-- **Alike worlds make the same progress.** -/
theorem Alike.backtest (h : Alike w w' R) (capital : Float) :
    Together (MemoriesMatch R) Eq (w.backtest capital)
      (w'.backtest capital) := by
  unfold World.backtest
  rw [over_eq_overBy, over_eq_overBy]
  exact together_backtestBy h.directions h.bars h.answered (.start capital)

end

/-! ## Sessions -/

section

variable {s t : Session} {R : Cache → Cache → Prop}

/-- Sessions in alike worlds give one report. -/
theorem Alike.runBacktest (h : Alike s.toWorld t.toWorld R) (hempty : R [] [])
    (config : Config) : (s.runBacktest config).1 = (t.runBacktest config).1 := by
  obtain ⟨hprogress, -⟩ :=
    h.backtest config.capital ⟨[], []⟩ ⟨[], []⟩ ⟨hempty, rfl⟩
  exact congrArg (fun q : Progress => Report.of config q.trades q.curve)
    hprogress

/-- **Sessions whose worlds are alike over any bars answer bars with the same
signals.** -/
theorem signals_alike
    (h : ∀ bars p, ∃ R, R [] [] ∧
      Alike (s.toWorld.showing bars p) (t.toWorld.showing bars p) R)
    (hbars : t.bars = s.bars) (hposition : t.position = s.position)
    (hquantity : t.entryQuantity = s.entryQuantity) (index : Nat)
    (bars : List Bar) : s.signals index bars = t.signals index bars := by
  refine signals_of_decide ?_ hbars hposition hquantity index bars
  intro bars p quantity
  obtain ⟨R, hempty, halike⟩ := h bars p
  exact (halike.decide quantity [] [] hempty).1

end

end Barscript.Session

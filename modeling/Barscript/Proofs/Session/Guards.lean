import Barscript.Proofs.Session.Backtest
import Barscript.Proofs.Session.Recall
import Barscript.Proofs.Session.Rules

/-!
# What is remembered for guards does not show

A backtest evaluates a guard that does not depend on the view once for each
position and remembers its value over all bars. Evaluating it anew at every bar
would give the same answers and leave the same values of indicator calls: an
evaluation that is done again changes nothing. So a backtest can be followed
without its memory of guards.
-/

namespace Barscript.Session

open Barscript.Script Barscript.Series Barscript.Market Barscript.Trading

/-- Whether a guard holds at a bar, seen in the view that ends there or read
off its value over all bars. -/
def World.readGuard (w : World) (inView : Bool) (g : Expr) (index : Nat) :
    Evaluating Bool :=
  if inView then do
    let value ← w.valueOn (index + 1) g
    pure value.isTruthy
  else do
    let value ← w.value g
    pure (value.truthyAt index)

/-- The answers of a backtest that evaluates every guard anew. -/
def World.anew (w : World) : Answering Cache := fun p _ guard index =>
  match guard with
  | none => pure true
  | some g => (w.holding p).readGuard (dependsOnView w.strategy g) g index

/-- What is remembered for a guard is what it evaluates to from the present
cache on. -/
structure Recalled (w : World) (memory : Memory) (c : Cache) : Prop where
  cache : memory.cache = c
  guards : ∀ {key p v}, memory.guards.lookup (key, p) = some v →
    ∀ {g}, w.guardOf? key = some g → ∀ d, KeptIn c d → (w.holding p).value g d = (v, d)

section

variable {w : World} {memory : Memory} {c d : Cache}

theorem Recalled.empty (w : World) : Recalled w ⟨[], []⟩ [] where
  cache := rfl
  guards hv := by cases hv

/-- The cache has grown. -/
theorem Recalled.grow (h : Recalled w memory c) (hd : KeptIn c d) :
    Recalled w { memory with cache := d } d where
  cache := rfl
  guards hv _ hg e he := h.guards hv hg e (hd.trans he)

/-- One more guard was evaluated over all bars. -/
theorem Recalled.remember (h : Recalled w memory c) {key : GuardKey}
    {g : Expr} (hg : w.guardOf? key = some g) (p : Position) :
    Recalled w
      { cache := ((w.holding p).value g c).2
        guards := ((key, p), ((w.holding p).value g c).1) :: memory.guards }
      ((w.holding p).value g c).2 where
  cache := rfl
  guards := by
    have hrecalls := recalls_valueOn (w.holding p) w.bars.length g
    intro key' p' v hv g' hg' d hd
    rw [List.lookup_cons] at hv
    split at hv
    · rename_i heq
      cases eq_of_beq heq
      rw [hg] at hg'
      cases hg'
      cases hv
      exact hrecalls.again c d hd
    · exact h.guards hv hg' d ((hrecalls.adds c).trans hd)

/-- **The memory of guards does not show in an answer.** -/
theorem answeredAlike_anew (w : World) (limit : Nat) :
    AnsweredAlike (Recalled w) w w w.remembered w.anew limit := by
  intro p key index _ memory c h
  cases hguard : w.guardOf? key with
  | none => exact ⟨rfl, h⟩
  | some g =>
      show ((w.holding p).guardHoldsAt key (some g) index memory).1 =
          ((w.holding p).readGuard (dependsOnView w.strategy g) g index c).1 ∧
        Recalled w ((w.holding p).guardHoldsAt key (some g) index memory).2
          ((w.holding p).readGuard (dependsOnView w.strategy g) g index c).2
      cases hview : dependsOnView w.strategy g with
      | true =>
          have hrecalls := recalls_valueOn (w.holding p) (index + 1) g
          rw [guardHoldsAt_view (w := w.holding p) hview, h.cache]
          exact ⟨rfl, h.grow (hrecalls.adds c)⟩
      | false =>
          cases hknown : memory.guards.lookup (key, p) with
          | some v =>
              have hagain := h.guards hknown hguard c (.refl c)
              rw [guardHoldsAt_hit (w := w.holding p) hview hknown]
              show v.truthyAt index =
                  (((w.holding p).value g c).1).truthyAt index ∧
                Recalled w memory ((w.holding p).value g c).2
              rw [hagain]
              exact ⟨rfl, h⟩
          | none =>
              rw [guardHoldsAt_miss (w := w.holding p) hview hknown, h.cache]
              exact ⟨rfl, h.remember hguard p⟩

/-- **A backtest makes the progress that it would make evaluating every guard
anew.** -/
theorem backtest_anew (w : World) (capital : Float) :
    (w.backtest capital ⟨[], []⟩).1 =
      ((Progress.start capital).overBy w.strategy w.anew 1 w.bars.tail []).1 := by
  unfold World.backtest
  rw [over_eq_overBy]
  have hsame := together_backtestBy (.refl w.strategy) rfl
    (answeredAlike_anew w w.bars.length) (.start capital)
  exact (hsame ⟨[], []⟩ [] (.empty w)).1

end

end Barscript.Session

import Barscript.Session.Backtest
import Barscript.Proofs.Session.Evaluation

/-!
# The backtest, step by step

How a guard is answered, and how the progress over some bars continues over
more: what was done stays, and what is added carries later bar numbers.
-/

namespace Barscript.Session

open Barscript.Script Barscript.Series Barscript.Market Barscript.Trading

section

variable {w : World} {key : GuardKey} {g : Expr} {i : Nat} {memory : Memory}

/-! ## Guards -/

/-- A guard that depends on the view is evaluated in it. -/
theorem guardHoldsAt_view (h : dependsOnView w.strategy g = true) :
    w.guardHoldsAt key (some g) i memory =
      (((w.valueOn (i + 1) g) memory.cache).1.isTruthy,
        { memory with cache := ((w.valueOn (i + 1) g) memory.cache).2 }) := by
  unfold World.guardHoldsAt
  simp only
  rw [if_pos h]
  rfl

/-- Any other guard is read off its value over all bars. -/
theorem guardHoldsAt_hit (h : dependsOnView w.strategy g = false)
    {v : Value} (hv : memory.guards.lookup (key, w.position) = some v) :
    w.guardHoldsAt key (some g) i memory = (v.truthyAt i, memory) := by
  unfold World.guardHoldsAt
  simp only
  rw [if_neg (by rw [h]; exact Bool.false_ne_true)]
  simp only [get_bind, hv]
  rfl

theorem guardHoldsAt_miss (h : dependsOnView w.strategy g = false)
    (hv : memory.guards.lookup (key, w.position) = none) :
    w.guardHoldsAt key (some g) i memory =
      ((w.value g memory.cache).1.truthyAt i,
        { cache := (w.value g memory.cache).2
          guards := ((key, w.position), (w.value g memory.cache).1) ::
            memory.guards }) := by
  unfold World.guardHoldsAt
  simp only
  rw [if_neg (by rw [h]; exact Bool.false_ne_true)]
  simp only [get_bind, hv]
  rfl

end

/-! ## The progress over more bars -/

theorem over_append (w : World) (p : Progress) (index : Nat)
    (xs ys : List Bar) :
    p.over w index (xs ++ ys) =
      (do
        let q ← p.over w index xs
        q.over w (index + xs.length) ys) := by
  induction xs generalizing p index with
  | nil => rfl
  | cons bar rest ih =>
      have hindex : index + (rest.length + 1) = index + 1 + rest.length := by
        omega
      show (do
          let next ← p.trade w bar index
          next.note.over w (index + 1) (rest ++ ys)) =
        (do
          let next ← p.trade w bar index
          let q ← next.note.over w (index + 1) rest
          q.over w (index + (rest.length + 1)) ys)
      rw [hindex]
      congr 1
      funext next
      exact ih next.note (index + 1)

/-- What a step or a run adds to the progress: trades at bars from `low` to
before `high`, and notes of the capital. -/
structure Extends (p q : Progress) (low high notes : Nat) : Prop where
  trades : ∃ added, q.trades = p.trades ++ added ∧
    ∀ t ∈ added, low ≤ t.bar ∧ t.bar < high
  curve : ∃ added, q.curve = p.curve ++ added ∧ added.length = notes

theorem Extends.refl (p : Progress) (low : Nat) :
    Extends p p low low 0 :=
  ⟨⟨[], (List.append_nil _).symm, fun _ ht => absurd ht List.not_mem_nil⟩,
    ⟨[], (List.append_nil _).symm, rfl⟩⟩

theorem Extends.trans {p q r : Progress} {low middle high k l : Nat}
    (h : Extends p q low middle k) (h' : Extends q r middle high l)
    (hlow : low ≤ middle) (hhigh : middle ≤ high) :
    Extends p r low high (k + l) := by
  obtain ⟨trades, htrades, hbars⟩ := h.trades
  obtain ⟨trades', htrades', hbars'⟩ := h'.trades
  obtain ⟨curve, hcurve, hlength⟩ := h.curve
  obtain ⟨curve', hcurve', hlength'⟩ := h'.curve
  refine ⟨⟨trades ++ trades', ?_, ?_⟩, ⟨curve ++ curve', ?_, ?_⟩⟩
  · rw [htrades', htrades, List.append_assoc]
  · intro t ht
    rcases List.mem_append.mp ht with ht | ht
    · exact ⟨(hbars t ht).1, by have := (hbars t ht).2; omega⟩
    · exact ⟨by have := (hbars' t ht).1; omega, (hbars' t ht).2⟩
  · rw [hcurve', hcurve, List.append_assoc]
  · rw [List.length_append, hlength, hlength']

theorem bind_pure_fst {σ α β : Type} (x : StateM σ α) (f : α → β) (s : σ) :
    ((x >>= fun a => pure (f a)) s).1 = f (x s).1 :=
  rfl

/-- A bar leaves the progress as it is, enters when nothing is held, or leaves
what is held. -/
theorem trade_cases (w : World) (p : Progress) (bar : Bar) (index : Nat)
    (memory : Memory) :
    (p.trade w bar index memory).1 = p ∨
      (∃ d, p.position = .flat ∧
        (p.trade w bar index memory).1 = p.enter d bar index) ∨
      ∃ d, p.position = .ofDirection d ∧
        (p.trade w bar index memory).1 = p.leave d bar index := by
  unfold Progress.trade
  cases hp : p.position.direction? with
  | none =>
      have hflat : p.position = .flat := by
        cases hposition : p.position <;> rw [hposition] at hp <;>
          first | rfl | cases hp
      simp only [bind_pure_fst]
      split
      · exact Or.inr (Or.inl ⟨_, hflat, rfl⟩)
      · exact Or.inl rfl
  | some d =>
      have hheld := Position.direction?_eq_some_iff.mp hp
      simp only [bind_pure_fst]
      split
      · exact Or.inr (Or.inr ⟨_, hheld, rfl⟩)
      · exact Or.inl rfl

/-- A bar adds one trade at most, at that bar, and one note of the capital. -/
theorem extends_trade (w : World) (p : Progress) (bar : Bar) (index : Nat)
    (memory : Memory) :
    Extends p (p.trade w bar index memory).1.note index (index + 1) 1 := by
  -- Entering and leaving both add one trade and the note behind it.
  have hone : ∀ (q : Progress) (t : Trade), q.curve = p.curve →
      q.trades = p.trades ++ [t] → t.bar = index →
      Extends p q.note index (index + 1) 1 := by
    intro q t hcurve htrades hbar
    refine ⟨⟨[t], htrades, ?_⟩, ⟨[q.equity], by rw [Progress.note, hcurve], rfl⟩⟩
    intro u hu
    obtain rfl := List.mem_singleton.mp hu
    omega
  rcases trade_cases w p bar index memory with h | ⟨d, -, h⟩ | ⟨d, -, h⟩
  · rw [h]
    exact ⟨⟨[], (List.append_nil _).symm,
      fun _ ht => absurd ht List.not_mem_nil⟩, ⟨[p.equity], rfl, rfl⟩⟩
  · rw [h]
    exact hone _ _ rfl rfl rfl
  · rw [h]
    exact hone _ _ rfl rfl rfl

/-- **A run adds trades at its own bars** and one note for each bar. -/
theorem extends_over (w : World) (p : Progress) (index : Nat)
    (bars : List Bar) (memory : Memory) :
    Extends p (p.over w index bars memory).1 index (index + bars.length)
      bars.length := by
  induction bars generalizing p index memory with
  | nil => exact .refl p index
  | cons bar rest ih =>
      have hstep := extends_trade w p bar index memory
      have hrest := ih (p.trade w bar index memory).1.note (index + 1)
        (p.trade w bar index memory).2
      have hboth := hstep.trans hrest (by omega) (by omega)
      rw [show index + 1 + rest.length = index + (rest.length + 1) by omega,
        Nat.add_comm 1] at hboth
      exact hboth

end Barscript.Session

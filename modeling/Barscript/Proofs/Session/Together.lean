import Barscript.Session.Stream

/-!
# Two runs side by side

`Together R V x y` says of two computations with states that they lead from
states related by `R` to states related by `R` again, with results related by
`V`. The rules follow the way computations are put together, so that a
statement about two runs of an evaluator is proved along its text. `Yields P x
a` is the same for one run whose result `a` is known.
-/

namespace Barscript.Session

variable {σ τ α β γ δ : Type} {R : σ → τ → Prop}

/-- From related states both computations reach related states and results. -/
def Together (R : σ → τ → Prop) (V : α → β → Prop) (x : StateM σ α)
    (y : StateM τ β) : Prop :=
  ∀ s t, R s t → V (x s).1 (y t).1 ∧ R (x s).2 (y t).2

theorem Together.pure {V : α → β → Prop} {a : α} {b : β} (h : V a b) :
    Together R V (pure a) (pure b) :=
  fun _ _ hst => ⟨h, hst⟩

theorem Together.bind {V : α → β → Prop} {W : γ → δ → Prop}
    {x : StateM σ α} {y : StateM τ β} {f : α → StateM σ γ}
    {g : β → StateM τ δ} (h : Together R V x y)
    (hfg : ∀ a b, V a b → Together R W (f a) (g b)) :
    Together R W (x >>= f) (y >>= g) := by
  intro s t hst
  obtain ⟨hvalue, hstate⟩ := h s t hst
  exact hfg _ _ hvalue _ _ hstate

/-- What every run of the second computation has in its result. -/
theorem Together.observe {V : α → β → Prop} {P : β → Prop}
    {x : StateM σ α} {y : StateM τ β} (h : Together R V x y)
    (hp : ∀ s t, R s t → P (y t).1) :
    Together R (fun a b => V a b ∧ P b) x y := by
  intro s t hst
  obtain ⟨hvalue, hstate⟩ := h s t hst
  exact ⟨⟨hvalue, hp s t hst⟩, hstate⟩

/-! ## One run with a known result -/

section

variable {P : σ → Prop}

/-- From a state with the property the computation has the given result and
reaches such a state. -/
def Yields (P : σ → Prop) (x : StateM σ α) (a : α) : Prop :=
  ∀ s, P s → (x s).1 = a ∧ P (x s).2

theorem run_bind (x : StateM σ α) (f : α → StateM σ γ) (s : σ) :
    (x >>= f) s = f (x s).1 (x s).2 :=
  rfl

theorem Yields.pure (a : α) : Yields P (pure a) a :=
  fun _ hs => ⟨rfl, hs⟩

theorem Yields.bind {x : StateM σ α} {f : α → StateM σ γ} {a : α} {c : γ}
    (h : Yields P x a) (hf : Yields P (f a) c) : Yields P (x >>= f) c := by
  intro s hs
  obtain ⟨hvalue, hstate⟩ := h s hs
  rw [run_bind, hvalue]
  exact hf _ hstate

/-- The first item that passes, where each test has a known result. -/
theorem Yields.firstPassing {test : Nat → α → StateM σ Bool}
    {passes : α → Bool} (index : Nat) (xs : List α)
    (h : ∀ k x, xs[k]? = some x → Yields P (test (index + k) x) (passes x)) :
    Yields P (firstPassing test index xs) (xs.find? passes) := by
  induction xs generalizing index with
  | nil => exact .pure none
  | cons x rest ih =>
      have hrest := ih (index + 1) fun k y hy => by
        have hnext := h (k + 1) y hy
        rw [show index + (k + 1) = index + 1 + k by omega] at hnext
        exact hnext
      refine (h 0 x rfl).bind ?_
      rw [List.find?_cons]
      cases passes x with
      | true => exact .pure (some x)
      | false => exact hrest

end

end Barscript.Session

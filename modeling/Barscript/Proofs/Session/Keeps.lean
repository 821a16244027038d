import Barscript.Proofs.Session.Alike

/-!
# What a session keeps

A property of caches that evaluation keeps is kept by everything that a session
does: by answering a bar and by walking over all of them. So it is enough to
look at evaluation, and there at indicator calls, because nothing else writes
to the cache (`Scope.keeps`).
-/

namespace Barscript.Session

open Barscript.Script Barscript.Series Barscript.Builtin Barscript.Market
open Barscript.Trading

/-! ## Programs that keep a property of the state -/

section

variable {σ α β : Type} {P : σ → Prop}

/-- The computation leads from states with the property to such states. -/
def Keeps (P : σ → Prop) (x : StateM σ α) : Prop :=
  ∀ s, P s → P (x s).2

theorem Keeps.pure (a : α) : Keeps P (pure a) :=
  fun _ hs => hs

theorem Keeps.bind {x : StateM σ α} {f : α → StateM σ β} (h : Keeps P x)
    (hf : ∀ a, Keeps P (f a)) : Keeps P (x >>= f) :=
  fun s hs => hf _ _ (h s hs)

/-- The computation beside itself, with one state on both sides. -/
theorem Keeps.together {x : StateM σ α} (h : Keeps P x) :
    Together (fun s t => s = t ∧ P s) Eq x x := by
  rintro s _ ⟨rfl, hs⟩
  exact ⟨rfl, rfl, h s hs⟩

theorem Keeps.forM {act : α → StateM σ PUnit} (xs : List α)
    (h : ∀ x ∈ xs, Keeps P (act x)) : Keeps P (xs.forM act) := by
  induction xs with
  | nil => exact .pure PUnit.unit
  | cons x rest ih =>
      refine (h x List.mem_cons_self).bind fun _ => ih ?_
      exact fun y hy => h y (List.mem_cons_of_mem x hy)

end

/-! ## Evaluation -/

section

variable {w : World} {p : Position} {scope : Scope w} {P : Cache → Prop}

/-- Every indicator call in the scope keeps the property if its arguments do. -/
def KeptByCalls (scope : Scope w) (p : Position) (P : Cache → Prop) : Prop :=
  ∀ {available : Definitions} {id : Nat} {name : String}
    {args : List (Argument Expr)}, isIndicatorName name = true →
    scope.contains available (.call id name args) → ∀ shown c, P c →
    P (evaluateArguments (w.holding p) available w.bars.length args c).2 →
    P (evaluate (w.holding p) available shown (.call id name args) c).2

mutual

/-- **Only indicator calls write to the cache.** -/
theorem Scope.keeps (h : KeptByCalls scope p P) {available : Definitions}
    (shown : Nat) (e : Expr) (he : scope.contains available e) :
    Keeps P (evaluate (w.holding p) available shown e) := by
  have hsub := scope.sublist he
  match e with
  | .literal value =>
      rw [evaluate]
      exact .pure _
  | .ref name =>
      rw [evaluate]
      exact Scope.keepsName h shown hsub name
        fun f left hentered hr => scope.definition he rfl hentered hr
  | .call id name args =>
      have hargs : ∀ shown, Keeps P
          (evaluateArguments (w.holding p) available shown args) :=
        fun shown => Scope.keepsArguments h shown args
          fun x hx => scope.piece he (.argument (Or.inl rfl) hx)
      cases hname : isIndicatorName name with
      | true =>
          intro c hc
          exact h hname he shown c hc (hargs w.bars.length c hc)
      | false =>
          rw [evaluate_function hname]
          exact (hargs shown).bind fun _ => .pure _
  | .binary op left right =>
      rw [evaluate]
      refine (Scope.keeps h shown left (scope.piece he .left)).bind
        fun a => ?_
      exact (Scope.keeps h shown right (scope.piece he .right)).bind
        fun b => .pure _
  | .unary op operand =>
      rw [evaluate]
      exact (Scope.keeps h shown operand (scope.piece he .operand)).bind
        fun a => .pure _
  | .ternary condition whenTrue whenFalse =>
      rw [evaluate]
      refine (Scope.keeps h shown condition
        (scope.piece he .condition)).bind fun c => ?_
      split
      · exact Scope.keeps h shown whenTrue (scope.piece he .whenTrue)
      · exact Scope.keeps h shown whenFalse (scope.piece he .whenFalse)
  | .indexed name offset =>
      rw [evaluate]
      have hbase := Scope.keepsName h shown hsub name
        fun f left hentered hr => scope.definition he rfl hentered hr
      refine hbase.bind fun v => ?_
      exact (Scope.keeps h shown offset (scope.piece he .offset)).bind
        fun k => .pure _
termination_by weightDefinitions available + weight e
decreasing_by all_goals simp only [weight]; omega

theorem Scope.keepsArguments (h : KeptByCalls scope p P)
    {available : Definitions} (shown : Nat) (args : List (Argument Expr))
    (hargs : ∀ x ∈ args, scope.contains available x.value) :
    Keeps P (evaluateArguments (w.holding p) available shown args) := by
  match args with
  | [] =>
      rw [evaluateArguments]
      exact .pure _
  | ⟨name, value⟩ :: rest =>
      rw [evaluateArguments]
      refine (Scope.keeps h shown value
        (hargs _ List.mem_cons_self)).bind fun v => ?_
      refine (Scope.keepsArguments h shown rest fun x hx =>
        hargs x (List.mem_cons_of_mem _ hx)).bind fun vs => ?_
      exact .pure _
termination_by weightDefinitions available + weightArguments args
decreasing_by all_goals simp only [weightArguments]; omega

theorem Scope.keepsName (h : KeptByCalls scope p P)
    {available : Definitions} (shown : Nat)
    (hsub : available.Sublist w.definitions) (name : String)
    (hentered : ∀ f left, w.entered? name = some f →
      release? (variableOf w.strategy name) available = some (f, left) →
      scope.contains left f) :
    Keeps P (readName (w.holding p) available shown name) := by
  cases nameReading w name with
  | named hn =>
      rw [readName_named (w := w.holding p) hn]
      refine Scope.keepsDefined h shown name ?_
      intro f left hf hr
      have hdef := (definition_of_release? hsub hr).1
      refine hentered f left (entered?_named hf hdef) ?_
      rw [variableOf_named hdef]
      exact hr
  | input hn hi =>
      rw [readName_input (w := w.holding p) hn hi]
      exact .pure _
  | @line hn hi base line hs hb =>
      rw [readName_line (w := w.holding p) hn hi hs hb]
      refine Keeps.bind ?_ fun _ => .pure _
      refine Scope.keepsDefined h shown base ?_
      intro f left hf hr
      have hdef := (definition_of_release? hsub hr).1
      refine hentered f left (entered?_line hn hs hf hdef) ?_
      rw [variableOf_line hn hs]
      exact hr
  | unknown hn hi hs =>
      rw [readName_unknown (w := w.holding p) hn hi hs]
      exact .pure _
termination_by weightDefinitions available + 1
decreasing_by all_goals omega

theorem Scope.keepsDefined (h : KeptByCalls scope p P)
    {available : Definitions} (shown : Nat) (name : String)
    (hdefined : ∀ f left, w.isFixed name = false →
      release? name available = some (f, left) → scope.contains left f) :
    Keeps P (readDefined (w.holding p) available shown name) := by
  cases hf : w.isFixed name with
  | true =>
      obtain ⟨v, hv⟩ := Option.isSome_iff_exists.mp
        ((isSome_fixed? (w.holding p) name shown).trans hf)
      rw [readDefined_fixed hv]
      exact .pure _
  | false =>
      cases hr : release? name available with
      | some found =>
          obtain ⟨f, left⟩ := found
          rw [readDefined_entered (w := w.holding p) hf hr]
          exact Scope.keeps h shown f (hdefined f left hf hr)
      | none =>
          rw [readDefined_absent (w := w.holding p) hf hr]
          exact .pure _
termination_by weightDefinitions available
decreasing_by
  have hweight := weight_release? hr
  omega

end

end

/-! ## Answering a bar and backtests -/

/-- Evaluating what the strategy states keeps the property, in every position
and in every view of the bars. -/
def KeptByStates (w : World) (P : Cache → Prop) : Prop :=
  ∀ (p : Position) {shown : Nat} {e : Expr}, shown ≤ w.bars.length →
    w.strategy.States e → Keeps P ((w.holding p).valueOn shown e)

section

variable {w : World} {P : Cache → Prop}

/-- The world beside itself, with one cache on both sides. -/
theorem KeptByStates.alike (h : KeptByStates w P) :
    Alike w w (fun c d => c = d ∧ P c) where
  symbol := rfl
  bars := rfl
  position := rfl
  indicators := rfl
  entries := rfl
  exits := rfl
  view _ := rfl
  values p _ _ hshown he := (h p hshown he.states).together
  calls p _ he := by
    have hcall := (h p (Nat.le_refl _) (.indicator he)).together
    exact fun c d hcd => ⟨trivial, (hcall c d hcd).2⟩

theorem keeps_decide (h : KeptByStates w P) (quantity : Float) :
    Keeps P (w.decide quantity) :=
  fun c hc => (h.alike.decide quantity c c ⟨rfl, hc⟩).2.2

/-- The cache inside a memory has the property. -/
def InMemory (P : Cache → Prop) (memory : Memory) : Prop :=
  P memory.cache

theorem keeps_backtest (h : KeptByStates w P) (capital : Float) :
    Keeps (InMemory P) (w.backtest capital) :=
  fun memory hm =>
    (h.alike.backtest capital memory memory ⟨⟨rfl, hm⟩, rfl⟩).2.cache.2

end

end Barscript.Session

import Mathlib.Data.List.Find
import Barscript.Proofs.Session.Moves
import Barscript.Proofs.Session.Recall

/-!
# Scripts that do not read the symbol

The symbol of the traded instrument is a value of a run like the bars are: the
names `syminfo.ticker` and `syminfo.tickerid` stand for it, and nothing else
does. An expression that reads neither of them, following its variables and the
arguments of its calls, has the same value whatever the symbol is
(`evaluate_called`). So a script whose guards read neither makes the same moves
(`events_called`).
-/

namespace Barscript.Session

open Barscript.Script Barscript.Series Barscript.Builtin Barscript.Market
open Barscript.Trading

/-- The world with another symbol. -/
def World.called (w : World) (symbol : String) : World :=
  { w with symbol := symbol }

/-- The names that stand for the symbol. -/
def symbolNames : List String := ["syminfo.ticker", "syminfo.tickerid"]

/-- Nothing that the expression reads is the symbol. -/
def World.SymbolFree (w : World) (e : Expr) : Prop :=
  ∀ f, Reads w true e f → ∀ name, nameRead? f = some name →
    name ∉ symbolNames

variable {w : World} {symbol : String}

theorem World.SymbolFree.part {e f : Expr} (h : w.SymbolFree e)
    (hpart : Part w.entered? true e f) : w.SymbolFree f :=
  fun g hg => h g (.head hpart hg)

/-! ## Names -/

theorem builtin?_called {name : String} (hname : name ∉ symbolNames)
    (shown : Nat) :
    (w.called symbol).builtin? name shown = w.builtin? name shown := by
  unfold World.builtin?
  split
  · rfl
  · rfl
  · rfl
  · rfl
  · rfl
  · rfl
  · rfl
  · rfl
  · exact absurd List.mem_cons_self hname
  · exact absurd (List.mem_cons_of_mem _ List.mem_cons_self) hname
  · rfl

theorem fixed?_called {name : String} (hname : name ∉ symbolNames)
    (shown : Nat) :
    (w.called symbol).fixed? name shown = w.fixed? name shown := by
  unfold World.fixed?
  rw [builtin?_called hname]
  rfl

/-! ## Expressions -/

mutual

/-- **An expression that does not read the symbol has one value for all
symbols.** -/
theorem evaluate_called {A : Definitions} (hA : A.Sublist w.definitions)
    (shown : Nat) (e : Expr) (he : w.SymbolFree e) :
    evaluate (w.called symbol) A shown e = evaluate w A shown e := by
  match e with
  | .literal value => rw [evaluate, evaluate]
  | .ref name =>
      rw [evaluate, evaluate]
      exact readName_called hA shown name (he _ .refl name rfl)
        fun f hentered => he.part (.definition rfl hentered)
  | .call id name args =>
      have hargs : ∀ x ∈ args, w.SymbolFree x.value :=
        fun x hx => he.part (.argument (Or.inl rfl) hx)
      cases hname : isIndicatorName name with
      | true =>
          rw [evaluate_indicator hname, evaluate_indicator hname]
          show keepCall id (do
            let values ← evaluateArguments (w.called symbol) A
              w.bars.length args
            pure (w.computed name values)) shown = _
          rw [evaluateArguments_called hA w.bars.length args hargs]
      | false =>
          rw [evaluate_function hname, evaluate_function hname,
            evaluateArguments_called hA shown args hargs]
  | .binary op left right =>
      rw [evaluate, evaluate, evaluate_called hA shown left (he.part .left),
        evaluate_called hA shown right (he.part .right)]
  | .unary op operand =>
      rw [evaluate, evaluate,
        evaluate_called hA shown operand (he.part .operand)]
  | .ternary condition whenTrue whenFalse =>
      rw [evaluate, evaluate,
        evaluate_called hA shown condition (he.part .condition),
        evaluate_called hA shown whenTrue (he.part .whenTrue),
        evaluate_called hA shown whenFalse (he.part .whenFalse)]
  | .indexed name offset =>
      rw [evaluate, evaluate,
        readName_called hA shown name (he _ .refl name rfl)
          fun f hentered => he.part (.definition rfl hentered),
        evaluate_called hA shown offset (he.part .offset)]
termination_by weightDefinitions A + weight e
decreasing_by all_goals simp only [weight]; omega

theorem evaluateArguments_called {A : Definitions}
    (hA : A.Sublist w.definitions) (shown : Nat)
    (args : List (Argument Expr)) (hargs : ∀ x ∈ args, w.SymbolFree x.value) :
    evaluateArguments (w.called symbol) A shown args =
      evaluateArguments w A shown args := by
  match args with
  | [] => rw [evaluateArguments, evaluateArguments]
  | ⟨name, value⟩ :: rest =>
      rw [evaluateArguments, evaluateArguments,
        evaluate_called hA shown value (hargs _ List.mem_cons_self),
        evaluateArguments_called hA shown rest
          fun x hx => hargs x (List.mem_cons_of_mem _ hx)]
termination_by weightDefinitions A + weightArguments args
decreasing_by all_goals simp only [weightArguments]; omega

theorem readName_called {A : Definitions} (hA : A.Sublist w.definitions)
    (shown : Nat) (name : String) (hname : name ∉ symbolNames)
    (hentered : ∀ f, w.entered? name = some f → w.SymbolFree f) :
    readName (w.called symbol) A shown name = readName w A shown name := by
  cases nameReading w name with
  | named hn =>
      rw [readName_named (w := w.called symbol) hn, readName_named hn]
      exact readDefined_called hA shown name
        (fun _ => fixed?_called hname shown)
        fun f hf hdef => hentered f (entered?_named hf hdef)
  | input hn hi =>
      rw [readName_input (w := w.called symbol) hn hi, readName_input hn hi]
  | @line hn hi base line hs hb =>
      rw [readName_line (w := w.called symbol) hn hi hs hb,
        readName_line hn hi hs hb]
      cases hf : w.isFixed base with
      | true =>
          obtain ⟨v, hv⟩ := Option.isSome_iff_exists.mp
            ((isSome_fixed? (w.called symbol) base shown).trans hf)
          obtain ⟨u, hu⟩ := Option.isSome_iff_exists.mp
            ((isSome_fixed? w base shown).trans hf)
          have hline := line_fixed? (v := w.called symbol) (w := w) rfl rfl
            base line shown
          rw [hv, hu] at hline
          rw [readDefined_fixed hv, readDefined_fixed hu]
          exact congrArg (pure : Value → Evaluating Value)
            (Option.some.inj hline)
      | false =>
          rw [readDefined_called hA shown base
            (fun hfixed => absurd (hfixed.symm.trans hf) (by decide))
            fun f hf hdef => hentered f (entered?_line hn hs hf hdef)]
  | unknown hn hi hs =>
      rw [readName_unknown (w := w.called symbol) hn hi hs,
        readName_unknown hn hi hs]
termination_by weightDefinitions A + 1
decreasing_by all_goals omega

theorem readDefined_called {A : Definitions} (hA : A.Sublist w.definitions)
    (shown : Nat) (name : String)
    (hfixed : w.isFixed name = true →
      (w.called symbol).fixed? name shown = w.fixed? name shown)
    (hdefined : ∀ f, w.isFixed name = false →
      w.strategy.definitions[name]? = some f → w.SymbolFree f) :
    readDefined (w.called symbol) A shown name =
      readDefined w A shown name := by
  cases hf : w.isFixed name with
  | true =>
      obtain ⟨v, hv⟩ := Option.isSome_iff_exists.mp
        ((isSome_fixed? w name shown).trans hf)
      rw [readDefined_fixed hv, readDefined_fixed ((hfixed hf).trans hv)]
  | false =>
      have hf' : (w.called symbol).isFixed name = false := hf
      cases hr : release? name A with
      | some found =>
          obtain ⟨f, left⟩ := found
          obtain ⟨hdef, hleft⟩ := definition_of_release? hA hr
          rw [readDefined_entered hf hr, readDefined_entered hf' hr]
          exact evaluate_called hleft shown f (hdefined f hf hdef)
      | none => rw [readDefined_absent hf hr, readDefined_absent hf' hr]
termination_by weightDefinitions A
decreasing_by
  have hweight := weight_release? hr
  omega

end

/-! ## Moves -/

/-- No guard of the script reads the symbol. -/
def World.SymbolFreeGuards (w : World) : Prop :=
  ∀ g, w.IsGuard g → w.SymbolFree g

theorem guardTruth_called {p : Position} {i : Nat} {guard : Option Expr}
    (h : ∀ g, guard = some g → w.SymbolFree g) :
    (w.called symbol).guardTruth p i guard = w.guardTruth p i guard := by
  cases guard with
  | none => rfl
  | some g =>
      have hvalue : evaluate (((w.upTo (i + 1)).holding p).called symbol)
          w.definitions (i + 1) g =
            evaluate ((w.upTo (i + 1)).holding p) w.definitions (i + 1) g :=
        evaluate_called (List.Sublist.refl _) (i + 1) g (h g rfl)
      exact congrArg (fun run => (run []).1.isTruthy) hvalue

/-- A script whose guards do not read the symbol makes the same moves. -/
theorem move_called (h : w.SymbolFreeGuards) (p : Position) (i : Nat) :
    (w.called symbol).move p i = w.move p i := by
  have hentries : (w.strategy.entries.find? fun entry =>
      (w.called symbol).guardTruth p i entry.guard) =
        w.strategy.entries.find? fun entry => w.guardTruth p i entry.guard :=
    List.find?_congr fun entry hentry =>
      guardTruth_called fun g hg => h g (Or.inl ⟨entry, hentry, hg⟩)
  have hexits : (w.strategy.exits.find? fun exit =>
      (w.called symbol).guardTruth p i exit.guard) =
        w.strategy.exits.find? fun exit => w.guardTruth p i exit.guard :=
    List.find?_congr fun exit hexit =>
      guardTruth_called fun g hg => h g (Or.inr ⟨exit, hexit, hg⟩)
  have hstrategy : (w.called symbol).strategy = w.strategy := rfl
  rw [World.move, World.move, hstrategy, hentries, hexits]

/-- **The events of a script whose guards do not read the symbol are the same
for all symbols.** -/
theorem events_called (h : w.SymbolFreeGuards) (p : Position) (index : Nat)
    (bars : List Bar) :
    (w.called symbol).events p index bars = w.events p index bars := by
  induction bars generalizing p index with
  | nil => rfl
  | cons bar rest ih =>
      rw [World.events, World.events, move_called h, ih]

end Barscript.Session

import Barscript.Proofs.Session.Expansion
import Barscript.Proofs.Session.Guards
import Barscript.Proofs.Session.Sound
import Barscript.Proofs.Session.LookAhead
import Barscript.Proofs.Session.Overriding

/-!
# Variables are macros

A variable is read by evaluating its definition, so a script in which the
definition is written out is evaluated in the same steps: with the same values
and the same values kept of indicator calls (`Macro.evaluate`). Answers to bars
and backtests are the same then (`runs_expanded`).

One thing can be told from the text alone. A guard with a computed offset
depends on the view, and one with a literal offset does not. Where the offset
was a variable the guard is then read once over all bars, and what it finds
there has to be what it finds in each view. It is not if `nz` is given a column
as the replacement (`expansion_shows`).
-/

namespace Barscript.Session

open Barscript.Script Barscript.Series Barscript.Builtin Barscript.Market
open Barscript.Trading

/-- The script `t` is the script of the world with the definition `d` of the
variable `x` written out in some places. Nothing takes precedence over the
variable, and no variable reaches itself. -/
structure Macro (w : World) (t : Strategy) (x : String) (d : Expr) :
    Prop where
  expanded : Expanded x d w.strategy t
  unfixed : w.isFixed x = false
  acyclic : w.Acyclic

/-- Both definitions of a name may be entered. -/
def EnteredBoth (w : World) (t : Strategy) (x : String) (d : Expr)
    (A B : Definitions) (key : String) (f : Expr) : Prop :=
  ∃ f' left left', release? key A = some (f, left) ∧
    release? key B = some (f', left') ∧ Expands x d f f' ∧
    Holds w left f ∧ Holds (w.scripted t) left' f'

section

variable {w : World} {t : Strategy} {x : String} {d : Expr}
  {A B : Definitions}

theorem Macro.holding (h : Macro w t x d) (p : Position) :
    Macro (w.holding p) t x d :=
  ⟨h.expanded, h.unfixed, h.acyclic⟩

theorem Macro.showing (h : Macro w t x d) (bars : List Bar) (p : Position) :
    Macro (w.showing bars p) t x d :=
  ⟨h.expanded, h.unfixed, h.acyclic⟩

theorem Macro.enteredBoth (h : Macro w t x d) {e e' f : Expr}
    (hA : Holds w A e) (hB : Holds (w.scripted t) B e') {name : String}
    (hname : nameRead? e = some name) (hname' : nameRead? e' = some name)
    (hentered : w.entered? name = some f) :
    EnteredBoth w t x d A B (variableOf w.strategy name) f := by
  have hrel := h.expanded.entered? name
  rw [hentered] at hrel
  cases hentered' : (w.scripted t).entered? name with
  | none =>
      rw [hentered'] at hrel
      cases hrel
  | some f' =>
      rw [hentered'] at hrel
      cases hrel with
      | some hf =>
          obtain ⟨left, hleft⟩ := hA.needed e .refl name hname f hentered
          obtain ⟨left', hleft'⟩ := hB.needed e' .refl name hname' f' hentered'
          have hacyclic := h.expanded.acyclic h.unfixed h.acyclic
          have hfine := hA.definition (h.acyclic.not_loops e) hname hentered
            hleft
          have hfine' := hB.definition (hacyclic.not_loops e') hname' hentered'
            hleft'
          rw [show variableOf (w.scripted t).strategy name =
            variableOf w.strategy name from h.expanded.variableOf name]
            at hleft'
          exact ⟨f', left, left', hleft, hleft', hf, hfine, hfine'⟩

/-! ## Evaluation -/

mutual

/-- **An expanded expression is evaluated like the expression.** -/
theorem Macro.evaluate (h : Macro w t x d) {A B : Definitions} (shown : Nat)
    {e e' : Expr} (he : Expands x d e e') (hA : Holds w A e)
    (hB : Holds (w.scripted t) B e') :
    evaluate w A shown e = evaluate (w.scripted t) B shown e' := by
  match he with
  | .literal value => rw [Session.evaluate, Session.evaluate]
  | .ref name =>
      rw [Session.evaluate, Session.evaluate]
      exact h.readName shown hA.sublist hB.sublist name
        fun f hentered => h.enteredBoth hA hB rfl rfl hentered
  | .expanded =>
      -- On the left the variable is entered, on the right it is written out.
      have hentered := entered?_named h.unfixed h.expanded.defined
      obtain ⟨left, hleft⟩ := hA.needed _ .refl x rfl d hentered
      have hd := hA.definition (h.acyclic.not_loops _) rfl hentered hleft
      have hweight := weight_release? hleft
      rw [h.expanded.variableOf_self] at hleft
      have hdefined : (w.isFixed x || w.strategy.definitions.contains x) =
          true := by
        rw [Std.ExtTreeMap.contains_eq_isSome_getElem?, h.expanded.defined]
        exact Bool.or_true _
      rw [Session.evaluate, readName_named hdefined,
        readDefined_entered h.unfixed hleft]
      exact h.evaluate shown (.refl x d d) hd hB
  | @Expands.call _ _ id name args args' hargs =>
      have hvalues : ∀ shown, Session.evaluateArguments w A shown args =
          Session.evaluateArguments (w.scripted t) B shown args' :=
        fun shown => h.evaluateArguments shown hargs
          (fun a ha => hA.part (.argument (Or.inl rfl) ha))
          (fun a ha => hB.part (.argument (Or.inl rfl) ha))
      cases hname : isIndicatorName name with
      | true =>
          rw [evaluate_indicator hname, evaluate_indicator hname,
            hvalues w.bars.length]
          rfl
      | false =>
          rw [evaluate_function hname, evaluate_function hname, hvalues shown]
  | .binary op ha hb =>
      rw [Session.evaluate, Session.evaluate,
        h.evaluate shown ha (hA.part .left) (hB.part .left),
        h.evaluate shown hb (hA.part .right) (hB.part .right)]
  | .unary op ha =>
      rw [Session.evaluate, Session.evaluate,
        h.evaluate shown ha (hA.part .operand) (hB.part .operand)]
  | .ternary hc ha hb =>
      rw [Session.evaluate, Session.evaluate,
        h.evaluate shown hc (hA.part .condition) (hB.part .condition),
        h.evaluate shown ha (hA.part .whenTrue) (hB.part .whenTrue),
        h.evaluate shown hb (hA.part .whenFalse) (hB.part .whenFalse)]
  | .indexed name ho =>
      rw [Session.evaluate, Session.evaluate,
        h.evaluate shown ho (hA.part .offset) (hB.part .offset),
        h.readName shown hA.sublist hB.sublist name
          fun f hentered => h.enteredBoth hA hB rfl rfl hentered]
termination_by weightDefinitions A + weight e
decreasing_by all_goals simp only [weight]; omega

theorem Macro.evaluateArguments (h : Macro w t x d) {A B : Definitions}
    (shown : Nat) {args args' : List (Argument Expr)}
    (hargs : ExpandsArguments x d args args')
    (hA : ∀ a ∈ args, Holds w A a.value)
    (hB : ∀ a ∈ args', Holds (w.scripted t) B a.value) :
    evaluateArguments w A shown args =
      evaluateArguments (w.scripted t) B shown args' := by
  match hargs with
  | .nil => rw [Session.evaluateArguments, Session.evaluateArguments]
  | .cons name he hrest =>
      rw [Session.evaluateArguments, Session.evaluateArguments,
        h.evaluate shown he (hA _ List.mem_cons_self) (hB _ List.mem_cons_self),
        h.evaluateArguments shown hrest
          (fun a ha => hA a (List.mem_cons_of_mem _ ha))
          (fun a ha => hB a (List.mem_cons_of_mem _ ha))]
termination_by weightDefinitions A + weightArguments args
decreasing_by all_goals simp only [weightArguments]; omega

theorem Macro.readName (h : Macro w t x d) {A B : Definitions} (shown : Nat)
    (hA : A.Sublist w.definitions)
    (hB : B.Sublist (w.scripted t).definitions) (name : String)
    (hentered : ∀ f, w.entered? name = some f →
      EnteredBoth w t x d A B (variableOf w.strategy name) f) :
    readName w A shown name = readName (w.scripted t) B shown name := by
  have hsame : ((w.scripted t).isFixed name ||
      (w.scripted t).strategy.definitions.contains name) =
        (w.isFixed name || w.strategy.definitions.contains name) :=
    congrArg (w.isFixed name || ·) (h.expanded.contains name)
  have hinputs : (w.scripted t).strategy.inputs[name]? =
      w.strategy.inputs[name]? :=
    congrArg (fun inputs : Bindings Input => inputs[name]?) h.expanded.inputs
  have hlines : ∀ base, (w.scripted t).hasLines base = w.hasLines base :=
    fun base => congrArg (· || w.overrides.contains base)
      (h.expanded.contains base)
  cases nameReading w name with
  | named hn =>
      rw [readName_named hn, readName_named (hsame.trans hn)]
      refine h.readDefined shown hA hB name ?_
      intro f hf he
      have hboth := hentered f (entered?_named hf he)
      rw [variableOf_named he] at hboth
      exact hboth
  | input hn hi =>
      rw [readName_input hn hi,
        readName_input (hsame.trans hn) (hinputs.trans hi)]
  | @line hn hi base line hs hb =>
      rw [readName_line hn hi hs hb, readName_line (hsame.trans hn)
        (hinputs.trans hi) hs ((hlines base).trans hb)]
      have hbase := h.readDefined shown hA hB base fun f hf he => by
        have hboth := hentered f (entered?_line hn hs hf he)
        rw [variableOf_line hn hs] at hboth
        exact hboth
      rw [hbase]
  | unknown hn hi hs =>
      rw [readName_unknown hn hi hs, readName_unknown (hsame.trans hn)
        (hinputs.trans hi) fun base line hsplit =>
          (hlines base).trans (hs base line hsplit)]
termination_by weightDefinitions A + 1
decreasing_by all_goals omega

theorem Macro.readDefined (h : Macro w t x d) {A B : Definitions}
    (shown : Nat) (hA : A.Sublist w.definitions)
    (hB : B.Sublist (w.scripted t).definitions) (name : String)
    (hdefined : ∀ f, w.isFixed name = false →
      w.strategy.definitions[name]? = some f →
      EnteredBoth w t x d A B name f) :
    readDefined w A shown name = readDefined (w.scripted t) B shown name := by
  cases hf : w.isFixed name with
  | true =>
      obtain ⟨v, hv⟩ := Option.isSome_iff_exists.mp
        ((isSome_fixed? w name shown).trans hf)
      rw [readDefined_fixed hv, readDefined_fixed (w := w.scripted t) hv]
  | false =>
      have hf' : (w.scripted t).isFixed name = false := hf
      rcases rel_cases (h.expanded.definitions name) with
        ⟨hs, ht⟩ | ⟨f, _, hs, _, _⟩
      · rw [readDefined_absent hf (release?_undefined hA hs),
          readDefined_absent hf' (release?_undefined hB ht)]
      · obtain ⟨f', left, left', hr, hr', hexpands, hleft, hleft'⟩ :=
          hdefined f hf hs
        rw [readDefined_entered hf hr, readDefined_entered hf' hr']
        exact h.evaluate shown hexpands hleft hleft'
termination_by weightDefinitions A
decreasing_by
  have hweight := weight_release? hr
  omega

end

/-! ## Rules -/

theorem Macro.valueOn (h : Macro w t x d) (shown : Nat) {e e' : Expr}
    (he : Expands x d e e') :
    w.valueOn shown e = (w.scripted t).valueOn shown e' :=
  h.evaluate shown he (.all w e) (.all (w.scripted t) e')

theorem together_of_eq {σ α : Type} {y z : StateM σ α} (h : y = z) :
    Together Eq Eq y z := by
  subst h
  rintro s _ rfl
  exact ⟨rfl, rfl⟩

theorem Macro.rules (h : Macro w t x d) :
    RulesAlike w (w.scripted t) Eq (Expands x d) where
  symbol := rfl
  bars := rfl
  position := rfl
  entries := h.expanded.entries
  exits := h.expanded.exits
  values he := together_of_eq (h.valueOn w.bars.length he)
  calls := h.expanded.indicators.imp fun _ _ he c d hcd =>
    ⟨trivial, (together_of_eq (h.valueOn w.bars.length he) c d hcd).2⟩

theorem Expanded.directions {s : Strategy} (h : Expanded x d s t) :
    SameDirections s t where
  entries := h.entries.imp fun _ _ hentry => hentry.direction.symm
  exits := h.exits.imp fun _ _ _ => trivial

theorem Expanded.guardOf? (h : Expanded x d w.strategy t) (key : GuardKey) :
    Option.Rel (Expands x d) (w.guardOf? key)
      ((w.scripted t).guardOf? key) := by
  cases key with
  | entry k =>
      show Option.Rel _ (w.strategy.entries[k]?.bind Entry.guard)
        (t.entries[k]?.bind Entry.guard)
      rcases rel_cases (rel_getElem? h.entries k) with
        ⟨hs, ht⟩ | ⟨_, _, hs, ht, hmatch⟩
      · rw [hs, ht]
        exact .none
      · rw [hs, ht]
        exact hmatch.guard
  | exit k =>
      show Option.Rel _ (w.strategy.exits[k]?.bind Exit.guard)
        (t.exits[k]?.bind Exit.guard)
      rcases rel_cases (rel_getElem? h.exits k) with
        ⟨hs, ht⟩ | ⟨_, _, hs, ht, hmatch⟩
      · rw [hs, ht]
        exact .none
      · rw [hs, ht]
        exact hmatch

end

/-! ## Guards that no longer depend on the view -/

/-- What the guard finds in the view of a bar can be read off its value over all
bars: no value that was set is a column, and `nz` is given none as the
replacement. -/
structure ReadableAtOnce (w : World) (g : Expr) : Prop where
  overrides : w.PlainOverrides
  replacements : PlainReplacements w w.guardScope [] g

/-- Two caches with the same values, as guards may have left them behind. -/
structure CachesMeet (w : World) (c d : Cache) : Prop where
  same : SameKept c d
  cached : Cached w w.guardScope [] d
  sound : w.PlainOverrides → SoundCache w.bars.length d

section

variable {w : World} {g : Expr} {index : Nat}

theorem CachesMeet.empty (w : World) : CachesMeet w [] [] :=
  ⟨fun _ => rfl, .first, fun _ => .empty _⟩

theorem together_meet (hg : w.IsGuard g) (p : Position) {shown : Nat}
    (hs : shown ≤ w.bars.length) :
    Together (CachesMeet w) Eq ((w.holding p).valueOn shown g)
      ((w.holding p).valueOn shown g) := by
  intro c d hcd
  obtain ⟨hvalue, hsame⟩ := together_sameKept (w.holding p) shown g c d hcd.same
  refine ⟨hvalue, hsame, hcd.cached.after p shown (.root hg), fun ho => ?_⟩
  exact keeps_valueOn (w := w.holding p) ho hs g d (hcd.sound ho)

/-- A guard is answered alike from both caches. -/
theorem together_readGuard (hg : w.IsGuard g) (p : Position)
    (hi : index < w.bars.length) (inView : Bool) :
    Together (CachesMeet w) Eq ((w.holding p).readGuard inView g index)
      ((w.holding p).readGuard inView g index) := by
  cases inView with
  | true =>
      refine (together_meet hg p hi).bind ?_
      rintro v _ rfl
      exact .pure rfl
  | false =>
      refine (together_meet hg p (Nat.le_refl _)).bind ?_
      rintro v _ rfl
      exact .pure rfl

/-- Read in each view and read at once the guard is answered alike. -/
theorem together_readAtOnce (hg : w.IsGuard g) (p : Position)
    (hi : index < w.bars.length)
    (hview : dependsOnView w.strategy g = false) (h : ReadableAtOnce w g) :
    Together (CachesMeet w) Eq ((w.holding p).readGuard true g index)
      ((w.holding p).readGuard false g index) := by
  intro c d hcd
  have hviews : Views w.bars.length w.bars.length (index + 1) w.bars.length :=
    ⟨Nat.le_refl _, hi, Nat.le_refl _, hi⟩
  have hcomparable : Comparable w w.guardScope [] w.bars.length (index + 1)
      w.bars.length w.definitions g :=
    ⟨.root hg, Or.inr (allViewFree_of_dependsOnView hview h.replacements),
      Or.inl rfl⟩
  have hbegin : CachesBegin w w.guardScope [] w.bars.length c d := by
    refine ⟨fun id => ?_, hcd.cached⟩
    rw [hcd.same id]
    cases hid : d.lookup id with
    | none => exact .none
    | some v => exact .some (hcd.sound h.overrides id v hid)
  obtain ⟨hvalue, hafter⟩ := together_evaluate h.overrides p hviews g
    hcomparable c d hbegin
  have hall : (w.holding p).upTo w.bars.length = w.holding p :=
    upTo_length (w.holding p)
  rw [hall] at hvalue hafter
  refine ⟨hvalue.isTruthy_eq, ?_, hafter.cached, fun _ => hafter.sound⟩
  intro id
  rcases rel_cases (hafter.lookup id) with ⟨hc, hd⟩ | ⟨v, v', hc, hd, hv⟩
  · exact hc.trans hd.symm
  · exact (hc.trans (congrArg some hv.eq)).trans hd.symm

end

section

variable {w : World} {t : Strategy} {x : String} {d : Expr}

/-- Guards that no longer depend on the view can be read at once. -/
def LosesViewSafely (w : World) (t : Strategy) : Prop :=
  ∀ key g g', w.guardOf? key = some g →
    (w.scripted t).guardOf? key = some g' →
    dependsOnView w.strategy g = true → dependsOnView t g' = false →
    ReadableAtOnce (w.scripted t) g'

theorem Macro.answered (h : Macro w t x d) (hview : LosesViewSafely w t) :
    AnsweredAlike (CachesMeet (w.scripted t)) w (w.scripted t) w.anew
      (w.scripted t).anew w.bars.length := by
  intro p key index hi
  rcases rel_cases (h.expanded.guardOf? key) with
    ⟨hguard, hguard'⟩ | ⟨g, g', hguard, hguard', he⟩
  · rw [hguard, hguard']
    exact .pure rfl
  · have hg' : (w.scripted t).IsGuard g' := isGuard_of_guardOf? hguard'
    rw [hguard, hguard']
    have hsame : ∀ inView, (w.holding p).readGuard inView g index =
        ((w.scripted t).holding p).readGuard inView g' index := by
      intro inView
      unfold World.readGuard World.value
      rw [(h.holding p).valueOn _ he, (h.holding p).valueOn _ he]
      rfl
    show Together (CachesMeet (w.scripted t)) Eq
      ((w.holding p).readGuard (dependsOnView w.strategy g) g index)
      (((w.scripted t).holding p).readGuard (dependsOnView t g') g' index)
    rw [hsame]
    cases hdepends : dependsOnView w.strategy g with
    | false =>
        rw [h.expanded.dependsOnView he hdepends]
        exact together_readGuard hg' p hi false
    | true =>
        cases hdepends' : dependsOnView t g' with
        | true => exact together_readGuard hg' p hi true
        | false =>
            exact together_readAtOnce hg' p hi hdepends'
              (hview key g g' hguard hguard' hdepends hdepends')

/-- **A backtest of the expanded script makes the same progress.** -/
theorem Macro.backtest (h : Macro w t x d) (hview : LosesViewSafely w t)
    (capital : Float) :
    (w.backtest capital ⟨[], []⟩).1 =
      ((w.scripted t).backtest capital ⟨[], []⟩).1 := by
  rw [backtest_anew, backtest_anew]
  have hbars : (w.scripted t).bars = w.bars := rfl
  have hsame := together_backtestBy h.expanded.directions hbars
    (h.answered hview) (.start capital)
  exact (hsame [] [] (.empty _)).1

end

/-! ## Sessions -/

section

variable {strategy t : Strategy} {symbol x : String} {d : Expr}
  {values : List (String × Value)}

/-- **Variables are macros.** Let the definition of a variable be written out
anywhere, in guards, quantities, stops, targets and definitions. Where no
variable reaches itself and nothing takes precedence over that one, bars are
answered with the same signals. The reports are the same, too, over bars where
the guards that no longer depend on the view can be read at once. -/
theorem runs_expanded (h : Expanded x d strategy t)
    (hunfixed : ((start strategy symbol).setInputs values).toWorld.isFixed x =
      false)
    (hacyclic : ((start strategy symbol).setInputs values).toWorld.Acyclic) :
    (∀ bars, LosesViewSafely
        (((start strategy symbol).setInputs values).loadBars bars).toWorld t →
      ∀ config,
        ((((start strategy symbol).setInputs values).loadBars
            bars).runBacktest config).1 =
          ((((start t symbol).setInputs values).loadBars bars).runBacktest
            config).1) ∧
    ∀ warmup index bars,
      (((start strategy symbol).setInputs values).loadBars warmup).signals index
          bars =
        (((start t symbol).setInputs values).loadBars warmup).signals index
          bars := by
  rw [start_setInputs] at hunfixed hacyclic ⊢
  rw [start_setInputs]
  have hexpansion : Macro ({ start strategy symbol with
      overrides := assigned values } : Session).toWorld t x d :=
    ⟨h, hunfixed, hacyclic⟩
  constructor
  · intro bars hview config
    have hprogress := (hexpansion.showing bars .flat).backtest hview
      config.capital
    exact congrArg (fun q : Progress => Report.of config q.trades q.curve)
      hprogress
  · intro warmup index bars
    apply signals_of_decide
    case h =>
      intro bars p quantity
      exact ((hexpansion.showing bars p).rules.decide quantity [] [] rfl).1
    case hbars => rfl
    case hposition => rfl
    case hquantity => rfl

end

/-- A strategy that enters when the close is above an earlier one. How far back
that is, a variable says. -/
def risingStrategy (back : Expr) : Strategy :=
  { definitions := (∅ : Bindings Expr).insert "back" (.literal (.number 1.0))
    entries := [
      { id := none, function := "strategy.entry", direction := .long
        guard := some (.binary .gt (.ref "close") (.indexed "close" back))
        quantity := none, stop := none, target := none }] }

theorem expanded_rising : Expanded "back" (.literal (.number 1.0))
    (risingStrategy (.ref "back")) (risingStrategy (.literal (.number 1.0))) where
  defined := by
    show ((∅ : Bindings Expr).insert "back" _)["back"]? = _
    rw [getElem?_insert_name, if_pos rfl]
  definitions name := by
    show Option.Rel _ ((∅ : Bindings Expr).insert "back" _)[name]?
      ((∅ : Bindings Expr).insert "back" _)[name]?
    cases ((∅ : Bindings Expr).insert "back"
        (.literal (.number 1.0)))[name]? with
    | none => exact .none
    | some e => exact .some (.refl _ _ e)
  inputs := rfl
  indicators := .nil
  entries := by
    refine .cons ⟨rfl, .some ?_, .none, .none, .none⟩ .nil
    exact .binary .gt (.ref "close") (.indexed "close" .expanded)
  exits := .nil

/-- No definition of the strategy reads anything. -/
theorem acyclic_rising {w : World} {back : Expr}
    (h : w.strategy = risingStrategy back) : w.Acyclic := by
  intro key value hvalue e hreads name hname
  rw [h] at hvalue
  have hinsert : ((∅ : Bindings Expr).insert "back"
      (.literal (.number 1.0)))[key]? = some value := hvalue
  rw [getElem?_insert_name] at hinsert
  split at hinsert
  · cases hinsert
    rcases hreads.cases_head with rfl | ⟨f, hpart, _⟩
    · cases hname
    · exact absurd hpart (not_part_of_isLeaf rfl)
  · rw [Std.ExtTreeMap.getElem?_empty] at hinsert
    cases hinsert

/-- What the expanded guard reads calls nothing. -/
theorem plainReplacements_rising (w : World) (first : Cache) :
    PlainReplacements w w.guardScope first
      (.binary .gt (.ref "close") (.indexed "close" (.literal (.number 1.0)))) := by
  intro id args hreads
  have hread := Reads.within (S := fun e =>
    e = .binary .gt (.ref "close")
        (.indexed "close" (.literal (.number 1.0))) ∨
      e = .indexed "close" (.literal (.number 1.0)) ∨ isLeaf e = true) ?_
    (Or.inl rfl) hreads
  · rcases hread with heq | heq | heq <;> cases heq
  · rintro e f (rfl | rfl | he) hpart
    · cases hpart with
      | definition hname _ => cases hname
      | left => exact Or.inr (Or.inr rfl)
      | right => exact Or.inr (Or.inl rfl)
    · cases hpart with
      | definition hname hentered =>
          cases hname
          rw [entered?_price (by decide)] at hentered
          cases hentered
      | offset => exact Or.inr (Or.inr rfl)
    · exact absurd hpart (not_part_of_isLeaf he)

theorem losesViewSafely_rising (bars : List Bar) :
    LosesViewSafely (((start (risingStrategy (.ref "back")) "").setInputs
      []).loadBars bars).toWorld (risingStrategy (.literal (.number 1.0))) := by
  intro key g g' _ hguard' _ _
  have hg' : g' = .binary .gt (.ref "close")
      (.indexed "close" (.literal (.number 1.0))) := by
    rcases isGuard_of_guardOf? hguard' with
      ⟨entry, hentry, hg⟩ | ⟨exit, hexit, _⟩
    · obtain rfl := List.mem_singleton.mp hentry
      exact (Option.some.inj hg).symm
    · cases hexit
  rw [hg']
  refine ⟨?_, plainReplacements_rising _ _⟩
  exact (sound_of_reached (.loadBars .start bars)).overrides

/-- Asking for the variable and writing its value give the same runs, though
only with the variable the guard is evaluated in the view of each bar. -/
theorem runs_expanded_rising :
    dependsOnView (risingStrategy (.ref "back"))
        (.binary .gt (.ref "close") (.indexed "close" (.ref "back"))) = true ∧
      dependsOnView (risingStrategy (.literal (.number 1.0)))
        (.binary .gt (.ref "close")
          (.indexed "close" (.literal (.number 1.0)))) = false ∧
      (∀ bars config,
        ((((start (risingStrategy (.ref "back")) "").setInputs []).loadBars
            bars).runBacktest config).1 =
          ((((start (risingStrategy (.literal (.number 1.0))) "").setInputs
            []).loadBars bars).runBacktest config).1) ∧
      ∀ warmup index bars,
        (((start (risingStrategy (.ref "back")) "").setInputs []).loadBars
            warmup).signals index bars =
          (((start (risingStrategy (.literal (.number 1.0))) "").setInputs
            []).loadBars warmup).signals index bars := by
  have hruns := @runs_expanded (risingStrategy (.ref "back"))
    (risingStrategy (.literal (.number 1.0))) "" "back" (.literal (.number 1.0))
    [] expanded_rising (by decide +kernel) (acyclic_rising rfl)
  refine ⟨by decide +kernel, by decide +kernel, fun bars config => ?_, hruns.2⟩
  exact hruns.1 bars (losesViewSafely_rising bars) config

/-- A script whose guard gives `nz` a column as the replacement and takes an
offset. -/
def lateScript (offset : String) : String :=
  "x = 0\nstrategy.entry(\"L\", strategy.long, when=nz(volume / volume, close) > 10 and close["
    ++ offset ++ "] > 0)"

/-- With the variable the guard finds the last close of each view, which is
above ten at bar 2. With its value it finds the last close of all bars at every
bar. -/
theorem expansion_shows :
    tradedBars (lateScript "x") [stillBar 5.0, stillBar 5.0, stillBar 20.0] =
        some [2] ∧
      tradedBars (lateScript "0") [stillBar 5.0, stillBar 5.0, stillBar 20.0] =
        some [1] := by
  decide +kernel

end Barscript.Session

import Barscript.Proofs.Script.Identities
import Barscript.Proofs.Session.Fresh
import Barscript.Proofs.Session.LookAhead

/-!
# Scripts that read the same in both modes

`SteadyScript` collects conditions on the text of a script under which a
guard says the same when bars arrive one at a time and when all of them are
loaded. From them follow the conditions on evaluations that two views of one
expression need: indicator calls have one value, so what they read as numbers
can be seen on it.
-/

namespace Barscript.Session

open Barscript.Script Barscript.Series Barscript.Builtin Barscript.Market
open Barscript.Trading

/-- What the modes evaluate of a script: guards and indicator calls. -/
def World.IsRoot (w : World) (e : Expr) : Prop :=
  w.IsGuard e ∨ e ∈ w.strategy.indicators

/-- What the modes read of a script. -/
def World.InScript (w : World) (e : Expr) : Prop :=
  ∃ root, w.IsRoot root ∧ Reads w true root e

/-- Conditions on a script: no variable reaches itself, a replacement of `nz`
is built from literals, and so is what an indicator reads as a number; inside
the arguments of indicators there is no ternary, no mark of the newest bar, no
computed offset and no position. -/
structure SteadyScript (w : World) : Prop where
  acyclic : w.Acyclic
  replacements : ∀ id args, w.InScript (.call id "nz" args) →
    ∀ e, argumentAt? args replacementSlot = some e → FromLiterals w e
  arguments : ∀ id name args, isIndicatorName name = true →
    w.InScript (.call id name args) → ∀ x ∈ args, ∀ e,
      Reads w true x.value e → Settled e ∧ nameRead? e ≠ some positionName
  numbers : ∀ id name args, isIndicatorName name = true →
    w.InScript (.call id name args) →
    ∀ slot ∈ numberSlots name (.ofList (w.freshArguments args)),
      ∀ e, argumentAt? args slot = some e → FromLiterals w e

variable {w : World}

/-! ## One value for each call -/

/-- What is read of a script has its indicator calls on the list of the
strategy. -/
theorem indicatorCalls_inScript (hlisted : Listed w.strategy) {e : Expr}
    (h : w.InScript e) : e.indicatorCalls ⊆ w.strategy.indicators := by
  obtain ⟨root, hroot, hreads⟩ := h
  refine indicatorCalls_of_reads hlisted ?_ hreads
  rcases hroot with (⟨entry, hentry, hg⟩ | ⟨exit, hexit, hg⟩) | hroot
  · exact hlisted root
      (.entry hentry (List.mem_cons.mpr (Or.inl hg.symm)))
  · exact hlisted root (.exit hexit hg)
  · exact hlisted root (.indicator hroot)

theorem inScript_part {e f : Expr} (h : w.InScript e)
    (hpart : Part w.entered? true e f) : w.InScript f := by
  obtain ⟨root, hroot, hreads⟩ := h
  exact ⟨root, hroot, hreads.tail hpart⟩

/-- In the world of a script that parses an identity belongs to one call. -/
theorem regular_of_parse {source : String} (hacyclic : w.Acyclic)
    (hparse : Strategy.parse source = .ok w.strategy) :
    Regular w w.InScript := by
  obtain ⟨hlisted, hids⟩ := identified_of_parse hparse
  have hself : ∀ {id name args}, isIndicatorName name = true →
      w.InScript (.call id name args) →
      .call id name args ∈ w.strategy.indicators := by
    intro id name args hname hcall
    exact indicatorCalls_inScript hlisted hcall (mem_indicatorCalls_self hname)
  refine ⟨fun e _ => hacyclic.not_loops e, inScript_part, ?_⟩
  intro id name name' args args' hcall hcall' hname hname'
  have heq := hids _ (hself hname hcall) _ (hself hname' hcall') rfl
  injection heq with _ hnames hargs
  exact ⟨hnames, hargs⟩

/-- What is read with some definitions left needs no others. -/
theorem holds_of_readWith (hacyclic : w.Acyclic) {roots : Expr → Prop}
    {available : Definitions} {e : Expr} (h : ReadWith w roots available e) :
    Holds w available e := by
  induction h with
  | root _ => exact .all w _
  | piece _ hpiece ih => exact ih.part hpiece.part
  | definition _ hname hentered hr ih =>
      exact ih.definition (hacyclic.not_loops _) hname hentered hr

/-- The scope of both modes. -/
def World.scriptScope (w : World) : Scope w :=
  .of w w.IsRoot

theorem inScript_of_contains {available : Definitions} {e : Expr}
    (h : w.scriptScope.contains available e) : w.InScript e :=
  ReadWith.reads h

theorem SteadyScript.positionFree (h : SteadyScript w) :
    PositionFree w w.InScript :=
  fun id name args hname hcall x hx e he hposition =>
    (h.arguments id name args hname hcall x hx e he).2 hposition.1

/-- Whatever was evaluated before, the cache is faithful. -/
theorem faithful_of_cached (h : SteadyScript w) (hr : Regular w w.InScript)
    {c : Cache} (hc : Cached w w.scriptScope [] c) (p : Position) :
    Faithful (w.holding p) w.InScript c := by
  induction hc generalizing p with
  | first => exact .empty _ _
  | after _ q shown he ih =>
      have hleft := (evaluate_eq_fresh hr (inScript_of_contains he)
        (holds_of_readWith h.acyclic he) q shown (ih q)).2
      exact hleft.holding hr h.positionFree p

/-! ## Two views of a guard -/

/-- What an indicator reads as a number is no column in any evaluation. -/
theorem SteadyScript.numbersSteady (h : SteadyScript w)
    (hr : Regular w w.InScript) {id : Nat} {name : String}
    {args : List (Argument Expr)} (hname : isIndicatorName name = true)
    (hcall : w.InScript (.call id name args)) :
    NumbersSteady w w.scriptScope [] w.bars.length id name args := by
  apply numbersSteady_of
  intro c hc p available hcontains slot hslot e he
  have hvalues : (evaluateArguments (w.holding p) available w.bars.length
      args c).1 = w.freshArguments args :=
    evaluateArguments_eq_fresh hr h.positionFree hname hcall
      (holds_of_readWith h.acyclic hcontains) p w.position
      (faithful_of_cached h hr hc p)
  rw [hvalues] at hslot
  exact neverColumn_of_fromLiterals
    (h.numbers id name args hname hcall slot hslot e he)

/-- Nor is a replacement of `nz`. -/
theorem SteadyScript.replacementSteady (h : SteadyScript w) {id : Nat}
    {args : List (Argument Expr)} (hcall : w.InScript (.call id "nz" args))
    (shown : Nat) :
    NumbersSteady w w.scriptScope [] shown id "nz" args := by
  apply numbersSteady_of
  intro c _ p available _ slot hslot e he
  obtain rfl := List.mem_singleton.mp hslot
  exact neverColumn_of_fromLiterals (h.replacements id args hcall e he)

/-- No indicator call looks at the newest of all bars. -/
theorem SteadyScript.causal (h : SteadyScript w) (hr : Regular w w.InScript)
    {e : Expr} (he : w.InScript e) : Causal w w.scriptScope [] e := by
  obtain ⟨root, hroot, hreads⟩ := he
  intro id name args hname hcall
  have hmem : w.InScript (.call id name args) :=
    ⟨root, hroot, hreads.trans hcall⟩
  refine ⟨h.numbersSteady hr hname hmem, ?_⟩
  intro x hx f hf
  refine viewFree_of_settled
    (h.arguments id name args hname hmem x hx f hf.widen).1 ?_
  rintro id' args' rfl
  refine h.replacementSteady ⟨root, hroot, ?_⟩
  exact (hreads.trans hcall).trans
    (.head (.argument (Or.inl rfl) hx) hf.widen)

/-- A guard that does not depend on the view does not look at its newest
bar. -/
theorem SteadyScript.allViewFree (h : SteadyScript w) {e : Expr}
    (he : w.InScript e) (hview : dependsOnView w.strategy e = false) :
    AllViewFree w w.scriptScope [] e := by
  obtain ⟨root, hroot, hreads⟩ := he
  refine allViewFree_of_dependsOnView hview ?_
  intro id args hcall
  exact h.replacementSteady ⟨root, hroot, hreads.trans hcall.widen⟩

end Barscript.Session

import Barscript.Proofs.Session.Transparency

/-!
# Calls and their identities

The values of indicator calls are kept under the identities of the calls and
under nothing else. `Registered` says of a strategy what this takes: wherever
two calls with one identity stand, they are one call, and every call that
computes an indicator is on the list from which the values of a bar are
computed in advance. Every script that parses gives such a strategy
(`registered_of_parse`): a call takes its number when it is complete, and a
number that was given out in an argument read in vain is not given out again.
-/

namespace Barscript.Session

open Barscript.Script

/-- The calls of a strategy have identities of their own, and its list has all
its indicator calls in the order of their identities. -/
structure Registered (s : Strategy) : Prop where
  indicators : ∀ call ∈ s.indicators, call.isIndicatorCall = true
  increasing : s.indicators.Pairwise fun a b => callId a < callId b
  listed : ∀ {id : Nat} {name : String} {args : List (Argument Expr)},
    Belongs s (.call id name args) → isIndicatorName name = true →
      .call id name args ∈ s.indicators
  identified : ∀ {id : Nat} {name name' : String}
    {args args' : List (Argument Expr)},
    Belongs s (.call id name args) → Belongs s (.call id name' args') →
      name = name' ∧ args = args'

/-- A call is one of its own calls. -/
theorem mem_calls_self (id : Nat) (name : String)
    (args : List (Argument Expr)) :
    .call id name args ∈ (Expr.call id name args).calls := by
  rw [Expr.calls]
  exact List.mem_append_right _ List.mem_cons_self

/-- A call that belongs to a strategy is a call of what it states. -/
theorem mem_calls_of_belongs {s : Strategy} {id : Nat} {name : String}
    {args : List (Argument Expr)} (h : Belongs s (.call id name args)) :
    ∃ root, s.States root ∧ .call id name args ∈ root.calls := by
  obtain ⟨root, hroot, hsubset⟩ := calls_of_belongs h
  exact ⟨root, hroot, hsubset (mem_calls_self id name args)⟩

/-- **Calls are told apart by their identities.** In a script that parses, two
calls with one identity are the same call with the same arguments, wherever
they stand, and the list holds every indicator call, in the order of the
identities. -/
theorem registered_of_parse {source : String} {s : Strategy}
    (h : Strategy.parse source = .ok s) : Registered s where
  indicators := by
    obtain ⟨all, _, rfl⟩ := statements_of_parse h
    rw [indicators_eq_filter]
    exact fun call hcall => (List.mem_filter.mp hcall).2
  increasing := indicators_increasing h
  listed := by
    intro id name args hbelongs hname
    obtain ⟨hlisted, _⟩ := identified_of_parse h
    exact indicatorCalls_of_belongs hlisted hbelongs
      (mem_indicatorCalls_self hname)
  identified := by
    intro id name name' args args' hbelongs hbelongs'
    obtain ⟨root, hroot, hcall⟩ := mem_calls_of_belongs hbelongs
    obtain ⟨root', hroot', hcall'⟩ := mem_calls_of_belongs hbelongs'
    have hsame := identified_calls h hroot hroot' hcall hcall' rfl
    cases hsame
    exact ⟨rfl, rfl⟩

/-- A script with nested calls, one of them in an argument that is dropped. -/
def droppedArgument : String :=
  "a = ta.sma(ta.ema(close, 3), input.int(5), ta.rma(close, 2) + , 7)\nstrategy.entry(\"L\", strategy.long, when=ta.crossover(a, ta.wma(a, 4)))"

/-- The number of the call in the dropped argument is left out. -/
theorem registered_of_parse_droppedArgument :
    ∃ s, Strategy.parse droppedArgument = .ok s ∧
      s.indicators.map callId = [0, 3, 4, 5] ∧ Registered s := by
  have hids : (Strategy.parse droppedArgument).toOption.map
      (fun s => s.indicators.map callId) = some [0, 3, 4, 5] := by
    decide +kernel
  obtain ⟨s, hs, hids⟩ := exists_ok_of_map hids
  exact ⟨s, hs, hids, registered_of_parse hs⟩

end Barscript.Session

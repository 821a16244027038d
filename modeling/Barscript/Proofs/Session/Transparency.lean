import Barscript.Proofs.Session.Modes

/-!
# What the cache may be forgotten for

A session keeps the values of indicator calls while its bars and its inputs
stay. Whether that shows depends on the expression: the value of a call that
reads the position is the one of the position in which it was computed first,
and a variable that reaches itself is absent where the evaluation that computed
a call was already reading it. An expression that meets neither has the value
that it has when nothing was kept, after any operations
(`resolve_forget`).
-/

namespace Barscript.Session

open Barscript.Script Barscript.Series Barscript.Builtin Barscript.Market
open Barscript.Trading

/-! ## Operations -/

/-- What is done to a session. -/
inductive Operation where
  | setInput (name : String) (value : Value)
  | loadBars (bars : List Bar)
  | processBar (bar : Bar)
  | runBacktest (config : Config)
  | resolve (e : Expr)
  | resolveName (name : String)

/-- The session after an operation. -/
def perform (s : Session) : Operation → Session
  | .setInput name value => s.setInput name value
  | .loadBars bars => s.loadBars bars
  | .processBar bar => (s.processBar bar).2
  | .runBacktest config => (s.runBacktest config).2
  | .resolve e => (s.resolve e).2
  | .resolveName name => (s.resolveName name).2

/-- The session after some operations. -/
def performAll (s : Session) (operations : List Operation) : Session :=
  operations.foldl perform s

/-- The session without the values that it keeps. -/
def forget (s : Session) : Session :=
  { s with cache := [] }

theorem strategy_perform (s : Session) (operation : Operation) :
    (s.perform operation).strategy = s.strategy := by
  cases operation <;> rfl

/-! ## Expressions of a strategy -/

/-- The expression is stated by the strategy, or it is a piece of one that
is. -/
def Belongs (s : Strategy) (e : Expr) : Prop :=
  ∃ root, s.States root ∧ Relation.ReflTransGen (Piece true) root e

/-- No indicator call in the expression has the identity of another call of
the strategy. -/
def Compatible (s : Strategy) (e : Expr) : Prop :=
  ∀ call ∈ e.indicatorCalls, ∀ known ∈ s.indicators,
    callId call = callId known → call = known

section

variable {s : Strategy} {e : Expr}

/-- The calls of what belongs to a strategy are calls of what it states. -/
theorem calls_of_belongs (h : Belongs s e) :
    ∃ root, s.States root ∧ e.calls ⊆ root.calls := by
  obtain ⟨root, hroot, hpieces⟩ := h
  refine ⟨root, hroot, ?_⟩
  induction hpieces with
  | refl => exact List.Subset.refl _
  | tail _ hpiece ih =>
      rcases hpiece.calls with ⟨_, hname⟩ | hsubset
      · cases hname
      · exact List.Subset.trans hsubset ih

theorem indicatorCalls_of_belongs (hlisted : Listed s) (h : Belongs s e) :
    e.indicatorCalls ⊆ s.indicators := by
  obtain ⟨root, hroot, hsubset⟩ := calls_of_belongs h
  refine List.Subset.trans ?_ (hlisted root hroot)
  rw [← filter_calls, ← filter_calls]
  exact filter_isIndicatorCall_subset hsubset

/-- What belongs to a script that parses is compatible with it. -/
theorem compatible_of_belongs {source : String}
    (hparse : Strategy.parse source = .ok s) (h : Belongs s e) :
    Compatible s e := by
  obtain ⟨hlisted, hids⟩ := identified_of_parse hparse
  intro call hcall known hknown heq
  exact hids call (indicatorCalls_of_belongs hlisted h hcall) known hknown heq

end

/-! ## Reading with some definitions given up -/

/-- The definitions that were given up are those whose reading led to the
expression. -/
structure Inside (w : World) (available : Definitions) (e : Expr) :
    Prop where
  sublist : available.Sublist w.definitions
  reads : ∀ key value, w.strategy.definitions[key]? = some value →
    release? key available = none → Reads w true value e

section

variable {w : World} {available left : Definitions} {e f : Expr}

theorem Inside.all (w : World) (e : Expr) : Inside w w.definitions e where
  sublist := List.Sublist.refl _
  reads key value hvalue hnone := by
    obtain ⟨left, hleft⟩ := release?_definitions hvalue
    rw [hnone] at hleft
    cases hleft

theorem Inside.part (h : Inside w available e)
    (hpart : Part w.entered? true e f) : Inside w available f where
  sublist := h.sublist
  reads key value hvalue hnone := (h.reads key value hvalue hnone).tail hpart

theorem Inside.definition (h : Inside w available e) {name : String}
    (hname : nameRead? e = some name) (hentered : w.entered? name = some f)
    (hr : release? (variableOf w.strategy name) available = some (f, left)) :
    Inside w left f where
  sublist := (release?_sublist hr).2.trans h.sublist
  reads := by
    intro key value hvalue hnone
    by_cases hkey : key = variableOf w.strategy name
    · -- The definition that is given up now is the one that is read.
      subst hkey
      rw [getElem?_of_entered? hentered] at hvalue
      cases hvalue
      exact .refl
    · cases hbefore : release? key available with
      | none =>
          exact (h.reads key value hvalue hbefore).tail
            (.definition hname hentered)
      | some found =>
          obtain ⟨rest, hrest⟩ := release?_of_ne hr hkey hbefore
          rw [hnone] at hrest
          cases hrest

/-- An expression that meets no variable which reaches itself has all
definitions that it needs. -/
theorem Inside.holds (h : Inside w available e)
    (hloops : ∀ f, Reads w true e f → ¬w.Loops f) :
    Holds w available e where
  sublist := h.sublist
  needed := by
    intro f hf name hname value hentered
    have hdef := getElem?_of_entered? hentered
    cases hr : release? (variableOf w.strategy name) available with
    | some found =>
        obtain ⟨value', left⟩ := found
        have hsame := (definition_of_release? h.sublist hr).1
        rw [hdef] at hsame
        cases hsame
        exact ⟨left, rfl⟩
    | none =>
        -- It is being read, so it leads to the name that stands for it.
        have hback := (h.reads _ value hdef hr).trans hf
        exact absurd ⟨name, value, hname, hentered, f, name, hback, hname,
          Option.isSome_of_eq_some hentered, rfl⟩ (hloops f hf)

end

/-! ## Calls whose values last -/

/-- Expressions of the strategy with all that they read. No variable among
them reaches itself and no indicator call reads the position. -/
structure Lasting (w : World) (S : Expr → Prop) : Prop where
  regular : Regular w S
  positionFree : PositionFree w S
  listed : ∀ {id : Nat} {name : String} {args : List (Argument Expr)},
    isIndicatorName name = true → S (.call id name args) →
      .call id name args ∈ w.strategy.indicators

/-- A strategy that lists its indicator calls, each with its own identity. -/
structure Identified (s : Strategy) : Prop where
  listed : Listed s
  distinct : ∀ a ∈ s.indicators, ∀ b ∈ s.indicators,
    callId a = callId b → a = b

/-- An expression with listed indicator calls is compatible with the
strategy. -/
theorem Identified.compatible {s : Strategy} (hs : Identified s) {e : Expr}
    (he : e.indicatorCalls ⊆ s.indicators) : Compatible s e :=
  fun call hcall => hs.distinct call (he hcall)

/-- Compatible expressions, whichever variables are being read. -/
def compatibleScope {w : World} (hw : Identified w.strategy) : Scope w where
  contains available e := Inside w available e ∧ Compatible w.strategy e
  sublist h := h.1.sublist
  piece := by
    rintro available e f ⟨hinside, hcompatible⟩ hpiece
    refine ⟨hinside.part hpiece.part, calls_of_part hpiece ?_ hcompatible⟩
    intro name g hg
    cases hg
  definition := by
    rintro available left e f name ⟨hinside, _⟩ hname hentered hr
    exact ⟨hinside.definition hname hentered hr,
      hw.compatible (hw.listed f (.definition (getElem?_of_entered? hentered)))⟩

section

variable {w : World} {S : Expr → Prop} {p : Position}

/-- What a set reads lasts if it is in the set and its indicator calls are
listed. -/
theorem Lasting.of_closed (hw : Identified w.strategy)
    (hunlooped : ∀ e, S e → ¬w.Loops e)
    (hclosed : ∀ {e f : Expr}, S e → Part w.entered? true e f → S f)
    (hcalls : ∀ e, S e → e.indicatorCalls ⊆ w.strategy.indicators)
    (hfree : PositionFree w S) : Lasting w S := by
  have hlisted : ∀ {id : Nat} {name : String} {args : List (Argument Expr)},
      isIndicatorName name = true → S (.call id name args) →
      .call id name args ∈ w.strategy.indicators :=
    fun hname hcall => hcalls _ hcall (mem_indicatorCalls_self hname)
  refine ⟨⟨hunlooped, hclosed, ?_⟩, hfree, hlisted⟩
  intro id name name' args args' hcall hcall' hname hname'
  have heq := hw.distinct _ (hlisted hname hcall) _ (hlisted hname' hcall')
    rfl
  injection heq with _ hnames hargs
  exact ⟨hnames, hargs⟩

/-- The value of a call outside of a set does not matter to the set. -/
theorem Faithful.foreign {v : World} {c : Cache} (hc : Faithful v S c)
    {id : Nat} (hid : ∀ name args, isIndicatorName name = true →
      ¬S (.call id name args)) (u : Value) :
    Faithful v S ((id, u) :: c) := by
  intro other value hvalue name args hname hcall
  rw [List.lookup_cons] at hvalue
  split at hvalue
  · rename_i heq
    obtain rfl := eq_of_beq heq
    exact absurd hcall (hid name args hname)
  · exact hc other value hvalue name args hname hcall

theorem Lasting.holding (h : Lasting w S) (p : Position) :
    Lasting (w.holding p) S :=
  ⟨⟨h.regular.acyclic, h.regular.closed, h.regular.identified⟩,
    h.positionFree, h.listed⟩

/-- Whichever call is evaluated, the kept values of the calls in the set stay
the values of these calls. -/
theorem keptByCalls_faithful (hw : Identified w.strategy)
    (h : Lasting w S) :
    KeptByCalls (compatibleScope hw) p (Faithful (w.holding p) S) := by
  rintro available id name args hname ⟨hinside, hcompatible⟩ shown c hc hargs
  by_cases hcall : S (.call id name args)
  · have hholds : Holds w available (.call id name args) := by
      refine hinside.holds fun f hf => ?_
      exact h.regular.acyclic f (Reads.within (fun _ _ he hpart =>
        h.regular.closed he hpart) hcall hf)
    exact (evaluate_eq_fresh h.regular hcall hholds p shown hc).2
  · cases hlookup : c.lookup id with
    | some u =>
        rw [evaluate_hit hname hlookup]
        exact hc
    | none =>
        rw [evaluate_miss hname hlookup]
        refine hargs.foreign ?_ _
        intro name' args' hname' hcall'
        have heq := hcompatible _ (mem_indicatorCalls_self hname) _
          (h.listed hname' hcall') rfl
        rw [← heq] at hcall'
        exact hcall hcall'

theorem keeps_faithful (hw : Identified w.strategy) (h : Lasting w S)
    {e : Expr} (he : Compatible w.strategy e) (shown : Nat) :
    Keeps (Faithful (w.holding p) S) ((w.holding p).valueOn shown e) :=
  Scope.keeps (keptByCalls_faithful hw h) shown e ⟨.all w e, he⟩

/-- Values that last are kept in every position. -/
theorem keptByStates_faithful (hw : Identified w.strategy)
    (h : Lasting w S) : KeptByStates w (Faithful w S) := by
  intro p shown e _ he c hc
  have hthere : Faithful (w.holding p) S c :=
    Faithful.holding (p := w.position) h.regular h.positionFree hc p
  exact (keeps_faithful hw h (hw.compatible (hw.listed e he)) shown c hthere).holding h.regular
    h.positionFree w.position

end

/-! ## Every operation -/

/-- What the session keeps of calls whose values last are their values. -/
def Transparent (s : Session) : Prop :=
  ∀ S, Lasting s.toWorld S → Faithful s.toWorld S s.cache

theorem transparent_start (strategy : Strategy) (symbol : String) :
    Transparent (start strategy symbol) :=
  fun S _ => .empty _ S

/-- **Every operation leaves a session transparent.** -/
theorem Transparent.perform {s : Session} (hw : Identified s.strategy)
    (h : Transparent s) (operation : Operation)
    (hcompatible : ∀ e, operation = .resolve e → Compatible s.strategy e) :
    Transparent (s.perform operation) := by
  intro S hS
  cases operation with
  | setInput name value => exact .empty _ S
  | loadBars bars => exact .empty _ S
  | resolve e =>
      exact keeps_faithful (p := s.position) hw hS (hcompatible e rfl)
        s.bars.length s.cache (h S hS)
  | resolveName name =>
      -- A name is read as the expression that it is.
      have hname : Compatible s.strategy (.ref name) := by
        intro call hcall
        cases hcall
      have hkeeps := keeps_faithful (p := s.position) hw hS hname
        s.bars.length s.cache (h S hS)
      unfold World.valueOn at hkeeps
      rw [evaluate] at hkeeps
      exact hkeeps
  | processBar bar =>
      have hS : Lasting (s.loadBars (s.bars ++ [bar])).toWorld S :=
        hS.holding s.position
      have hkeeps := keeps_decide (keptByStates_faithful
        (w := (s.loadBars (s.bars ++ [bar])).toWorld) hw hS)
        s.entryQuantity [] (.empty _ S)
      exact Faithful.holding (p := s.position) hS.regular hS.positionFree
        hkeeps _
  | runBacktest config =>
      have hS : Lasting s.toWorld S := hS.holding s.position
      have hkeeps := keeps_backtest (keptByStates_faithful hw hS)
        config.capital ⟨[], []⟩ (Faithful.empty _ S)
      exact Faithful.holding (p := s.position) hS.regular hS.positionFree
        hkeeps .flat

/-- Any operations leave it transparent. -/
theorem Transparent.performAll {s : Session} (hw : Identified s.strategy)
    (h : Transparent s) (operations : List Operation)
    (hcompatible : ∀ e, .resolve e ∈ operations →
      Compatible s.strategy e) :
    Transparent (s.performAll operations) ∧
      (s.performAll operations).strategy = s.strategy := by
  induction operations generalizing s with
  | nil => exact ⟨h, rfl⟩
  | cons operation rest ih =>
      have hstrategy := strategy_perform s operation
      have hstep : Transparent (s.perform operation) := by
        refine h.perform hw operation ?_
        rintro e rfl
        exact hcompatible e List.mem_cons_self
      obtain ⟨hrest, hsame⟩ := ih (s := s.perform operation)
        (by rw [hstrategy]; exact hw) hstep (by
          intro e he
          rw [hstrategy]
          exact hcompatible e (List.mem_cons_of_mem _ he))
      exact ⟨hrest, hsame.trans hstrategy⟩

/-! ## Forgetting -/

/-- What the expression reads can be kept: no variable among it reaches itself,
and no indicator call among it reads the position. -/
structure World.Keepable (w : World) (e : Expr) : Prop where
  unlooped : ∀ f, Reads w true e f → ¬w.Loops f
  positionFree : ∀ id name args, isIndicatorName name = true →
    Reads w true e (.call id name args) →
    ∀ x ∈ args, ∀ f, Reads w true x.value f → ¬w.ReadsPosition f

theorem World.Keepable.lasting {w : World} {e : Expr}
    (hw : Identified w.strategy) (he : e.indicatorCalls ⊆ w.strategy.indicators)
    (h : w.Keepable e) : Lasting w (Reads w true e) :=
  .of_closed hw h.unlooped (fun hf hpart => hf.tail hpart)
    (fun _ hf => indicatorCalls_of_reads hw.listed he hf) h.positionFree

/-- **Forgetting what was kept does not show.** After any operations an
expression of the script has the value that it has when the cache is emptied
first, if no variable that it reads reaches itself and no indicator call that
it reads reads the position. -/
theorem resolve_forget {source : String} {strategy : Strategy}
    (hparse : Strategy.parse source = .ok strategy) (symbol : String)
    (operations : List Operation)
    (hcompatible : ∀ e, .resolve e ∈ operations → Compatible strategy e)
    {e : Expr} (he : Belongs strategy e)
    (hkeepable :
      ((start strategy symbol).performAll operations).Keepable e) :
    (((start strategy symbol).performAll operations).resolve e).1 =
      (((start strategy symbol).performAll operations).forget.resolve e).1 := by
  obtain ⟨hlisted, hids⟩ := identified_of_parse hparse
  have hw : Identified strategy := ⟨hlisted, hids⟩
  have hstart : Transparent (start strategy symbol) := transparent_start _ _
  obtain ⟨htransparent, hstrategy⟩ :=
    hstart.performAll hw operations hcompatible
  generalize (start strategy symbol).performAll operations = s at *
  have hs : Identified s.strategy := by
    rw [hstrategy]
    exact hw
  have hcalls : e.indicatorCalls ⊆ s.strategy.indicators := by
    rw [hstrategy]
    exact indicatorCalls_of_belongs hlisted he
  have hlasting := hkeepable.lasting hs hcalls
  exact (evaluate_eq_fresh hlasting.regular .refl (.all s.toWorld e)
    s.position s.bars.length (htransparent _ hlasting)).1

theorem SteadyScript.keepable {w : World} (h : SteadyScript w) {e : Expr}
    (he : w.InScript e) : w.Keepable e where
  unlooped f _ := h.acyclic.not_loops f
  positionFree id name args hname hcall := by
    obtain ⟨root, hroot, hreads⟩ := he
    exact h.positionFree id name args hname ⟨root, hroot, hreads.trans hcall⟩

/-- The change of the close, after an entry, a backtest and a reading. -/
theorem resolve_forget_changing :
    ∃ strategy g, Strategy.parse changingScript = .ok strategy ∧
      Belongs strategy g ∧
      (((start strategy "").performAll
        [.loadBars changingBars, .runBacktest .default, .resolve g,
          .processBar (stillBar 7.0)]).resolve g).1 =
      (((start strategy "").performAll
        [.loadBars changingBars, .runBacktest .default, .resolve g,
          .processBar (stillBar 7.0)]).forget.resolve g).1 := by
  obtain ⟨s, hparse, ⟨g, hg⟩, hsteady⟩ := steadyScript_changing
  have hbelongs : Belongs s g := ⟨g, .indicator hg, .refl⟩
  refine ⟨s, g, hparse, hbelongs, resolve_forget hparse "" _ ?_ hbelongs ?_⟩
  · intro e he
    simp only [List.mem_cons, reduceCtorEq, Operation.resolve.injEq,
      List.not_mem_nil, or_false, false_or] at he
    rw [he]
    exact compatible_of_belongs hparse hbelongs
  · exact (hsteady _ rfl rfl).keepable ⟨g, Or.inr hg, .refl⟩

/-! ## Where it shows -/

/-- A script whose indicator reads the position that it enters. -/
def heldScript : String :=
  "held = ta.ema(strategy.position_size)\nstrategy.entry(\"L\", strategy.long)"

/-- A script of two variables that reach each other. -/
def loopScript : String :=
  "a = ta.ema(nz(b, 0))\nb = ta.ema(nz(a, 0) + 1)"

/-- Whether the first indicator call of a script is true after some
operations, as it was kept and as it is after forgetting. -/
def truths (source : String) (operations : List Operation) :
    Option (Bool × Bool) :=
  (Strategy.parse source).toOption.bind fun strategy =>
    strategy.indicators.head?.map fun e =>
      let s := (start strategy "").performAll operations
      ((s.resolve e).1.isTruthy, (s.forget.resolve e).1.isTruthy)

theorem exists_of_truths {source : String} {operations : List Operation}
    {kept fresh : Bool} (h : truths source operations = some (kept, fresh))
    (hne : kept ≠ fresh) :
    ∃ strategy, Strategy.parse source = .ok strategy ∧
      ∃ e, Belongs strategy e ∧
        (((start strategy "").performAll operations).resolve e).1 ≠
          (((start strategy "").performAll operations).forget.resolve e).1 := by
  unfold truths at h
  cases hparse : Strategy.parse source with
  | error fault =>
      rw [hparse] at h
      cases h
  | ok strategy =>
      rw [hparse] at h
      obtain ⟨e, he, hpair⟩ := Option.map_eq_some_iff.mp h
      have hkept := congrArg Prod.fst hpair
      have hfresh := congrArg Prod.snd hpair
      refine ⟨strategy, rfl, e,
        ⟨e, .indicator (List.mem_of_head? he), .refl⟩, ?_⟩
      intro heq
      refine hne (hkept.symm.trans (Eq.trans ?_ hfresh))
      exact congrArg Value.isTruthy heq

/-- Forgetting shows on a call that reads the position, and on a call inside of
variables that reach each other. -/
theorem forgetting_shows :
    (∃ strategy, Strategy.parse heldScript = .ok strategy ∧
      ∃ e, Belongs strategy e ∧
        (((start strategy "").performAll
          [.processBar (stillBar 3.0)]).resolve e).1 ≠
        (((start strategy "").performAll
          [.processBar (stillBar 3.0)]).forget.resolve e).1) ∧
    ∃ strategy, Strategy.parse loopScript = .ok strategy ∧
      ∃ e, Belongs strategy e ∧
        (((start strategy "").performAll
          [.loadBars [stillBar 3.0], .resolveName "b"]).resolve e).1 ≠
        (((start strategy "").performAll
          [.loadBars [stillBar 3.0], .resolveName "b"]).forget.resolve e).1 := by
  have hheld : truths heldScript [.processBar (stillBar 3.0)] =
      some (false, true) := by
    decide +kernel
  have hloop : truths loopScript
      [.loadBars [stillBar 3.0], .resolveName "b"] = some (false, true) := by
    decide +kernel
  exact ⟨exists_of_truths hheld (by decide), exists_of_truths hloop (by decide)⟩

end Barscript.Session

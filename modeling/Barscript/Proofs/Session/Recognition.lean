import Barscript.Proofs.Session.Symbol

/-!
# Scripts that are seen to be steady

`SteadyScript` speaks of everything that a script reads. A search that follows
names and arguments to a given depth goes through all of it, or else refuses
the expression (`of_readsAll`); so each condition becomes a test of single
expressions. A script that passes the tests is steady
(`steadyScript_of_isSteady`). The search refuses more than it has to: an
indicator whose numbers change their place with its sources, and inputs that
are declared without a variable.
-/

namespace Barscript.Session

open Barscript.Script Barscript.Builtin Barscript.Series

/-! ## The search -/

/-- What is read first when an expression is read, where names are replaced by
the definitions that `enter` gives. -/
def partsOf (enter : String → Option Expr) : Expr → List Expr
  | .literal _ => []
  | .ref name => (enter name).toList
  | .call _ _ args => args.map Argument.value
  | .binary _ left right => [left, right]
  | .unary _ operand => [operand]
  | .ternary condition whenTrue whenFalse => [condition, whenTrue, whenFalse]
  | .indexed name offset => offset :: (enter name).toList

/-- Whether everything that an expression reads passes a test. An expression
that goes on behind the depth is refused. -/
def readsAll (enter : String → Option Expr) (test : Expr → Bool) :
    Nat → Expr → Bool
  | 0, _ => false
  | depth + 1, e =>
    test e && (partsOf enter e).all (readsAll enter test depth)

section

variable {enter : String → Option Expr} {test : Expr → Bool} {depth : Nat}
  {e f : Expr}

theorem mem_partsOf {into : Bool} (h : Part enter into e f) :
    f ∈ partsOf enter e := by
  cases h with
  | @definition _ _ name hname hentered =>
      cases e with
      | ref _ =>
          cases hname
          exact Option.mem_toList.mpr hentered
      | indexed _ _ =>
          cases hname
          exact List.mem_cons_of_mem _ (Option.mem_toList.mpr hentered)
      | _ => cases hname
  | offset => exact List.mem_cons_self
  | argument _ ha => exact List.mem_map_of_mem ha
  | left => exact List.mem_cons_self
  | right => exact List.mem_cons_of_mem _ List.mem_cons_self
  | operand => exact List.mem_cons_self
  | condition => exact List.mem_cons_self
  | whenTrue => exact List.mem_cons_of_mem _ List.mem_cons_self
  | whenFalse =>
      exact List.mem_cons_of_mem _ (List.mem_cons_of_mem _ List.mem_cons_self)

theorem readsAll_cases (h : readsAll enter test depth e = true) :
    test e = true ∧ ∃ shorter, ∀ f ∈ partsOf enter e,
      readsAll enter test shorter f = true := by
  cases depth with
  | zero => cases h
  | succ shorter =>
      rw [readsAll, Bool.and_eq_true, List.all_eq_true] at h
      exact ⟨h.1, shorter, h.2⟩

/-- The search is sound. -/
theorem of_readsAll {w : World}
    (h : readsAll w.entered? test depth e = true) (hreads : Reads w true e f) :
    test f = true := by
  have hsome : ∃ depth, readsAll w.entered? test depth f = true := by
    refine Reads.within (S := fun f => ∃ depth,
      readsAll w.entered? test depth f = true) ?_ ⟨depth, h⟩ hreads
    rintro e f ⟨depth, he⟩ hpart
    obtain ⟨_, shorter, hparts⟩ := readsAll_cases he
    exact ⟨shorter, hparts f (mem_partsOf hpart)⟩
  obtain ⟨_, hf⟩ := hsome
  exact (readsAll_cases hf).1

end

/-! ## Tests -/

/-- Whether an expression, judged without its parts, may stand among those that
are built from literals. -/
def mayBeLiteral (enter : String → Option Expr) : Expr → Bool
  | .ref name => (enter name).isSome
  | .call _ name _ => !isIndicatorName name
  | .indexed name _ => (enter name).isSome
  | _ => true

/-- What passes with all its parts is built from literals. -/
theorem fromLiterals_of_readsAll {w : World} {depth : Nat} {e : Expr}
    (h : readsAll w.entered? (mayBeLiteral w.entered?) depth e = true) :
    FromLiterals w e := by
  induction depth generalizing e with
  | zero => cases h
  | succ depth ih =>
      rw [readsAll, Bool.and_eq_true, List.all_eq_true] at h
      obtain ⟨htest, hparts⟩ := h
      have hname : ∀ name, (w.entered? name).isSome = true →
          (∀ f ∈ (w.entered? name).toList, f ∈ partsOf w.entered? e) →
          FromLiterals w (.ref name) := by
        intro name hsome hsubset
        obtain ⟨f, hf⟩ := Option.isSome_iff_exists.mp hsome
        exact .named hf (ih (hparts f (hsubset f (Option.mem_toList.mpr hf))))
      cases e with
      | literal value => exact .literal value
      | ref name => exact hname name htest fun _ hf => hf
      | call id name args =>
          refine .call ((Bool.not_eq_true' _).mp htest) fun a ha => ?_
          exact ih (hparts _ (List.mem_map_of_mem ha))
      | unary op operand =>
          exact .unary op (ih (hparts _ List.mem_cons_self))
      | binary op left right =>
          rw [partsOf, List.forall_mem_cons, List.forall_mem_singleton]
            at hparts
          exact .binary op (ih hparts.1) (ih hparts.2)
      | ternary c a b =>
          rw [partsOf, List.forall_mem_cons, List.forall_mem_cons,
            List.forall_mem_singleton] at hparts
          exact .ternary (ih hparts.1) (ih hparts.2.1) (ih hparts.2.2)
      | indexed name offset =>
          exact .indexed
            (hname name htest fun _ hf => List.mem_cons_of_mem _ hf)
            (ih (hparts _ List.mem_cons_self))

/-- Whether an expression does not look at the newest bar in view, nor at the
position. -/
def isStill (e : Expr) : Bool :=
  !readsView e && nameRead? e != some positionName

theorem settled_of_isStill {e : Expr} (h : isStill e = true) :
    Settled e ∧ nameRead? e ≠ some positionName := by
  rw [isStill, Bool.and_eq_true, Bool.not_eq_true', bne_iff_ne] at h
  exact ⟨settled_of_readsView h.1, h.2⟩

/-- The indicators that read their numbers behind any number of sources. -/
def shiftingNames : List String :=
  ["ta.stoch", "ta.cci", "ta.highest", "ta.lowest", "ta.mfi"]

/-- The others read them from the same slots in every call. -/
theorem numberSlots_eq_empty {name : String} (h : name ∉ shiftingNames)
    (args : Arguments) : numberSlots name args = numberSlots name .empty := by
  unfold numberSlots
  split
  all_goals first | rfl | exact absurd (by decide) h

/-- Whether an expression, if it is a call, has arguments that are steady: they
are literals where one number is read, and still in an indicator. -/
def hasSteadyArguments (enter : String → Option Expr) (depth : Nat) :
    Expr → Bool
  | .call _ name args =>
    (numberSlots name .empty).all (fun slot => (argumentAt? args slot).all
      (readsAll enter (mayBeLiteral enter) depth)) &&
    (!isIndicatorName name || !shiftingNames.contains name &&
      args.all fun x => readsAll enter isStill depth x.value)
  | _ => true

/-- Whether an expression is no name of the variable. -/
def avoidsVariable (s : Strategy) (enter : String → Option Expr) (key : String)
    (e : Expr) : Bool :=
  (nameRead? e).all fun name =>
    (enter name).isNone || variableOf s name != key

/-! ## Scripts -/

/-- The guards of a strategy. -/
def guardsOf (s : Strategy) : List Expr :=
  s.entries.filterMap Entry.guard ++ s.exits.filterMap Exit.guard

theorem mem_guardsOf {w : World} {g : Expr} (h : w.IsGuard g) :
    g ∈ guardsOf w.strategy := by
  rcases h with ⟨entry, hentry, hg⟩ | ⟨exit, hexit, hg⟩
  · exact List.mem_append_left _ (List.mem_filterMap.mpr ⟨entry, hentry, hg⟩)
  · exact List.mem_append_right _ (List.mem_filterMap.mpr ⟨exit, hexit, hg⟩)

/-- The definitions that a script enters when nothing is set. -/
def enteredIn? (s : Strategy) : String → Option Expr :=
  (start s "").toWorld.entered?

theorem enteredIn?_eq {w : World} (hset : w.overrides = ∅) :
    enteredIn? w.strategy = w.entered? := by
  funext name
  unfold enteredIn? World.entered? World.isFixed
  rw [hset]
  rfl

/-- Whether a script passes the tests of a steady one. -/
def isSteady (s : Strategy) (depth : Nat) : Bool :=
  s.definitions.toList.all (fun definition =>
    readsAll (enteredIn? s) (avoidsVariable s (enteredIn? s) definition.1)
      depth definition.2) &&
  (guardsOf s ++ s.indicators).all
    (readsAll (enteredIn? s) (hasSteadyArguments (enteredIn? s) depth) depth)

/-- **A script that passes the tests is steady.** -/
theorem steadyScript_of_isSteady {w : World} (hset : w.overrides = ∅)
    {depth : Nat} (h : isSteady w.strategy depth = true) : SteadyScript w := by
  rw [isSteady, enteredIn?_eq hset, Bool.and_eq_true, List.all_eq_true,
    List.all_eq_true] at h
  obtain ⟨hdefinitions, hroots⟩ := h
  have htest : ∀ {e}, w.InScript e →
      hasSteadyArguments w.entered? depth e = true := by
    rintro e ⟨root, hroot, hreads⟩
    refine of_readsAll (hroots root ?_) hreads
    exact List.mem_append.mpr (hroot.imp mem_guardsOf id)
  have hslot : ∀ {id name args}, w.InScript (.call id name args) →
      ∀ slot ∈ numberSlots name .empty, ∀ e, argumentAt? args slot = some e →
        FromLiterals w e := by
    intro id name args hin slot hslot e he
    have hcall := htest hin
    rw [hasSteadyArguments, Bool.and_eq_true, List.all_eq_true] at hcall
    have hbuilt := hcall.1 slot hslot
    rw [he] at hbuilt
    exact fromLiterals_of_readsAll hbuilt
  have hindicator : ∀ {id name args}, isIndicatorName name = true →
      w.InScript (.call id name args) → name ∉ shiftingNames ∧
        ∀ x ∈ args, readsAll w.entered? isStill depth x.value = true := by
    intro id name args hname hin
    have hcall := htest hin
    rw [hasSteadyArguments, hname, Bool.not_true, Bool.false_or,
      Bool.and_eq_true, Bool.and_eq_true, Bool.not_eq_true'] at hcall
    exact ⟨by simpa using hcall.2.1, List.all_eq_true.mp hcall.2.2⟩
  refine ⟨?_, ?_, ?_, ?_⟩
  · intro key value hvalue e hreads name hname f hf
    have hmem : (key, value) ∈ w.strategy.definitions.toList :=
      Std.ExtTreeMap.mem_toList_iff_getElem?_eq_some.mpr hvalue
    have hname' := of_readsAll (hdefinitions _ hmem) hreads
    rw [avoidsVariable, hname, Option.all_some, hf, Option.isNone_some,
      Bool.false_or, bne_iff_ne] at hname'
    exact hname'
  · exact fun id args hin => hslot hin _ List.mem_cons_self
  · intro id name args hname hin x hx e he
    exact settled_of_isStill (of_readsAll ((hindicator hname hin).2 x hx) he)
  · intro id name args hname hin slot hs
    rw [numberSlots_eq_empty (hindicator hname hin).1] at hs
    exact hslot hin slot hs

/-- Whether no guard of a script reads the symbol. -/
def isSymbolFree (s : Strategy) (depth : Nat) : Bool :=
  (guardsOf s).all (readsAll (enteredIn? s)
    (fun e => (nameRead? e).all fun name => !symbolNames.contains name) depth)

theorem symbolFreeGuards_of_isSymbolFree {w : World} (hset : w.overrides = ∅)
    {depth : Nat} (h : isSymbolFree w.strategy depth = true) :
    w.SymbolFreeGuards := by
  rw [isSymbolFree, enteredIn?_eq hset, List.all_eq_true] at h
  intro g hg f hreads name hname
  have htest := of_readsAll (h g (mem_guardsOf hg)) hreads
  rw [hname, Option.all_some, Bool.not_eq_true'] at htest
  simpa using htest

end Barscript.Session

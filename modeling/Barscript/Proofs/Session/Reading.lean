import Mathlib.Logic.Relation
import Barscript.Session.ViewDependence
import Barscript.Proofs.Script.Identities
import Barscript.Proofs.Session.Definitions
import Barscript.Proofs.Session.View

/-!
# What an expression reads

An expression reads its parts, the definitions of its names and, for an
indicator call, its arguments, which are read over all bars. `Reads` follows
them; with `into` also into the arguments of indicator calls.

A value read at one bar may depend on other bars in one way only: something
that is one number has a column and takes its newest bar. `ViewFree` says of
an expression that this does not happen in it, judged by the values that its
parts take from every cache that evaluations may have left (`Cached`).
-/

namespace Barscript.Session

open Barscript.Script Barscript.Series Barscript.Builtin Barscript.Market
open Barscript.Trading

/-! ## Parts -/

/-- The definition that is entered when a name is read. -/
def World.entered? (w : World) (name : String) : Option Expr :=
  if w.isFixed name || w.isFixed (variableOf w.strategy name) then none
  else w.strategy.definitions[variableOf w.strategy name]?

/-- The name that an expression reads, bare or with an index. -/
def nameRead? : Expr → Option String
  | .ref name => some name
  | .indexed name _ => some name
  | _ => none

/-- What is read first when an expression is read, where names are replaced
by the definitions that `enter` gives. The arguments of an indicator call count
only where `into` is true. -/
inductive Part (enter : String → Option Expr) (into : Bool) :
    Expr → Expr → Prop where
  | definition {e f : Expr} {name : String} (hname : nameRead? e = some name)
      (h : enter name = some f) : Part enter into e f
  | offset {name : String} {offset : Expr} :
      Part enter into (.indexed name offset) offset
  | argument {id : Nat} {name : String} {args : List (Argument Expr)}
      {a : Argument Expr} (hinto : into = true ∨ isIndicatorName name = false)
      (h : a ∈ args) : Part enter into (.call id name args) a.value
  | left {op : BinaryOp} {a b : Expr} : Part enter into (.binary op a b) a
  | right {op : BinaryOp} {a b : Expr} : Part enter into (.binary op a b) b
  | operand {op : UnaryOp} {a : Expr} : Part enter into (.unary op a) a
  | condition {c a b : Expr} : Part enter into (.ternary c a b) c
  | whenTrue {c a b : Expr} : Part enter into (.ternary c a b) a
  | whenFalse {c a b : Expr} : Part enter into (.ternary c a b) b

/-- What an expression is put together from, without any definitions. -/
abbrev Piece : Bool → Expr → Expr → Prop :=
  Part fun _ => none

/-- What is read when an expression is read, the expression itself first. -/
abbrev Reads (w : World) (into : Bool) : Expr → Expr → Prop :=
  Relation.ReflTransGen (Part w.entered? into)

section

variable {enter : String → Option Expr} {into : Bool} {e f : Expr}

theorem Part.widen (h : Part enter false e f) : Part enter true e f := by
  cases h with
  | definition hname h => exact .definition hname h
  | offset => exact .offset
  | argument _ h => exact .argument (Or.inl rfl) h
  | left => exact .left
  | right => exact .right
  | operand => exact .operand
  | condition => exact .condition
  | whenTrue => exact .whenTrue
  | whenFalse => exact .whenFalse

theorem Piece.part (h : Piece into e f) : Part enter into e f := by
  cases h with
  | definition _ h => cases h
  | offset => exact .offset
  | argument hinto h => exact .argument hinto h
  | left => exact .left
  | right => exact .right
  | operand => exact .operand
  | condition => exact .condition
  | whenTrue => exact .whenTrue
  | whenFalse => exact .whenFalse

end

/-- The calls of a part are calls of the expression, where it is no
definition. -/
theorem Part.calls {enter : String → Option Expr} {into : Bool} {e f : Expr}
    (h : Part enter into e f) :
    (∃ name, enter name = some f) ∨ f.calls ⊆ e.calls := by
  cases h with
  | definition _ h => exact Or.inl ⟨_, h⟩
  | offset => exact Or.inr (List.Subset.refl _)
  | argument _ ha =>
      exact Or.inr (List.Subset.trans (calls_subset ha)
        (List.subset_append_left _ _))
  | left => exact Or.inr (List.subset_append_left _ _)
  | right => exact Or.inr (List.subset_append_right _ _)
  | operand => exact Or.inr (List.Subset.refl _)
  | condition =>
      exact Or.inr (List.Subset.trans (List.subset_append_left _ _)
        (List.subset_append_left _ _))
  | whenTrue =>
      exact Or.inr (List.Subset.trans (List.subset_append_right _ _)
        (List.subset_append_left _ _))
  | whenFalse => exact Or.inr (List.subset_append_right _ _)

/-- What holds of the indicator calls of an expression and of the definitions
holds of the indicator calls of its parts. -/
theorem calls_of_part {enter : String → Option Expr} {into : Bool}
    {P : Expr → Prop} {e f : Expr} (hpart : Part enter into e f)
    (henter : ∀ name g, enter name = some g → ∀ call ∈ g.indicatorCalls, P call)
    (he : ∀ call ∈ e.indicatorCalls, P call) :
    ∀ call ∈ f.indicatorCalls, P call := by
  rcases hpart.calls with ⟨name, hname⟩ | hsubset
  · exact henter name f hname
  · intro call hcall
    rw [← filter_calls] at he hcall
    exact he call (filter_isIndicatorCall_subset hsubset hcall)

/-- An indicator call is one of its own calls. -/
theorem mem_indicatorCalls_self {id : Nat} {name : String}
    {args : List (Argument Expr)} (hname : isIndicatorName name = true) :
    .call id name args ∈ (Expr.call id name args).indicatorCalls := by
  rw [Expr.indicatorCalls, if_pos hname]
  exact List.mem_append_right _ List.mem_cons_self

theorem Reads.widen {w : World} {e f : Expr} (h : Reads w false e f) :
    Reads w true e f := by
  induction h with
  | refl => exact .refl
  | tail _ hpart ih => exact ih.tail hpart.widen

/-- A set that holds the parts of its expressions holds all they read. -/
theorem Reads.within {w : World} {into : Bool} {S : Expr → Prop}
    (hS : ∀ e f, S e → Part w.entered? into e f → S f) {e f : Expr} (he : S e)
    (h : Reads w into e f) : S f := by
  induction h with
  | refl => exact he
  | tail _ hpart ih => exact hS _ _ ih hpart

/-- A definition that is entered for a name is that of its variable. -/
theorem getElem?_of_entered? {w : World} {name : String} {e : Expr}
    (h : w.entered? name = some e) :
    w.strategy.definitions[variableOf w.strategy name]? = some e := by
  unfold World.entered? at h
  split at h
  · cases h
  · exact h

/-- What an expression reads has its indicator calls on the list of the strategy
if the expression has. -/
theorem indicatorCalls_of_reads {w : World} (hlisted : Listed w.strategy)
    {e f : Expr} (he : e.indicatorCalls ⊆ w.strategy.indicators)
    (h : Reads w true e f) : f.indicatorCalls ⊆ w.strategy.indicators := by
  refine Reads.within (S := fun e =>
    e.indicatorCalls ⊆ w.strategy.indicators) ?_ he h
  intro e f he hpart
  refine calls_of_part hpart ?_ he
  intro name g hentered
  exact hlisted g (.definition (getElem?_of_entered? hentered))

/-- A price column has no definition. -/
theorem entered?_price {w : World} {name : String}
    (h : (priceOf? name).isSome = true) : w.entered? name = none := by
  rw [World.entered?, World.isFixed, h, Bool.or_true, Bool.true_or,
    Bool.true_or, if_pos rfl]

/-- Whether an expression is a literal or a price column. -/
def isLeaf : Expr → Bool
  | .literal _ => true
  | .ref name => (priceOf? name).isSome
  | _ => false

/-- Such an expression reads nothing else. -/
theorem not_part_of_isLeaf {w : World} {into : Bool} {e f : Expr}
    (he : isLeaf e = true) : ¬Part w.entered? into e f := by
  intro hpart
  cases e with
  | literal _ =>
      cases hpart with
      | definition hname _ => cases hname
  | ref name =>
      cases hpart with
      | definition hname hentered =>
          cases hname
          rw [entered?_price he] at hentered
          cases hentered
  | _ => cases he

/-- A call on such arguments reads them and itself. -/
theorem reads_call_of_isLeaf {w : World} {into : Bool} {id : Nat}
    {name : String} {args : List (Argument Expr)}
    (hargs : ∀ a ∈ args, isLeaf a.value = true) {f : Expr}
    (h : Reads w into (.call id name args) f) :
    f = .call id name args ∨ isLeaf f = true := by
  refine Reads.within (S := fun f => f = .call id name args ∨
    isLeaf f = true) ?_ (Or.inl rfl) h
  rintro e f (rfl | he) hpart
  · cases hpart with
    | definition hname _ => cases hname
    | argument _ ha => exact Or.inr (hargs _ ha)
  · exact absurd hpart (not_part_of_isLeaf he)

/-! ## Caches -/

/-- A set of expressions, each with the definitions that are left while it is
read, that holds with an expression all it reads. -/
structure Scope (w : World) where
  contains : Definitions → Expr → Prop
  sublist : ∀ {available : Definitions} {e : Expr},
    contains available e → available.Sublist w.definitions
  piece : ∀ {available : Definitions} {e f : Expr}, contains available e →
    Piece true e f → contains available f
  definition : ∀ {available left : Definitions} {e f : Expr} {name : String},
    contains available e → nameRead? e = some name →
      w.entered? name = some f →
      release? (variableOf w.strategy name) available = some (f, left) →
      contains left f

/-- An expression is read with these definitions left when some expressions
are read with all definitions. -/
inductive ReadWith (w : World) (roots : Expr → Prop) :
    Definitions → Expr → Prop where
  | root {e : Expr} (h : roots e) : ReadWith w roots w.definitions e
  | piece {available : Definitions} {e f : Expr}
      (h : ReadWith w roots available e) (hpiece : Piece true e f) :
      ReadWith w roots available f
  | definition {available left : Definitions} {e f : Expr} {name : String}
      (h : ReadWith w roots available e) (hname : nameRead? e = some name)
      (hentered : w.entered? name = some f)
      (hr : release? (variableOf w.strategy name) available =
        some (f, left)) : ReadWith w roots left f

theorem ReadWith.sublist {w : World} {roots : Expr → Prop}
    {available : Definitions} {e : Expr} (h : ReadWith w roots available e) :
    available.Sublist w.definitions := by
  induction h with
  | root _ => exact List.Sublist.refl _
  | piece _ _ ih => exact ih
  | definition _ _ _ hr ih => exact (release?_sublist hr).2.trans ih

theorem ReadWith.reads {w : World} {roots : Expr → Prop}
    {available : Definitions} {e : Expr} (h : ReadWith w roots available e) :
    ∃ root, roots root ∧ Reads w true root e := by
  induction h with
  | @root e h => exact ⟨e, h, .refl⟩
  | piece _ hpiece ih =>
      obtain ⟨root, hroot, hreads⟩ := ih
      exact ⟨root, hroot, hreads.tail hpiece.part⟩
  | definition _ hname hentered _ ih =>
      obtain ⟨root, hroot, hreads⟩ := ih
      exact ⟨root, hroot, hreads.tail (.definition hname hentered)⟩

/-- What some expressions read. -/
def Scope.of (w : World) (roots : Expr → Prop) : Scope w where
  contains := ReadWith w roots
  sublist := ReadWith.sublist
  piece := .piece
  definition := .definition

/-- All expressions. -/
def Scope.full (w : World) : Scope w where
  contains available _ := available.Sublist w.definitions
  sublist h := h
  piece h _ := h
  definition h _ _ hr := (release?_sublist hr).2.trans h

/-- The caches that evaluations in a scope may leave behind, from `first` on,
in every position and in every view. -/
inductive Cached (w : World) (scope : Scope w) (first : Cache) :
    Cache → Prop where
  | first : Cached w scope first first
  | after {cache : Cache} (h : Cached w scope first cache) (p : Position)
      (shown : Nat) {available : Definitions} {e : Expr}
      (he : scope.contains available e) :
      Cached w scope first
        (evaluate (w.holding p) available shown e cache).2

section

variable (w : World) (scope : Scope w) (first : Cache)

/-- No evaluation finds a column as the value of an expression. -/
def NeverColumn (e : Expr) : Prop :=
  ∀ cache, Cached w scope first cache → ∀ (p : Position) available,
    scope.contains available e →
    ∀ shown, (evaluate (w.holding p) available shown e cache).1.isColumn =
      false

/-- No evaluation of a call on `shown` bars finds a column where the builtin
reads one number. -/
def NumbersSteady (shown id : Nat) (name : String)
    (args : List (Argument Expr)) : Prop :=
  ∀ cache, Cached w scope first cache → ∀ (p : Position) available,
    scope.contains available (.call id name args) →
    (Arguments.ofList (evaluateArguments (w.holding p) available
      shown args cache).1).ReadsSteady name

/-- An expression does not itself look at the newest bar in view. Indicator
calls are left out: they are computed over all bars in every view. -/
def ViewFree : Expr → Prop
  | .ref name => name ≠ newestBarName
  | .call id name args =>
    isIndicatorName name = false →
      ∀ shown, NumbersSteady w scope first shown id name args
  | .ternary condition _ _ => NeverColumn w scope first condition
  | .indexed name offset =>
    name ≠ newestBarName ∧ NeverColumn w scope first offset
  | _ => True

/-- Nothing that an expression reads looks at the newest bar in view. -/
def AllViewFree (e : Expr) : Prop :=
  ∀ f, Reads w false e f → ViewFree w scope first f

/-- No indicator call that an expression reads looks at the newest of all
bars: its numbers are no columns and its arguments are free of the view. -/
def Causal (e : Expr) : Prop :=
  ∀ id name args, isIndicatorName name = true →
    Reads w true e (.call id name args) →
    NumbersSteady w scope first w.bars.length id name args ∧
      ∀ a ∈ args, AllViewFree w scope first a.value

end

/-! ## Going down -/

section

variable {w : World} {scope : Scope w} {first : Cache} {e f : Expr}

theorem AllViewFree.self (h : AllViewFree w scope first e) :
    ViewFree w scope first e :=
  h e .refl

theorem AllViewFree.part (h : AllViewFree w scope first e)
    (hpart : Part w.entered? false e f) : AllViewFree w scope first f :=
  fun g hg => h g (.head hpart hg)

theorem Causal.part (h : Causal w scope first e)
    (hpart : Part w.entered? true e f) : Causal w scope first f :=
  fun id name args hname hreads =>
    h id name args hname (.head hpart hreads)

end

end Barscript.Session

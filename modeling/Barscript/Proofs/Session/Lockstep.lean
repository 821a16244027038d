import Barscript.Proofs.Session.Evaluation
import Barscript.Proofs.Session.Reading
import Barscript.Proofs.Session.Together

/-!
# One evaluation over two lists of bars

An expression is evaluated over the oldest `n` bars of a world and over all of
them, from caches that agree on those bars. The values begin one another, and
the caches agree again. The induction follows the evaluation: the definitions
that are left, then the expression.

Two conditions carry it. `outer` is about the views: they end at one bar, or
the expression does not look at the newest one. `inner` is about the bars:
they are the same, or no indicator call looks at the newest of them.
-/

namespace Barscript.Session

open Barscript.Script Barscript.Series Barscript.Builtin Barscript.Market
open Barscript.Trading

variable {w : World} {scope : Scope w} {first : Cache} {n k l : Nat}

/-- A view of `k` among `n` bars beside a view of `l` among `m`. -/
structure Views (n m k l : Nat) : Prop where
  bars : n ≤ m
  left : k ≤ n
  right : l ≤ m
  le : k ≤ l

/-- Both sides see all their bars. -/
theorem Views.all {n m : Nat} (h : n ≤ m) : Views n m n m :=
  ⟨h, Nat.le_refl n, Nat.le_refl m, h⟩

/-- The second cache may have been left behind by evaluations, and the first
one holds the beginnings of its values. -/
structure CachesBegin (w : World) (scope : Scope w) (first : Cache) (n : Nat)
    (c d : Cache) : Prop where
  lookup : ∀ id, Option.Rel (Value.Begins n w.bars.length) (c.lookup id)
    (d.lookup id)
  cached : Cached w scope first d

/-- The value of an expression, with some definitions left, can be compared
between two views. -/
structure Comparable (w : World) (scope : Scope w) (first : Cache)
    (n k l : Nat) (available : Definitions) (e : Expr) : Prop where
  mem : scope.contains available e
  outer : k = l ∨ AllViewFree w scope first e
  inner : n = w.bars.length ∨ Causal w scope first e

section

variable {available left : Definitions} {e f : Expr}

theorem Comparable.piece (h : Comparable w scope first n k l available e)
    (hpiece : Piece false e f) :
    Comparable w scope first n k l available f where
  mem := scope.piece h.mem hpiece.widen
  outer := h.outer.imp id fun hfree => hfree.part hpiece.part
  inner := h.inner.imp id fun hcausal => hcausal.part (Piece.part hpiece.widen)

/-- A definition is read without itself. -/
theorem Comparable.definition
    (h : Comparable w scope first n k l available e) {name : String}
    (hname : nameRead? e = some name) (hentered : w.entered? name = some f)
    (hr : release? (variableOf w.strategy name) available =
      some (f, left)) : Comparable w scope first n k l left f where
  mem := scope.definition h.mem hname hentered hr
  outer := h.outer.imp id fun hfree =>
    hfree.part (.definition hname hentered)
  inner := h.inner.imp id fun hcausal =>
    hcausal.part (.definition hname hentered)

/-- The arguments of an indicator call are compared over all bars. -/
theorem Comparable.argument {id : Nat} {name : String}
    {args : List (Argument Expr)}
    (h : Comparable w scope first n k l available (.call id name args))
    (hname : isIndicatorName name = true) {a : Argument Expr}
    (ha : a ∈ args) :
    Comparable w scope first n n w.bars.length available a.value where
  mem := scope.piece h.mem (.argument (Or.inl rfl) ha)
  outer := h.inner.imp (fun heq => heq) fun hcausal =>
    (hcausal id name args hname .refl).2 a ha
  inner := h.inner.imp (fun heq => heq) fun hcausal =>
    hcausal.part (.argument (Or.inl rfl) ha)

end

/-! ## Readings that agree -/

/-- A value is the same in both views when they end at one bar or it is no
column. -/
theorem begins_eq {v v' : Value} (h : Value.Begins k l v v')
    (hv : k = l ∨ v'.isColumn = false) : v = v' := by
  rcases hv with rfl | hplain
  · exact h.eq
  · exact h.eq_of_scalar hplain

theorem begins_lagBy {v v' o o' : Value} (h : Value.Begins k l v v')
    (ho : Value.Begins k l o o') (hplain : k = l ∨ o'.isColumn = false) :
    Value.Begins k l (lagBy v o) (lagBy v' o') := by
  rw [begins_eq ho hplain]
  unfold lagBy
  split
  · split
    · exact h.lag _
    · exact .na
  · exact .na

/-- The numbers of a call are the same in both views when these end at one
bar or no column stands where one is read. -/
theorem sameNumbers_of (name : String) {as bs : List (Argument Value)}
    (h : List.Forall₂ (ArgumentBegins k l) as bs)
    (hs : k = l ∨ (Arguments.ofList bs).ReadsSteady name) :
    (Arguments.ofList as).SameNumbers (.ofList bs) name := by
  rcases hs with rfl | hsteady
  · have heq : as = bs := by
      induction h with
      | nil => rfl
      | @cons a b _ _ hab _ ih =>
          obtain ⟨name, v⟩ := a
          obtain ⟨name', v'⟩ := b
          obtain ⟨hname, hvalue⟩ := hab
          obtain rfl : name = name' := hname
          have hv : v = v' := hvalue.eq
          rw [ih, hv]
    rw [heq]
    exact .refl _ name
  · exact (Arguments.Begins.ofList h).sameNumbers hsteady

/-- A name that the script can define does not mark the newest bar. -/
theorem ne_newestBarName {name : String} (h : w.isFixed name = false) :
    name ≠ newestBarName := by
  rintro rfl
  have hbuiltin : builtinNames.contains newestBarName = true := by decide
  rw [World.isFixed, hbuiltin, Bool.or_true] at h
  cases h

theorem isColumn_inputDefault (input : Input) :
    (inputDefault input).isColumn = false := by
  unfold inputDefault
  cases input.default with
  | none => rfl
  | some value => cases value <;> rfl

/-- A line of a fixed name. The mark of the newest bar has no lines. -/
theorem begins_line (ho : w.PlainOverrides) (hv : Views n w.bars.length k l)
    (base line : String) :
    Option.Rel (Value.Begins k l)
      (((w.upTo n).fixed? base k).map fun v => (v.component? line).getD .na)
      ((w.fixed? base l).map fun v => (v.component? line).getD .na) := by
  have hmap : ∀ {a b : Option Value},
      Option.Rel (Value.Begins k l) a b →
      Option.Rel (Value.Begins k l)
        (a.map fun v => (v.component? line).getD .na)
        (b.map fun v => (v.component? line).getD .na) := by
    intro a b hab
    rcases rel_cases hab with ⟨ha, hb⟩ | ⟨v, v', ha, hb, hvv⟩
    · rw [ha, hb]
      exact .none
    · rw [ha, hb]
      exact .some (.getD (hvv.component? line) .na)
  by_cases hbase : base = newestBarName
  · subst hbase
    unfold World.fixed?
    rcases rel_cases (begins_override? ho hv.left hv.right hv.le
      newestBarName) with ⟨ha, hb⟩ | ⟨v, v', ha, hb, hvv⟩
    · rw [ha, hb]
      exact .some .na
    · rw [ha, hb]
      exact hmap (.some hvv)
  · exact hmap (begins_fixed? ho hv.bars hv.left hv.right hv.le
      (Or.inr hbase))

theorem length_upTo (h : n ≤ w.bars.length) : (w.upTo n).bars.length = n := by
  rw [World.upTo, List.length_take, Nat.min_eq_left h]

/-! ## The caches -/

/-- A new value in both caches. -/
theorem lookup_cons {c d : Cache} {v v' : Value}
    (h : ∀ id, Option.Rel (Value.Begins n w.bars.length) (c.lookup id)
      (d.lookup id))
    (hv : Value.Begins n w.bars.length v v') (id other : Nat) :
    Option.Rel (Value.Begins n w.bars.length)
      (((id, v) :: c).lookup other) (((id, v') :: d).lookup other) := by
  rw [List.lookup_cons, List.lookup_cons]
  split
  · exact .some hv
  · exact h other

/-! ## The induction -/

mutual

/-- **Two views of one expression.** -/
theorem together_evaluate (ho : w.PlainOverrides) (p : Position) {k l : Nat}
    (hv : Views n w.bars.length k l) {available : Definitions} (e : Expr)
    (he : Comparable w scope first n k l available e) :
    Together (CachesBegin w scope first n) (Value.Begins k l)
      (evaluate ((w.holding p).upTo n) available k e)
      (evaluate (w.holding p) available l e) := by
  match e with
  | .literal value =>
      rw [evaluate, evaluate]
      refine .pure (.scalar ?_)
      cases value <;> rfl
  | .ref name =>
      rw [evaluate, evaluate]
      exact together_readName ho p hv (scope.sublist he.mem) name
        (fun _ _ hentered hr => he.definition rfl hentered hr)
        (he.outer.imp id fun hfree => hfree.self)
  | .call id name args =>
      cases hname : isIndicatorName name with
      | true =>
          -- A call that was computed before is in both caches or in none.
          intro c d hcd
          rcases rel_cases (hcd.lookup id) with ⟨hc, hd⟩ | ⟨v, v', hc, hd, hvv⟩
          · have hargs : ∀ a ∈ args, Comparable w scope first n n
                w.bars.length available a.value :=
              fun a hmem => he.argument hname hmem
            obtain ⟨hvalues, hcd'⟩ := together_arguments ho p
              (.all hv.bars) args hargs c d hcd
            have hnumbers := sameNumbers_of name hvalues
              (he.inner.imp (fun heq => heq) fun hcausal =>
                (hcausal id name args hname .refl).1 d hcd.cached p available
                  he.mem)
            have hvv := begins_indicator? name
              (Arguments.Begins.ofList hvalues) hv.bars hnumbers
            have hcached := hcd.cached.after p l he.mem
            rw [evaluate_miss hname hd] at hcached
            rw [evaluate_miss hname hc, evaluate_miss hname hd,
              length_upTo (w := w.holding p) hv.bars]
            exact ⟨hvv.truncate hv.left hv.right hv.le,
              lookup_cons hcd'.lookup hvv id, hcached⟩
          · rw [evaluate_hit hname hc, evaluate_hit hname hd]
            exact ⟨hvv.truncate hv.left hv.right hv.le, hcd⟩
      | false =>
          rw [evaluate_function hname, evaluate_function hname]
          have hargs : ∀ a ∈ args,
              Comparable w scope first n k l available a.value :=
            fun a hmem => he.piece (.argument (Or.inr hname) hmem)
          -- What the call reads as numbers is seen on the values over more bars.
          have hsteady := (together_arguments ho p hv args hargs).observe
            (P := fun vs =>
              k = l ∨ (Arguments.ofList vs).ReadsSteady name)
            fun c d hcd => he.outer.imp (fun heq => heq) fun hfree =>
              hfree.self hname l d hcd.cached p available he.mem
          refine hsteady.bind ?_
          rintro vs vs' ⟨hvs, hnumbers⟩
          exact .pure (begins_function? name (.ofList hvs)
            (sameNumbers_of name hvs hnumbers))
  | .binary op left right =>
      rw [evaluate, evaluate]
      refine (together_evaluate ho p hv left (he.piece .left)).bind ?_
      intro v v' hvv
      refine (together_evaluate ho p hv right (he.piece .right)).bind ?_
      intro u u' huu
      exact .pure (hvv.binary op huu)
  | .unary op operand =>
      rw [evaluate, evaluate]
      refine (together_evaluate ho p hv operand (he.piece .operand)).bind ?_
      intro v v' hvv
      exact .pure (hvv.unary op)
  | .ternary condition whenTrue whenFalse =>
      rw [evaluate, evaluate]
      have hcondition := he.piece .condition
      have hplain := (together_evaluate ho p hv condition
        hcondition).observe (P := fun v =>
          k = l ∨ v.isColumn = false) fun c d hcd =>
            he.outer.imp id fun hfree =>
              hfree.self d hcd.cached p available hcondition.mem l
      refine hplain.bind ?_
      rintro c c' ⟨hcc, hc⟩
      -- The condition has one value in both views, so both take one branch.
      rw [begins_eq hcc hc]
      split
      · exact together_evaluate ho p hv whenTrue (he.piece .whenTrue)
      · exact together_evaluate ho p hv whenFalse (he.piece .whenFalse)
  | .indexed name offset =>
      rw [evaluate, evaluate]
      have hname := together_readName ho p hv (scope.sublist he.mem) name
        (fun _ _ hentered hr => he.definition rfl hentered hr)
        (he.outer.imp id fun hfree => hfree.self.1)
      refine hname.bind ?_
      intro v v' hvv
      have hoffset := he.piece .offset
      have hplain := (together_evaluate ho p hv offset
        hoffset).observe (P := fun v =>
          k = l ∨ v.isColumn = false) fun c d hcd =>
            he.outer.imp id fun hfree =>
              hfree.self.2 d hcd.cached p available hoffset.mem l
      refine hplain.bind ?_
      rintro o o' ⟨hoo, hplain⟩
      exact .pure (begins_lagBy hvv hoo hplain)
termination_by weightDefinitions available + weight e
decreasing_by all_goals simp only [weight]; omega

theorem together_arguments (ho : w.PlainOverrides) (p : Position) {k l : Nat}
    (hv : Views n w.bars.length k l) {available : Definitions}
    (args : List (Argument Expr))
    (hargs : ∀ a ∈ args, Comparable w scope first n k l available a.value) :
    Together (CachesBegin w scope first n)
      (List.Forall₂ (ArgumentBegins k l))
      (evaluateArguments ((w.holding p).upTo n) available k args)
      (evaluateArguments (w.holding p) available l args) := by
  match args with
  | [] =>
      rw [evaluateArguments, evaluateArguments]
      exact .pure .nil
  | ⟨name, value⟩ :: rest =>
      rw [evaluateArguments, evaluateArguments]
      refine (together_evaluate ho p hv value
        (hargs _ List.mem_cons_self)).bind ?_
      intro v v' hvv
      refine (together_arguments ho p hv rest fun a hmem =>
        hargs a (List.mem_cons_of_mem _ hmem)).bind ?_
      intro vs vs' hvs
      exact .pure (.cons ⟨rfl, hvv⟩ hvs)
termination_by weightDefinitions available + weightArguments args
decreasing_by all_goals simp only [weightArguments]; omega

theorem together_readName (ho : w.PlainOverrides) (p : Position) {k l : Nat}
    (hv : Views n w.bars.length k l) {available : Definitions}
    (ha : available.Sublist w.definitions) (name : String)
    (hentered : ∀ e left, w.entered? name = some e →
      release? (variableOf w.strategy name) available = some (e, left) →
      Comparable w scope first n k l left e)
    (hnewest : k = l ∨ name ≠ newestBarName) :
    Together (CachesBegin w scope first n) (Value.Begins k l)
      (readName ((w.holding p).upTo n) available k name)
      (readName (w.holding p) available l name) := by
  cases nameReading w name with
  | named h =>
      rw [readName_named (w := w.holding p) h,
        readName_named (w := (w.holding p).upTo n) h]
      refine together_readDefined ho p hv ha name ?_ hnewest
      intro e left hf he hr
      exact hentered e left (entered?_named hf he)
        (by rw [variableOf_named he]; exact hr)
  | input h hi =>
      rw [readName_input (w := w.holding p) h hi,
        readName_input (w := (w.holding p).upTo n) h hi]
      exact .pure (.scalar (isColumn_inputDefault _))
  | @line h hi base line hs hb =>
      rw [readName_line (w := w.holding p) h hi hs hb,
        readName_line (w := (w.holding p).upTo n) h hi hs hb]
      cases hf : w.isFixed base with
      | true =>
          obtain ⟨v, hfixed⟩ := Option.isSome_iff_exists.mp
            ((isSome_fixed? (w.holding p) base l).trans hf)
          obtain ⟨u, hfixed'⟩ := Option.isSome_iff_exists.mp
            ((isSome_fixed? ((w.holding p).upTo n) base k).trans hf)
          have hline := begins_line (w := w.holding p) ho hv base line
          rw [hfixed, hfixed'] at hline
          rw [readDefined_fixed hfixed, readDefined_fixed hfixed']
          cases hline with
          | some hline => exact .pure hline
      | false =>
          have hbase := together_readDefined ho p hv ha base
            (fun e left hf he hr => hentered e left (entered?_line h hs hf he)
              (by rw [variableOf_line h hs]; exact hr))
            (Or.inr (ne_newestBarName hf))
          refine hbase.bind ?_
          intro v v' hvv
          exact .pure (.getD (hvv.component? line) .na)
  | unknown h hi hs =>
      rw [readName_unknown (w := w.holding p) h hi hs,
        readName_unknown (w := (w.holding p).upTo n) h hi hs]
      exact .pure .na
termination_by weightDefinitions available + 1
decreasing_by all_goals omega

theorem together_readDefined (ho : w.PlainOverrides) (p : Position)
    {k l : Nat} (hv : Views n w.bars.length k l) {available : Definitions}
    (ha : available.Sublist w.definitions) (name : String)
    (hdefined : ∀ e left, w.isFixed name = false →
      w.strategy.definitions[name]? = some e →
      release? name available = some (e, left) →
      Comparable w scope first n k l left e)
    (hnewest : k = l ∨ name ≠ newestBarName) :
    Together (CachesBegin w scope first n) (Value.Begins k l)
      (readDefined ((w.holding p).upTo n) available k name)
      (readDefined (w.holding p) available l name) := by
  cases hf : w.isFixed name with
  | true =>
      obtain ⟨v, hfixed⟩ := Option.isSome_iff_exists.mp
        ((isSome_fixed? (w.holding p) name l).trans hf)
      obtain ⟨u, hfixed'⟩ := Option.isSome_iff_exists.mp
        ((isSome_fixed? ((w.holding p).upTo n) name k).trans hf)
      have hvalue := begins_fixed? (w := w.holding p) ho hv.bars hv.left
        hv.right hv.le hnewest
      rw [hfixed, hfixed'] at hvalue
      rw [readDefined_fixed hfixed, readDefined_fixed hfixed']
      cases hvalue with
      | some hvalue => exact .pure hvalue
  | false =>
      cases hr : release? name available with
      | none =>
          rw [readDefined_absent (w := w.holding p) hf hr,
            readDefined_absent (w := (w.holding p).upTo n) hf hr]
          exact .pure .na
      | some found =>
          obtain ⟨value, left⟩ := found
          rw [readDefined_entered (w := w.holding p) hf hr,
            readDefined_entered (w := (w.holding p).upTo n) hf hr]
          exact together_evaluate ho p hv value
            (hdefined value left hf (definition_of_release? ha hr).1 hr)
termination_by weightDefinitions available
decreasing_by
  have hweight := weight_release? hr
  omega

end

end Barscript.Session

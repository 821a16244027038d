import Barscript.Proofs.Session.Reading

/-!
# The evaluation, case by case

What an evaluation does to the cache is said here once: an indicator call is
looked up, or else computed over all bars and kept. The other lemmas say what
a name is read as and where its definition comes from.
-/

namespace Barscript.Session

open Barscript.Script Barscript.Series Barscript.Builtin

theorem get_bind {σ α : Type} (f : σ → StateM σ α) (s : σ) :
    (get >>= f) s = f s s :=
  rfl

section

variable {w : World} {available : Definitions} {shown : Nat} {id : Nat}
  {name : String} {args : List (Argument Expr)} {cache : Cache}

/-! ## Calls -/

/-- An indicator call that was computed before is cut to the view. -/
theorem evaluate_hit (hname : isIndicatorName name = true) {v : Value}
    (hv : cache.lookup id = some v) :
    evaluate w available shown (.call id name args) cache =
      (v.truncate shown, cache) := by
  rw [evaluate, if_pos hname]
  simp only [get_bind, hv]
  rfl

/-- What an indicator call gives over all bars. -/
def World.computed (w : World) (name : String)
    (values : List (Argument Value)) : Value :=
  (indicator? name (.ofList values) w.bars).getD .na

/-- An indicator call that was not computed before is kept. -/
theorem evaluate_miss (hname : isIndicatorName name = true)
    (hv : cache.lookup id = none) :
    evaluate w available shown (.call id name args) cache =
      (let r := evaluateArguments w available w.bars.length args cache
       ((w.computed name r.1).truncate shown,
         (id, w.computed name r.1) :: r.2)) := by
  rw [evaluate, if_pos hname]
  simp only [get_bind, hv]
  rfl

/-- A call that is no indicator call is applied to its arguments. -/
theorem evaluate_function (hname : isIndicatorName name = false) :
    evaluate w available shown (.call id name args) =
      (do
        let values ← evaluateArguments w available shown args
        pure ((function? name (.ofList values)).getD .na)) := by
  rw [evaluate, if_neg (by rw [hname]; exact Bool.false_ne_true)]

end

/-! ## Names -/

section

variable {w : World} {available : Definitions} {shown : Nat}
  {name : String}

theorem readDefined_fixed {v : Value} (h : w.fixed? name shown = some v) :
    readDefined w available shown name = pure v := by
  rw [readDefined, h]

theorem fixed?_eq_none (h : w.isFixed name = false) (shown : Nat) :
    w.fixed? name shown = none := by
  rw [← Option.not_isSome_iff_eq_none, isSome_fixed?, h]
  exact Bool.false_ne_true

theorem readDefined_entered (h : w.isFixed name = false) {value : Expr}
    {left : Definitions} (hr : release? name available = some (value, left)) :
    readDefined w available shown name = evaluate w left shown value := by
  rw [readDefined, fixed?_eq_none h]
  simp only
  split
  · rename_i heq
    rw [hr] at heq
    cases heq
    rfl
  · rename_i heq
    rw [hr] at heq
    cases heq

/-- A definition that is being read is absent. -/
theorem readDefined_absent (h : w.isFixed name = false)
    (hr : release? name available = none) :
    readDefined w available shown name = pure .na := by
  rw [readDefined, fixed?_eq_none h]
  simp only
  split
  · rename_i heq
    rw [hr] at heq
    cases heq
  · rfl

/-- A name that is fixed or defined stands for itself. -/
theorem readName_named
    (h : (w.isFixed name || w.strategy.definitions.contains name) = true) :
    readName w available shown name =
      readDefined w available shown name := by
  rw [readName, isSome_fixed?, if_pos h]

theorem readName_input
    (h : (w.isFixed name || w.strategy.definitions.contains name) = false)
    {input : Input} (hi : w.strategy.inputs[name]? = some input) :
    readName w available shown name = pure (inputDefault input) := by
  rw [readName, isSome_fixed?, if_neg (by rw [h]; exact Bool.false_ne_true),
    hi]

/-- Whether a name may have lines that are read by a dotted name. -/
def World.hasLines (w : World) (base : String) : Bool :=
  w.strategy.definitions.contains base || w.overrides.contains base

theorem readName_line
    (h : (w.isFixed name || w.strategy.definitions.contains name) = false)
    (hi : w.strategy.inputs[name]? = none) {base line : String}
    (hs : splitLast name = some (base, line))
    (hb : w.hasLines base = true) :
    readName w available shown name =
      (do
        let value ← readDefined w available shown base
        pure ((value.component? line).getD .na)) := by
  have hbase : (w.strategy.definitions.contains base ||
    w.overrides.contains base) = true := hb
  rw [readName, isSome_fixed?, if_neg (by rw [h]; exact Bool.false_ne_true),
    hi, hs]
  simp only
  rw [if_pos hbase]

theorem readName_unknown
    (h : (w.isFixed name || w.strategy.definitions.contains name) = false)
    (hi : w.strategy.inputs[name]? = none)
    (hs : ∀ base line, splitLast name = some (base, line) →
      w.hasLines base = false) :
    readName w available shown name = pure .na := by
  rw [readName, isSome_fixed?, if_neg (by rw [h]; exact Bool.false_ne_true),
    hi]
  simp only
  split
  · rfl
  · rename_i base line hsplit
    have hbase : (w.strategy.definitions.contains base ||
      w.overrides.contains base) = false := hs base line hsplit
    rw [if_neg (by rw [hbase]; exact Bool.false_ne_true)]

/-- The four ways to read a name. -/
inductive NameReading (w : World) (name : String) : Prop where
  | named
      (h : (w.isFixed name || w.strategy.definitions.contains name) = true)
  | input
      (h : (w.isFixed name || w.strategy.definitions.contains name) = false)
      {input : Input} (hi : w.strategy.inputs[name]? = some input)
  | line
      (h : (w.isFixed name || w.strategy.definitions.contains name) = false)
      (hi : w.strategy.inputs[name]? = none) {base line : String}
      (hs : splitLast name = some (base, line))
      (hb : w.hasLines base = true)
  | unknown
      (h : (w.isFixed name || w.strategy.definitions.contains name) = false)
      (hi : w.strategy.inputs[name]? = none)
      (hs : ∀ base line, splitLast name = some (base, line) →
        w.hasLines base = false)

theorem nameReading (w : World) (name : String) : NameReading w name := by
  cases h : w.isFixed name || w.strategy.definitions.contains name with
  | true => exact .named h
  | false =>
      cases hi : w.strategy.inputs[name]? with
      | some input => exact .input h hi
      | none =>
          cases hs : splitLast name with
          | none =>
              refine .unknown h hi ?_
              intro base line hsome
              rw [hs] at hsome
              cases hsome
          | some parts =>
              obtain ⟨base, line⟩ := parts
              cases hb : w.hasLines base with
              | true => exact .line h hi hs hb
              | false =>
                  refine .unknown h hi ?_
                  intro base' line' hsome
                  rw [hs] at hsome
                  cases hsome
                  exact hb

/-- A name that has a definition stands for itself. -/
theorem variableOf_named {e : Expr}
    (he : w.strategy.definitions[name]? = some e) :
    variableOf w.strategy name = name := by
  have hcontains : w.strategy.definitions.contains name = true := by
    rw [Std.ExtTreeMap.contains_eq_isSome_getElem?, he]
    rfl
  rw [variableOf, if_pos hcontains]

/-- A dotted name stands for what is in front of its last dot. -/
theorem variableOf_line
    (h : (w.isFixed name || w.strategy.definitions.contains name) = false)
    {base line : String} (hs : splitLast name = some (base, line)) :
    variableOf w.strategy name = base := by
  rw [variableOf, (Bool.or_eq_false_iff.mp h).2, hs]
  rfl

/-- The definition of a name that has one is what is entered for it. -/
theorem entered?_named (hf : w.isFixed name = false) {e : Expr}
    (he : w.strategy.definitions[name]? = some e) :
    w.entered? name = some e := by
  rw [World.entered?, variableOf_named he, hf, he]
  rfl

/-- The definition that a dotted name takes a line of. -/
theorem entered?_line
    (h : (w.isFixed name || w.strategy.definitions.contains name) = false)
    {base line : String} (hs : splitLast name = some (base, line))
    (hf : w.isFixed base = false) {e : Expr}
    (he : w.strategy.definitions[base]? = some e) :
    w.entered? name = some e := by
  rw [World.entered?, variableOf_line h hs, (Bool.or_eq_false_iff.mp h).1, hf,
    he]
  rfl

end

end Barscript.Session

import Barscript.Builtin.Arguments
import Barscript.Proofs.Series.Value

/-!
# Arguments over a prefix of the bars

The arguments of one call evaluated at two lengths have the same names and
values that begin one another. Then every argument is found at the same slot,
and an argument read as one number gives the same number, unless a column
stands there: a column is read at its newest bar.
-/

namespace Barscript.Builtin

open Barscript.Series Barscript.Script

variable {n m : Nat} {args args' : Arguments}

/-- Two values of one argument. -/
def ArgumentBegins (n m : Nat) (a b : Argument Value) : Prop :=
  a.name = b.name ∧ Value.Begins n m a.value b.value

/-- The arguments `args` are the arguments `args'` seen over the oldest `n` of
`m` bars. -/
structure Arguments.Begins (n m : Nat) (args args' : Arguments) : Prop where
  positional : List.Forall₂ (Value.Begins n m) args.positional args'.positional
  named : List.Forall₂ (fun p q => p.1 = q.1 ∧ Value.Begins n m p.2 q.2)
    args.named args'.named

theorem Arguments.Begins.ofList {as bs : List (Argument Value)}
    (h : List.Forall₂ (ArgumentBegins n m) as bs) :
    Arguments.Begins n m (.ofList as) (.ofList bs) := by
  induction h with
  | nil => exact ⟨.nil, .nil⟩
  | @cons a b as bs hab _ ih =>
      obtain ⟨hpositional, hnamed⟩ := ih
      obtain ⟨name, value⟩ := a
      obtain ⟨name', value'⟩ := b
      obtain ⟨hname, hvalue⟩ := hab
      obtain rfl : name = name' := hname
      cases name with
      | none => exact ⟨.cons hvalue hpositional, hnamed⟩
      | some name => exact ⟨hpositional, .cons ⟨rfl, hvalue⟩ hnamed⟩

theorem Arguments.Begins.empty : Arguments.Begins n m .empty .empty :=
  ⟨.nil, .nil⟩

/-! ## Looking up an argument -/

theorem rel_getElem? {α β : Type} {R : α → β → Prop} {xs : List α}
    {ys : List β} (h : List.Forall₂ R xs ys) (i : Nat) :
    Option.Rel R xs[i]? ys[i]? := by
  induction h generalizing i with
  | nil => exact .none
  | cons hxy _ ih =>
      cases i with
      | zero => exact .some hxy
      | succ i => exact ih i

theorem rel_find? {ps qs : List (String × Value)} (names : List String)
    (h : List.Forall₂ (fun p q => p.1 = q.1 ∧ Value.Begins n m p.2 q.2)
      ps qs) :
    Option.Rel (Value.Begins n m)
      ((ps.find? fun entry => names.contains entry.1).map Prod.snd)
      ((qs.find? fun entry => names.contains entry.1).map Prod.snd) := by
  induction h with
  | nil => exact .none
  | @cons p q _ _ hpq _ ih =>
      rw [List.find?_cons, List.find?_cons, hpq.1]
      split
      · exact .some hpq.2
      · exact ih

theorem Arguments.Begins.named? (h : args.Begins n m args')
    (names : List String) :
    Option.Rel (Value.Begins n m) (args.named? names)
      (args'.named? names) :=
  rel_find? names h.named

theorem Arguments.Begins.get? (h : args.Begins n m args') (index : Nat)
    (names : List String) :
    Option.Rel (Value.Begins n m) (args.get? index names)
      (args'.get? index names) := by
  unfold Arguments.get?
  rcases rel_cases (h.named? names) with ⟨ha, hb⟩ | ⟨v, w, ha, hb, hv⟩
  · rw [ha, hb]
    exact rel_getElem? h.positional index
  · rw [ha, hb]
    exact .some hv

/-! ## Optional sources -/

theorem isNumber_eq {v w : Value} (h : Value.Begins n m v w) :
    isNumber v = isNumber w := by
  cases h <;> rfl

theorem length_takeWhile_eq {vs ws : List Value}
    (h : List.Forall₂ (Value.Begins n m) vs ws) :
    (vs.takeWhile fun v => !isNumber v).length =
      (ws.takeWhile fun v => !isNumber v).length := by
  induction h with
  | nil => rfl
  | cons hv _ ih =>
      rw [List.takeWhile_cons, List.takeWhile_cons, isNumber_eq hv]
      split
      · rw [List.length_cons, List.length_cons, ih]
      · rfl

theorem Arguments.Begins.leadingSources_eq (h : args.Begins n m args') :
    args.leadingSources = args'.leadingSources :=
  length_takeWhile_eq h.positional

theorem Arguments.Begins.isSome_named? (h : args.Begins n m args')
    (names : List String) :
    (args.named? names).isSome = (args'.named? names).isSome := by
  rcases rel_cases (h.named? names) with ⟨ha, hb⟩ | ⟨v, w, ha, hb, _⟩
  · rw [ha, hb]
  · rw [ha, hb]
    rfl

theorem Arguments.Begins.hasSource_eq (h : args.Begins n m args') :
    args.hasSource = args'.hasSource := by
  unfold Arguments.hasSource
  rw [h.isSome_named? sourceNames, h.leadingSources_eq,
    h.positional.length_eq]

theorem Arguments.Begins.lengthSlot_eq (h : args.Begins n m args') :
    args.lengthSlot = args'.lengthSlot := by
  unfold Arguments.lengthSlot
  rw [h.hasSource_eq]
  rcases rel_cases (h.named? sourceNames) with ⟨ha, hb⟩ | ⟨v, w, ha, hb, _⟩
  · rw [ha, hb]
  · rw [ha, hb]
    rfl

/-! ## Numbers and columns -/

/-- The slot holds no column. -/
def Arguments.Steady (args : Arguments) (slot : Nat × List String) : Prop :=
  ∀ v, args.get? slot.1 slot.2 = some v → v.isColumn = false

/-- The slot holds the same value in both, so that it reads as the same
number. -/
def Arguments.SameAt (args args' : Arguments) (slot : Nat × List String) :
    Prop :=
  args.get? slot.1 slot.2 = args'.get? slot.1 slot.2

/-- Where no column stands the value does not depend on the bars. -/
theorem Arguments.Begins.sameAt (h : args.Begins n m args')
    {slot : Nat × List String} (hs : args'.Steady slot) :
    args.SameAt args' slot := by
  show args.get? slot.1 slot.2 = args'.get? slot.1 slot.2
  rcases rel_cases (h.get? slot.1 slot.2) with ⟨ha, hb⟩ | ⟨v, w, ha, hb, hv⟩
  · rw [ha, hb]
  · rw [ha, hb, hv.eq_of_scalar (hs w hb)]

theorem Arguments.SameAt.number_eq {index : Nat} {names : List String}
    (hs : args.SameAt args' (index, names)) (default : Float) :
    args.number index names default = args'.number index names default := by
  have hget : args.get? index names = args'.get? index names := hs
  rw [Arguments.number, Arguments.number, hget]

theorem Arguments.SameAt.length_eq {index : Nat} {names : List String}
    (hs : args.SameAt args' (index, names)) (default : Nat) :
    args.length index names default = args'.length index names default := by
  have hget : args.get? index names = args'.get? index names := hs
  rw [Arguments.length, Arguments.length, hget]

theorem Arguments.Begins.column? (h : args.Begins n m args') (hle : n ≤ m)
    (index : Nat) (names : List String) :
    Option.Rel (Series.Begins n m) (args.column? index names n)
      (args'.column? index names m) := by
  unfold Arguments.column?
  rcases rel_cases (h.get? index names) with ⟨ha, hb⟩ | ⟨v, w, ha, hb, hv⟩
  · rw [ha, hb]
    exact .none
  · rw [ha, hb]
    exact hv.column? hle

end Barscript.Builtin

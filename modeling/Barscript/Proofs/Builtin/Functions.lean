import Barscript.Builtin.Functions
import Barscript.Proofs.Builtin.Slots

/-!
# Functions over a prefix of the bars

Every function works bar by bar, so it respects `Begins`. The exception is the
replacement that `nz` takes: it is read as one number, so a column there is
read at its newest bar.
-/

namespace Barscript.Builtin

open Barscript.Series

variable {n m : Nat} {args args' : Arguments}

theorem Arguments.Begins.ofNumber (h : args.Begins n m args')
    (f : Float → Float) :
    Value.Begins n m (ofNumber args f) (ofNumber args' f) := by
  unfold Builtin.ofNumber
  rcases rel_cases (h.get? 0 ["number", "x"]) with
    ⟨ha, hb⟩ | ⟨v, w, ha, hb, hv⟩
  · rw [ha, hb]
    exact .na
  · rw [ha, hb]
    exact hv.mapWith f

theorem begins_foldl (pick : Float → Float → Float) {vs ws : List Value}
    (h : List.Forall₂ (Value.Begins n m) vs ws) {v w : Value}
    (hv : Value.Begins n m v w) :
    Value.Begins n m (vs.foldl (Value.zipWith pick) v)
      (ws.foldl (Value.zipWith pick) w) := by
  induction h generalizing v w with
  | nil => exact hv
  | cons hhead _ ih => exact ih (hv.zipWith pick hhead)

theorem Arguments.Begins.ofAll (h : args.Begins n m args')
    (pick : Float → Float → Float) :
    Value.Begins n m (ofAll args pick) (ofAll args' pick) := by
  obtain ⟨positional, named⟩ := args
  obtain ⟨positional', named'⟩ := args'
  obtain ⟨hpositional, _⟩ := h
  cases hpositional with
  | nil => exact .na
  | cons hhead hrest => exact begins_foldl pick hrest hhead

theorem Arguments.Begins.power (h : args.Begins n m args') :
    Value.Begins n m (power args) (power args') := by
  unfold Builtin.power
  rcases rel_cases (h.get? 0 ["base"]) with ⟨ha, hb⟩ | ⟨v, w, ha, hb, hv⟩
  · rw [ha, hb]
    exact .na
  · rcases rel_cases (h.get? 1 ["exponent"]) with
      ⟨hc, hd⟩ | ⟨v', w', hc, hd, hw⟩
    · rw [ha, hb, hc, hd]
      exact .na
    · rw [ha, hb, hc, hd]
      exact hv.zipWith Float.pow hw

theorem Arguments.Begins.replaceUndefined (h : args.Begins n m args')
    (hs : args.SameAt args' replacementSlot) :
    Value.Begins n m (replaceUndefined args) (replaceUndefined args') := by
  unfold Builtin.replaceUndefined
  rw [hs.number_eq 0.0]
  rcases rel_cases (h.get? 0 ["source"]) with ⟨ha, hb⟩ | ⟨v, w, ha, hb, hv⟩
  · rw [ha, hb]
    exact .number _
  · rw [ha, hb]
    have hmap := hv.mapWith fun x =>
      if x.isNaN then args'.number 1 ["replacement"] 0.0 else x
    cases hv with
    | @scalar v hv =>
        cases v with
        | na => exact .number _
        | _ => exact hmap
    | series _ => exact hmap
    | tuple _ => exact hmap

theorem Arguments.Begins.testUndefined (h : args.Begins n m args') :
    Value.Begins n m (testUndefined args) (testUndefined args') := by
  unfold Builtin.testUndefined
  rcases rel_cases (h.get? 0 ["x"]) with ⟨ha, hb⟩ | ⟨v, w, ha, hb, hv⟩
  · rw [ha, hb]
    exact .bool _
  · rw [ha, hb]
    have hmap := hv.mapWith fun x => flag x.isNaN
    cases hv with
    | @scalar v hv =>
        cases v with
        | na => exact .bool _
        | number x => exact .bool _
        | _ => exact hmap
    | series _ => exact hmap
    | tuple _ => exact hmap

/-- **Functions respect `Begins`** where no column is read as one number. -/
theorem begins_function? (name : String) (h : args.Begins n m args')
    (hs : args.SameNumbers args' name) :
    Value.Begins n m ((function? name args).getD .na)
      ((function? name args').getD .na) := by
  unfold function?
  split
  · exact h.ofNumber _
  · exact h.ofNumber _
  · exact h.ofNumber _
  · exact h.ofNumber _
  · exact h.ofNumber _
  · exact h.ofNumber _
  · exact h.ofNumber _
  · exact h.power
  · exact h.ofAll _
  · exact h.ofAll _
  · exact h.replaceUndefined (hs _ (List.mem_singleton.mpr rfl))
  · exact h.testUndefined
  · split
    · have hvalue := Value.Begins.getD (h.get? 0 ["defval"]) .na
      exact hvalue
    · exact .na

end Barscript.Builtin

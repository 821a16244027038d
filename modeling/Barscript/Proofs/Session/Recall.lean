import Barscript.Proofs.Session.Evaluation
import Barscript.Proofs.Session.Together

/-!
# Evaluating again

An evaluation is put together from known values, from steps that follow each
other, and from indicator calls that are kept under their identity. What holds
of computations put together in this way holds of every evaluation
(`Closed.evaluate`).

So an evaluation recalls itself: done again, from any cache that has what the
first one left, it gives the same value and leaves the cache alone. And it only
looks values up, so that caches with the same values are the same to it.
-/

namespace Barscript.Session

open Barscript.Script Barscript.Series Barscript.Builtin

/-! ## How an evaluation is put together -/

/-- A value that is kept under an identity: looked up, or else computed. -/
def keepCall (id : Nat) (x : Evaluating Value) (shown : Nat) :
    Evaluating Value := do
  match (← get).lookup id with
  | some value => pure (value.truncate shown)
  | none =>
    let value ← x
    modify fun cache => (id, value) :: cache
    pure (value.truncate shown)

/-- What holds of known values passes on to steps that follow each other and to
values that are kept. -/
structure Closed (P : {α : Type} → Evaluating α → Prop) : Prop where
  pure : ∀ {α : Type} (a : α), P (pure a)
  bind : ∀ {α β : Type} {x : Evaluating α} {f : α → Evaluating β}, P x →
    (∀ a, P (f a)) → P (x >>= f)
  kept : ∀ (id : Nat) {x : Evaluating Value} (shown : Nat), P x →
    P (keepCall id x shown)

section

variable {P : {α : Type} → Evaluating α → Prop} {w : World}

theorem evaluate_indicator {available : Definitions} {shown id : Nat}
    {name : String} {args : List (Argument Expr)}
    (hname : isIndicatorName name = true) :
    evaluate w available shown (.call id name args) =
      keepCall id
        (do
          let values ← evaluateArguments w available w.bars.length args
          pure (w.computed name values))
        shown := by
  rw [evaluate, if_pos hname]
  rfl

mutual

/-- Every evaluation is put together in this way. -/
theorem Closed.evaluate (h : Closed P) (w : World) (available : Definitions)
    (shown : Nat) (e : Expr) : P (evaluate w available shown e) := by
  match e with
  | .literal value =>
      rw [Session.evaluate]
      exact h.pure _
  | .ref name =>
      rw [Session.evaluate]
      exact h.readName w available shown name
  | .call id name args =>
      cases hname : isIndicatorName name with
      | true =>
          rw [evaluate_indicator hname]
          have hargs := h.evaluateArguments w available w.bars.length args
          exact h.kept id shown (h.bind hargs fun values => h.pure _)
      | false =>
          rw [evaluate_function hname]
          have hargs := h.evaluateArguments w available shown args
          exact h.bind hargs fun values => h.pure _
  | .binary op left right =>
      rw [Session.evaluate]
      have hleft := h.evaluate w available shown left
      have hright := h.evaluate w available shown right
      exact h.bind hleft fun a => h.bind hright fun b => h.pure _
  | .unary op operand =>
      rw [Session.evaluate]
      exact h.bind (h.evaluate w available shown operand) fun a => h.pure _
  | .ternary condition whenTrue whenFalse =>
      rw [Session.evaluate]
      refine h.bind (h.evaluate w available shown condition) fun c => ?_
      split
      · exact h.evaluate w available shown whenTrue
      · exact h.evaluate w available shown whenFalse
  | .indexed name offset =>
      rw [Session.evaluate]
      have hbase := h.readName w available shown name
      have hoffset := h.evaluate w available shown offset
      exact h.bind hbase fun base => h.bind hoffset fun k => h.pure _
termination_by weightDefinitions available + weight e
decreasing_by all_goals simp only [weight]; omega

theorem Closed.evaluateArguments (h : Closed P) (w : World)
    (available : Definitions) (shown : Nat) (args : List (Argument Expr)) :
    P (evaluateArguments w available shown args) := by
  match args with
  | [] =>
      rw [Session.evaluateArguments]
      exact h.pure _
  | ⟨name, value⟩ :: rest =>
      rw [Session.evaluateArguments]
      have hfirst := h.evaluate w available shown value
      have hothers := h.evaluateArguments w available shown rest
      exact h.bind hfirst fun first => h.bind hothers fun others => h.pure _
termination_by weightDefinitions available + weightArguments args
decreasing_by all_goals simp only [weightArguments]; omega

theorem Closed.readName (h : Closed P) (w : World) (available : Definitions)
    (shown : Nat) (name : String) : P (readName w available shown name) := by
  cases nameReading w name with
  | named hn =>
      rw [readName_named hn]
      exact h.readDefined w available shown name
  | input hn hi =>
      rw [readName_input hn hi]
      exact h.pure _
  | @line hn hi base line hs hb =>
      rw [readName_line hn hi hs hb]
      exact h.bind (h.readDefined w available shown base) fun value => h.pure _
  | unknown hn hi hs =>
      rw [readName_unknown hn hi hs]
      exact h.pure _
termination_by weightDefinitions available + 1
decreasing_by all_goals omega

theorem Closed.readDefined (h : Closed P) (w : World)
    (available : Definitions) (shown : Nat) (name : String) :
    P (readDefined w available shown name) := by
  cases hf : w.isFixed name with
  | true =>
      obtain ⟨v, hv⟩ := Option.isSome_iff_exists.mp
        ((isSome_fixed? w name shown).trans hf)
      rw [readDefined_fixed hv]
      exact h.pure _
  | false =>
      cases hr : release? name available with
      | some found =>
          obtain ⟨e, left⟩ := found
          rw [readDefined_entered hf hr]
          exact h.evaluate w left shown e
      | none =>
          rw [readDefined_absent hf hr]
          exact h.pure _
termination_by weightDefinitions available
decreasing_by
  have hweight := weight_release? hr
  omega

end

end

/-! ## Looking up or computing -/

section

variable {id : Nat} {x : Evaluating Value} {shown : Nat} {c : Cache}

theorem keepCall_hit {v : Value} (hv : c.lookup id = some v) :
    keepCall id x shown c = (v.truncate shown, c) := by
  unfold keepCall
  simp only [get_bind, hv]
  rfl

theorem keepCall_miss (hv : c.lookup id = none) :
    keepCall id x shown c =
      ((x c).1.truncate shown, (id, (x c).1) :: (x c).2) := by
  unfold keepCall
  simp only [get_bind, hv]
  rfl

end

/-! ## Doing it again -/

/-- What is kept in the first cache is kept in the second one. -/
def KeptIn (c d : Cache) : Prop :=
  ∀ id v, c.lookup id = some v → d.lookup id = some v

theorem KeptIn.refl (c : Cache) : KeptIn c c :=
  fun _ _ h => h

theorem KeptIn.trans {c d e : Cache} (h : KeptIn c d) (h' : KeptIn d e) :
    KeptIn c e :=
  fun id v hv => h' id v (h id v hv)

/-- The computation adds to the cache, and from a cache with what it added it
gives the same value again without adding anything. -/
structure Recalls {α : Type} (x : Evaluating α) : Prop where
  adds : ∀ c, KeptIn c (x c).2
  again : ∀ c d, KeptIn (x c).2 d → x d = ((x c).1, d)

theorem Recalls.bind {α β : Type} {x : Evaluating α} {f : α → Evaluating β}
    (h : Recalls x) (hf : ∀ a, Recalls (f a)) : Recalls (x >>= f) where
  adds c := by
    rw [run_bind]
    exact (h.adds c).trans ((hf _).adds _)
  again c d hd := by
    rw [run_bind] at hd ⊢
    have hfirst := h.again c d (((hf _).adds _).trans hd)
    rw [hfirst, (hf _).again _ d hd, run_bind]

theorem Recalls.kept {x : Evaluating Value} (h : Recalls x) (id shown : Nat) :
    Recalls (keepCall id x shown) where
  adds c := by
    cases hid : c.lookup id with
    | some v =>
        rw [keepCall_hit hid]
        exact .refl c
    | none =>
        rw [keepCall_miss hid]
        intro other v hv
        have hne : (other == id) = false := by
          rw [beq_eq_false_iff_ne]
          rintro rfl
          rw [hid] at hv
          cases hv
        rw [List.lookup_cons, hne]
        exact h.adds c other v hv
  again c d hd := by
    cases hid : c.lookup id with
    | some v =>
        rw [keepCall_hit hid] at hd ⊢
        rw [keepCall_hit (hd id v hid)]
    | none =>
        rw [keepCall_miss hid] at hd ⊢
        rw [keepCall_hit (hd id _ (List.lookup_cons_self))]

theorem closed_recalls : Closed Recalls where
  pure _ := ⟨fun c => .refl c, fun _ _ _ => rfl⟩
  bind := Recalls.bind
  kept id _ shown h := h.kept id shown

/-- **Evaluating again changes nothing.** -/
theorem recalls_valueOn (w : World) (shown : Nat) (e : Expr) :
    Recalls (w.valueOn shown e) :=
  closed_recalls.evaluate w w.definitions shown e

/-! ## Caches with the same values -/

/-- The caches keep the same values. -/
def SameKept (c d : Cache) : Prop :=
  ∀ id, c.lookup id = d.lookup id

theorem together_kept {x : Evaluating Value} (h : Together SameKept Eq x x)
    (id shown : Nat) :
    Together SameKept Eq (keepCall id x shown) (keepCall id x shown) := by
  intro c d hcd
  cases hid : d.lookup id with
  | some v =>
      rw [keepCall_hit ((hcd id).trans hid), keepCall_hit hid]
      exact ⟨rfl, hcd⟩
  | none =>
      rw [keepCall_miss ((hcd id).trans hid), keepCall_miss hid]
      obtain ⟨hvalue, hafter⟩ := h c d hcd
      refine ⟨congrArg (Value.truncate shown) hvalue, ?_⟩
      intro other
      rw [hvalue, List.lookup_cons, List.lookup_cons, hafter other]

theorem closed_sameKept : Closed fun x => Together SameKept Eq x x where
  pure _ := .pure rfl
  bind h hf := h.bind fun a _ heq => heq ▸ hf a
  kept id _ shown h := together_kept h id shown

/-- An expression has one value in caches that keep the same values. -/
theorem together_sameKept (w : World) (shown : Nat) (e : Expr) :
    Together SameKept Eq (w.valueOn shown e) (w.valueOn shown e) :=
  closed_sameKept.evaluate w w.definitions shown e

end Barscript.Session

import Barscript.Proofs.Session.Evaluation
import Barscript.Proofs.Session.Together

/-!
# What was evaluated before does not matter

Where no variable reaches itself and every indicator call has an identity of
its own, an expression has one value: it does not depend on what evaluations
left in the cache, nor on the definitions that are left, as long as those are
there that it needs. The position matters only to an expression that reads it.

A cache is *faithful* when it holds of each call the value that the call has
when everything is evaluated from the start.
-/

namespace Barscript.Session

open Barscript.Script Barscript.Series Barscript.Builtin Barscript.Trading

/-- No variable reaches itself. -/
def World.Acyclic (w : World) : Prop :=
  ∀ key value, w.strategy.definitions[key]? = some value →
    ∀ e, Reads w true value e → ∀ name, nameRead? e = some name →
      ∀ f, w.entered? name = some f → variableOf w.strategy name ≠ key

/-- The expression is a name whose variable reaches itself. -/
def World.Loops (w : World) (e : Expr) : Prop :=
  ∃ name value, nameRead? e = some name ∧ w.entered? name = some value ∧
    ∃ f name', Reads w true value f ∧ nameRead? f = some name' ∧
      (w.entered? name').isSome = true ∧
      variableOf w.strategy name' = variableOf w.strategy name

variable {w : World} {a b : Position}

theorem World.Acyclic.not_loops (h : w.Acyclic) (e : Expr) :
    ¬w.Loops e := by
  rintro ⟨name, value, _, hentered, f, name', hreads, hname', hsome, heq⟩
  obtain ⟨f', hf'⟩ := Option.isSome_iff_exists.mp hsome
  exact h _ value (getElem?_of_entered? hentered) f hreads name' hname' f'
    hf' heq

/-! ## Definitions that are needed -/

/-- The definitions that are left are enough to read the expression. -/
structure Holds (w : World) (available : Definitions) (e : Expr) : Prop where
  sublist : available.Sublist w.definitions
  needed : ∀ f, Reads w true e f → ∀ name, nameRead? f = some name →
    ∀ value, w.entered? name = some value →
      ∃ left, release? (variableOf w.strategy name) available =
        some (value, left)

theorem Holds.all (w : World) (e : Expr) : Holds w w.definitions e where
  sublist := List.Sublist.refl _
  needed _ _ _ _ _ hvalue :=
    release?_definitions (getElem?_of_entered? hvalue)

section

variable {available left : Definitions} {e f : Expr}

theorem Holds.part (h : Holds w available e)
    (hpart : Part w.entered? true e f) : Holds w available f where
  sublist := h.sublist
  needed g hg := h.needed g (.head hpart hg)

/-- While a definition is read, everything is left that it needs. -/
theorem Holds.definition (he : ¬w.Loops e) (h : Holds w available e)
    {name : String} (hname : nameRead? e = some name)
    (hentered : w.entered? name = some f)
    (hr : release? (variableOf w.strategy name) available =
      some (f, left)) : Holds w left f where
  sublist := (release?_sublist hr).2.trans h.sublist
  needed := by
    intro g hg name' hname' value hvalue
    -- No name inside of the definition stands for the definition itself.
    have hne : variableOf w.strategy name' ≠ variableOf w.strategy name :=
      fun heq => he ⟨name, f, hname, hentered, g, name', hg, hname',
        Option.isSome_of_eq_some hvalue, heq⟩
    obtain ⟨left', hleft'⟩ := h.needed g
      (.head (.definition hname hentered) hg) name' hname' value hvalue
    exact release?_of_ne hr hne hleft'

end

/-! ## Names that look the same -/

/-- The expression reads the same fixed names in both. -/
def Same (w : World) (a b : Position) (e : Expr) : Prop :=
  ∀ f, Reads w true e f → ∀ name, nameRead? f = some name →
    ∀ shown, (w.holding a).fixed? name shown = (w.holding b).fixed? name shown

theorem Same.refl (w : World) (a : Position) (e : Expr) :
    Same w a a e :=
  fun _ _ _ _ _ => rfl

theorem Same.part {e f : Expr} (h : Same w a b e)
    (hpart : Part w.entered? true e f) : Same w a b f :=
  fun g hg => h g (.head hpart hg)

/-- The name of the position. -/
def positionName : String := "strategy.position_size"

/-- The expression reads the position that is held. -/
def World.ReadsPosition (w : World) (e : Expr) : Prop :=
  nameRead? e = some positionName ∧ w.overrides.contains positionName = false

theorem builtin?_holding {name : String} (hname : name ≠ positionName)
    (shown : Nat) :
    (w.holding a).builtin? name shown = (w.holding b).builtin? name shown := by
  unfold World.builtin?
  split
  · rfl
  · rfl
  · rfl
  · exact absurd rfl hname
  · rfl
  · rfl
  · rfl
  · rfl
  · rfl
  · rfl
  · rfl

/-- A value that was set is read in every position. -/
theorem fixed?_of_contains {name : String}
    (hname : w.overrides.contains name = true) (shown : Nat) :
    (w.holding a).fixed? name shown = (w.holding b).fixed? name shown := by
  have hsome : ((w.holding a).override? name shown).isSome = true := by
    rw [isSome_override?]
    exact hname
  obtain ⟨v, hv⟩ := Option.isSome_iff_exists.mp hsome
  have hv' : (w.holding b).override? name shown = some v := hv
  rw [World.fixed?, World.fixed?, hv, hv', Option.some_or, Option.some_or]

/-- An expression reads the same names in every position unless it reads the
position itself. -/
theorem Same.of_positionFree {e : Expr}
    (h : ∀ f, Reads w true e f → ¬w.ReadsPosition f) (a b : Position) :
    Same w a b e := by
  intro f hf name hname shown
  by_cases hposition : name = positionName
  · subst hposition
    cases hset : w.overrides.contains positionName with
    | true => exact fixed?_of_contains hset shown
    | false => exact absurd ⟨hname, hset⟩ (h f hf)
  · unfold World.fixed?
    rw [builtin?_holding hposition]
    rfl

/-- Neither the position nor the symbol has lines. -/
theorem line_fixed? {v : World} (hbars : v.bars = w.bars)
    (hset : v.overrides = w.overrides) (base line : String) (shown : Nat) :
    ((v.fixed? base shown).map fun u => (u.component? line).getD .na) =
      (w.fixed? base shown).map fun u => (u.component? line).getD .na := by
  have hprice : ∀ name, v.price? name shown = w.price? name shown := by
    intro name
    rw [World.price?, World.price?, hbars]
  have hoverride : v.override? base shown = w.override? base shown := by
    unfold World.override?
    rw [hset]
    simp only [hprice]
  have hbuiltin : ((v.builtin? base shown).map fun u =>
      (u.component? line).getD .na) =
        (w.builtin? base shown).map fun u =>
          (u.component? line).getD .na := by
    unfold World.builtin?
    rw [hbars]
    split <;> rfl
  unfold World.fixed?
  rw [hoverride, hprice]
  cases w.override? base shown with
  | some u => rfl
  | none =>
      cases w.price? base shown with
      | some u => rfl
      | none => exact hbuiltin

/-! ## Faithful caches -/

/-- The values of some arguments over all bars when nothing was evaluated
before. -/
def World.freshArguments (w : World) (args : List (Argument Expr)) :
    List (Argument Value) :=
  (evaluateArguments w w.definitions w.bars.length args []).1

/-- The value of an expression when nothing was evaluated before. -/
def World.fresh (w : World) (shown : Nat) (e : Expr) : Value :=
  (w.valueOn shown e []).1

/-- The cache holds of the indicator calls in a set what they are when nothing
was evaluated before. -/
def Faithful (w : World) (S : Expr → Prop) (c : Cache) : Prop :=
  ∀ id v, c.lookup id = some v → ∀ name args,
    isIndicatorName name = true → S (.call id name args) →
      v = w.computed name (w.freshArguments args)

theorem Faithful.empty (w : World) (S : Expr → Prop) : Faithful w S [] := by
  intro id v hv
  cases hv

/-- A set of expressions with all that they read, in which an identity belongs
to one indicator call and no variable reaches itself. -/
structure Regular (w : World) (S : Expr → Prop) : Prop where
  acyclic : ∀ e, S e → ¬w.Loops e
  closed : ∀ {e f : Expr}, S e → Part w.entered? true e f → S f
  identified : ∀ {id : Nat} {name name' : String}
    {args args' : List (Argument Expr)},
    S (.call id name args) → S (.call id name' args') →
    isIndicatorName name = true → isIndicatorName name' = true →
      name = name' ∧ args = args'

section

variable {S : Expr → Prop} {available : Definitions} {shown id : Nat}
  {name : String} {args : List (Argument Expr)} {c : Cache}

/-- The value of one more call. -/
theorem Faithful.cons (h : Regular w S) {v : World}
    (hc : Faithful v S c) (hname : isIndicatorName name = true)
    (hcall : S (.call id name args)) :
    Faithful v S ((id, v.computed name (v.freshArguments args)) :: c) := by
  intro other u hu name' args' hname' hcall'
  rw [List.lookup_cons] at hu
  split at hu
  · rename_i heq
    obtain rfl := eq_of_beq heq
    obtain ⟨rfl, rfl⟩ := h.identified hcall hcall' hname hname'
    exact (Option.some.inj hu).symm
  · exact hc other u hu name' args' hname' hcall'

/-- From a faithful cache an indicator call has the value that it has when
nothing was evaluated before, if its arguments do. -/
theorem evaluate_faithful (h : Regular w S) (shown : Nat) {v : World}
    (hname : isIndicatorName name = true) (hcall : S (.call id name args))
    (hc : Faithful v S c)
    (hvalues : (evaluateArguments v available v.bars.length args c).1 =
      v.freshArguments args)
    (hcache : Faithful v S
      (evaluateArguments v available v.bars.length args c).2) :
    (evaluate v available shown (.call id name args) c).1 =
        (v.computed name (v.freshArguments args)).truncate shown ∧
      Faithful v S
        (evaluate v available shown (.call id name args) c).2 := by
  cases hlookup : c.lookup id with
  | some u =>
      rw [evaluate_hit hname hlookup, hc id u hlookup name args hname hcall]
      exact ⟨rfl, hc⟩
  | none =>
      rw [evaluate_miss hname hlookup]
      show (v.computed name (evaluateArguments v available v.bars.length
          args c).1).truncate shown = _ ∧
        Faithful v S ((id, v.computed name (evaluateArguments v available
          v.bars.length args c).1) :: _)
      rw [hvalues]
      exact ⟨rfl, hcache.cons h hname hcall⟩

end

/-! ## The induction -/

/-- An expression may be evaluated in two ways: with the definitions `A` seen
from `a`, and with the definitions `B` seen from `b`. -/
structure Ready (w : World) (S : Expr → Prop) (a b : Position)
    (A B : Definitions) (e : Expr) : Prop where
  mem : S e
  left : Holds w A e
  right : Holds w B e
  same : Same w a b e

/-- The definition of a name may be evaluated in two ways, each time with the
definitions that are then left. -/
def ReadyWithout (w : World) (S : Expr → Prop) (a b : Position)
    (A B : Definitions) (key : String) (e : Expr) : Prop :=
  ∃ left left', release? key A = some (e, left) ∧
    release? key B = some (e, left') ∧ Ready w S a b left left' e

/-- Two caches, each faithful where it is used. -/
def BothFaithful (w : World) (S : Expr → Prop) (a b : Position)
    (c d : Cache) : Prop :=
  Faithful (w.holding a) S c ∧ Faithful (w.holding b) S d

section

variable {S : Expr → Prop} {A B : Definitions} {e f : Expr}

theorem Ready.part (h : Regular w S) (he : Ready w S a b A B e)
    (hpart : Part w.entered? true e f) : Ready w S a b A B f where
  mem := h.closed he.mem hpart
  left := he.left.part hpart
  right := he.right.part hpart
  same := he.same.part hpart

theorem Ready.definition (h : Regular w S) (he : Ready w S a b A B e)
    {name : String} (hname : nameRead? e = some name)
    (hentered : w.entered? name = some f) :
    ReadyWithout w S a b A B (variableOf w.strategy name) f := by
  have hpart : Part w.entered? true e f := .definition hname hentered
  obtain ⟨left, hleft⟩ := he.left.needed e .refl name hname f hentered
  obtain ⟨left', hleft'⟩ := he.right.needed e .refl name hname f hentered
  refine ⟨left, left', hleft, hleft', h.closed he.mem hpart, ?_, ?_, ?_⟩
  · exact he.left.definition (h.acyclic e he.mem) hname hentered hleft
  · exact he.right.definition (h.acyclic e he.mem) hname hentered hleft'
  · exact he.same.part hpart

end

variable {S : Expr → Prop}

mutual

/-- **Two evaluations of one expression agree**, whatever was evaluated before
and whichever definitions are left. -/
theorem together_fresh (h : Regular w S) {a b : Position}
    {A B : Definitions} (shown : Nat) (e : Expr)
    (he : Ready w S a b A B e) :
    Together (BothFaithful w S a b) Eq (evaluate (w.holding a) A shown e)
      (evaluate (w.holding b) B shown e) := by
  match e with
  | .literal value =>
      rw [evaluate, evaluate]
      exact .pure rfl
  | .ref name =>
      rw [evaluate, evaluate]
      exact together_freshName h shown he.left.sublist he.right.sublist name
        (fun f hentered => he.definition h rfl hentered)
        (he.same _ .refl name rfl)
  | .call id name args =>
      cases hname : isIndicatorName name with
      | true =>
          -- Both sides are compared with an evaluation from the start.
          have hargs : ∀ {y : Position} {B' : Definitions},
              Same w a y (.call id name args) →
              Holds w B' (.call id name args) →
              Together (BothFaithful w S a y) Eq
                (evaluateArguments (w.holding a) A w.bars.length args)
                (evaluateArguments (w.holding y) B' w.bars.length args) := by
            intro y B' hsame hB'
            refine together_freshArguments h w.bars.length args ?_
            intro x hx
            exact Ready.part h ⟨he.mem, he.left, hB', hsame⟩
              (.argument (Or.inl rfl) hx)
          have hall : Holds w w.definitions (.call id name args) := .all w _
          have hnone : ∀ y, Faithful (w.holding y) S [] :=
            fun y => .empty (w.holding y) S
          rintro c d ⟨hc, hd⟩
          obtain ⟨hown, _⟩ := hargs (.refl w a _) hall [] [] ⟨hnone a, hnone a⟩
          obtain ⟨hother, _⟩ := hargs he.same hall [] [] ⟨hnone a, hnone b⟩
          obtain ⟨hleft, hcache, _⟩ := hargs (.refl w a _) hall c []
            ⟨hc, hnone a⟩
          obtain ⟨hright, _, hcache'⟩ := hargs he.same he.right [] d
            ⟨hnone a, hd⟩
          have hfresh : (w.holding a).freshArguments args =
              (w.holding b).freshArguments args := hown.symm.trans hother
          have hcall := evaluate_faithful h shown hname he.mem hc
            hleft hcache
          have hcall' := evaluate_faithful h shown hname he.mem hd
            (hright.symm.trans hother) hcache'
          refine ⟨?_, hcall.2, hcall'.2⟩
          rw [hcall.1, hcall'.1, hfresh]
          rfl
      | false =>
          rw [evaluate_function hname, evaluate_function hname]
          have hargs := together_freshArguments h shown args
            fun x hx => he.part h (.argument (Or.inl rfl) hx)
          refine hargs.bind ?_
          rintro vs _ rfl
          exact .pure rfl
  | .binary op left right =>
      rw [evaluate, evaluate]
      refine (together_fresh h shown left (he.part h .left)).bind ?_
      rintro v _ rfl
      refine (together_fresh h shown right (he.part h .right)).bind ?_
      rintro u _ rfl
      exact .pure rfl
  | .unary op operand =>
      rw [evaluate, evaluate]
      refine (together_fresh h shown operand (he.part h .operand)).bind ?_
      rintro v _ rfl
      exact .pure rfl
  | .ternary condition whenTrue whenFalse =>
      rw [evaluate, evaluate]
      refine (together_fresh h shown condition (he.part h .condition)).bind ?_
      rintro v _ rfl
      split
      · exact together_fresh h shown whenTrue (he.part h .whenTrue)
      · exact together_fresh h shown whenFalse (he.part h .whenFalse)
  | .indexed name offset =>
      rw [evaluate, evaluate]
      have hname := together_freshName h shown he.left.sublist
        he.right.sublist name (fun f hentered => he.definition h rfl hentered)
        (he.same _ .refl name rfl)
      refine hname.bind ?_
      rintro v _ rfl
      refine (together_fresh h shown offset (he.part h .offset)).bind ?_
      rintro k _ rfl
      exact .pure rfl
termination_by weightDefinitions A + weight e
decreasing_by all_goals simp only [weight]; omega

theorem together_freshArguments (h : Regular w S) {a b : Position}
    {A B : Definitions} (shown : Nat) (args : List (Argument Expr))
    (hargs : ∀ x ∈ args, Ready w S a b A B x.value) :
    Together (BothFaithful w S a b) Eq
      (evaluateArguments (w.holding a) A shown args)
      (evaluateArguments (w.holding b) B shown args) := by
  match args with
  | [] =>
      rw [evaluateArguments, evaluateArguments]
      exact .pure rfl
  | ⟨name, value⟩ :: rest =>
      rw [evaluateArguments, evaluateArguments]
      refine (together_fresh h shown value
        (hargs _ List.mem_cons_self)).bind ?_
      rintro v _ rfl
      refine (together_freshArguments h shown rest fun x hx =>
        hargs x (List.mem_cons_of_mem _ hx)).bind ?_
      rintro vs _ rfl
      exact .pure rfl
termination_by weightDefinitions A + weightArguments args
decreasing_by all_goals simp only [weightArguments]; omega

theorem together_freshName (h : Regular w S) {a b : Position}
    {A B : Definitions} (shown : Nat) (hA : A.Sublist w.definitions)
    (hB : B.Sublist w.definitions) (name : String)
    (hentered : ∀ f, w.entered? name = some f →
      ReadyWithout w S a b A B (variableOf w.strategy name) f)
    (hfixed : ∀ shown, (w.holding a).fixed? name shown =
      (w.holding b).fixed? name shown) :
    Together (BothFaithful w S a b) Eq (readName (w.holding a) A shown name)
      (readName (w.holding b) B shown name) := by
  cases nameReading w name with
  | named hn =>
      rw [readName_named (w := w.holding a) hn,
        readName_named (w := w.holding b) hn]
      refine together_freshDefined h shown hA hB name ?_ fun _ => hfixed shown
      intro f hf he
      have hready := hentered f (entered?_named hf he)
      rw [variableOf_named he] at hready
      exact hready
  | input hn hi =>
      rw [readName_input (w := w.holding a) hn hi,
        readName_input (w := w.holding b) hn hi]
      exact .pure rfl
  | @line hn hi base line hs hb =>
      rw [readName_line (w := w.holding a) hn hi hs hb,
        readName_line (w := w.holding b) hn hi hs hb]
      cases hf : w.isFixed base with
      | true =>
          obtain ⟨v, hv⟩ := Option.isSome_iff_exists.mp
            ((isSome_fixed? (w.holding a) base shown).trans hf)
          obtain ⟨u, hu⟩ := Option.isSome_iff_exists.mp
            ((isSome_fixed? (w.holding b) base shown).trans hf)
          have hline := line_fixed? (v := w.holding a) (w := w.holding b) rfl
            rfl base line shown
          rw [hv, hu] at hline
          rw [readDefined_fixed hv, readDefined_fixed hu]
          exact .pure (Option.some.inj hline)
      | false =>
          have hbase : Together (BothFaithful w S a b) Eq
              (readDefined (w.holding a) A shown base)
              (readDefined (w.holding b) B shown base) := by
            refine together_freshDefined h shown hA hB base ?_ ?_
            · intro f hf he
              have hready := hentered f (entered?_line hn hs hf he)
              rw [variableOf_line hn hs] at hready
              exact hready
            · intro hfixed'
              rw [hf] at hfixed'
              cases hfixed'
          refine hbase.bind ?_
          rintro v _ rfl
          exact .pure rfl
  | unknown hn hi hs =>
      rw [readName_unknown (w := w.holding a) hn hi hs,
        readName_unknown (w := w.holding b) hn hi hs]
      exact .pure rfl
termination_by weightDefinitions A + 1
decreasing_by all_goals omega

theorem together_freshDefined (h : Regular w S) {a b : Position}
    {A B : Definitions} (shown : Nat) (hA : A.Sublist w.definitions)
    (hB : B.Sublist w.definitions) (name : String)
    (hdefined : ∀ f, w.isFixed name = false →
      w.strategy.definitions[name]? = some f →
      ReadyWithout w S a b A B name f)
    (hfixed : w.isFixed name = true → (w.holding a).fixed? name shown =
      (w.holding b).fixed? name shown) :
    Together (BothFaithful w S a b) Eq
      (readDefined (w.holding a) A shown name)
      (readDefined (w.holding b) B shown name) := by
  cases hf : w.isFixed name with
  | true =>
      obtain ⟨v, hv⟩ := Option.isSome_iff_exists.mp
        ((isSome_fixed? (w.holding a) name shown).trans hf)
      have hu := hfixed hf
      rw [hv] at hu
      rw [readDefined_fixed hv, readDefined_fixed hu.symm]
      exact .pure rfl
  | false =>
      cases hdef : w.strategy.definitions[name]? with
      | some f =>
          obtain ⟨left, left', hr, hr', hready⟩ := hdefined f hf hdef
          rw [readDefined_entered (w := w.holding a) hf hr,
            readDefined_entered (w := w.holding b) hf hr']
          exact together_fresh h shown f hready
      | none =>
          rw [readDefined_absent (w := w.holding a) hf
              (release?_undefined hA hdef),
            readDefined_absent (w := w.holding b) hf
              (release?_undefined hB hdef)]
          exact .pure rfl
termination_by weightDefinitions A
decreasing_by
  have hweight := weight_release? hr
  omega

end

/-! ## Values -/

section

variable {available : Definitions} {e : Expr} {c : Cache}

/-- **The value of an expression is the same from every faithful cache**, and
the cache stays faithful. -/
theorem evaluate_eq_fresh (h : Regular w S) (he : S e)
    (ha : Holds w available e) (p : Position) (shown : Nat)
    (hc : Faithful (w.holding p) S c) :
    (evaluate (w.holding p) available shown e c).1 =
        (w.holding p).fresh shown e ∧
      Faithful (w.holding p) S
        (evaluate (w.holding p) available shown e c).2 := by
  obtain ⟨hvalue, hcache, _⟩ := together_fresh h shown e
    ⟨he, ha, .all w e, .refl w p e⟩ c [] ⟨hc, .empty _ S⟩
  exact ⟨hvalue, hcache⟩

/-- No indicator call in the set reads the position. -/
def PositionFree (w : World) (S : Expr → Prop) : Prop :=
  ∀ id name args, isIndicatorName name = true → S (.call id name args) →
    ∀ x ∈ args, ∀ f, Reads w true x.value f → ¬w.ReadsPosition f

/-- Arguments of an indicator call have the same values from every faithful
cache and in every position. -/
theorem evaluateArguments_eq_fresh (h : Regular w S)
    (hfree : PositionFree w S) {id : Nat} {name : String}
    {args : List (Argument Expr)} (hname : isIndicatorName name = true)
    (hcall : S (.call id name args)) (ha : Holds w available (.call id name args))
    (p q : Position) (hc : Faithful (w.holding p) S c) :
    (evaluateArguments (w.holding p) available w.bars.length args c).1 =
      (w.holding q).freshArguments args := by
  have hargs : ∀ x ∈ args, Ready w S p q available w.definitions x.value := by
    intro x hx
    have hpart : Part w.entered? true (.call id name args) x.value :=
      .argument (Or.inl rfl) hx
    exact ⟨h.closed hcall hpart, ha.part hpart, .all w x.value,
      .of_positionFree (hfree id name args hname hcall x hx) p q⟩
  exact (together_freshArguments h w.bars.length args hargs c []
    ⟨hc, .empty _ S⟩).1

/-- A cache that is faithful in one position is so in every other. -/
theorem Faithful.holding (h : Regular w S) (hfree : PositionFree w S)
    {p : Position} (hc : Faithful (w.holding p) S c) (q : Position) :
    Faithful (w.holding q) S c := by
  intro id v hv name args hname hcall
  have hsame := evaluateArguments_eq_fresh h hfree hname hcall (.all w _) p q
    (.empty (w.holding p) S)
  rw [hc id v hv name args hname hcall]
  show w.computed name ((w.holding p).freshArguments args) =
    w.computed name ((w.holding q).freshArguments args)
  exact congrArg (w.computed name) hsame

end

end Barscript.Session

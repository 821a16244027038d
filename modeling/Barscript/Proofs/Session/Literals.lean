import Barscript.Proofs.Session.Lockstep

/-!
# Expressions built from literals

An expression that is built only from literals and inputs with such defaults
has one value at all bars, so it may stand where a builtin reads one number.
`FromLiterals` are these expressions; `neverColumn_of_fromLiterals` is what
they are good for.
-/

namespace Barscript.Session

open Barscript.Script Barscript.Series Barscript.Builtin Barscript.Market
open Barscript.Trading

/-! ## Which argument a slot selects -/

/-- The argument that a slot selects: by one of the names, or else by the
position among the unnamed ones. -/
def argumentAt? {α : Type} (args : List (Argument α))
    (slot : Nat × List String) : Option α :=
  ((args.filterMap fun arg => arg.name.map fun name => (name, arg.value)).find?
    (fun entry => slot.2.contains entry.1)).map Prod.snd |>.or
      (Argument.positional args)[slot.1]?

theorem get?_ofList (values : List (Argument Value))
    (slot : Nat × List String) :
    (Arguments.ofList values).get? slot.1 slot.2 = argumentAt? values slot :=
  rfl

/-- The same names and related values select related arguments. -/
theorem rel_argumentAt? {α β : Type} {R : α → β → Prop}
    {as : List (Argument α)} {bs : List (Argument β)}
    (h : List.Forall₂ (fun a b => a.name = b.name ∧ R a.value b.value) as bs)
    (slot : Nat × List String) :
    Option.Rel R (argumentAt? as slot) (argumentAt? bs slot) := by
  refine rel_or ?_ ?_
  · induction h with
    | nil => exact .none
    | @cons a b as bs hab _ ih =>
        obtain ⟨name, x⟩ := a
        obtain ⟨name', y⟩ := b
        obtain ⟨hname, hvalue⟩ := hab
        obtain rfl : name = name' := hname
        cases name with
        | none => exact ih
        | some name =>
            simp only [List.filterMap_cons, Option.map_some, List.find?_cons]
            split
            · exact .some hvalue
            · exact ih
  · refine rel_getElem? ?_ slot.1
    induction h with
    | nil => exact .nil
    | @cons a b as bs hab _ ih =>
        obtain ⟨name, x⟩ := a
        obtain ⟨name', y⟩ := b
        obtain ⟨hname, hvalue⟩ := hab
        obtain rfl : name = name' := hname
        cases name with
        | none => exact .cons hvalue ih
        | some name => exact ih

section

variable {w : World} {scope : Scope w} {first : Cache}

/-- An evaluated argument has the value of its expression, from a cache that
evaluations may leave behind. -/
theorem evaluateArguments_values {c : Cache} (hc : Cached w scope first c)
    (p : Position) {available : Definitions} (shown : Nat)
    (args : List (Argument Expr))
    (hargs : ∀ a ∈ args, scope.contains available a.value) :
    List.Forall₂ (fun a v => a.name = v.name ∧
        scope.contains available a.value ∧
        ∃ d, Cached w scope first d ∧
          v.value = (evaluate (w.holding p) available shown a.value d).1)
      args (evaluateArguments (w.holding p) available shown args c).1 := by
  induction args generalizing c with
  | nil =>
      rw [evaluateArguments]
      exact .nil
  | cons a rest ih =>
      obtain ⟨name, value⟩ := a
      rw [evaluateArguments]
      have hvalue := hargs _ List.mem_cons_self
      refine .cons ⟨rfl, hvalue, c, hc, rfl⟩ ?_
      exact ih (hc.after p shown hvalue)
        fun b hb => hargs b (List.mem_cons_of_mem _ hb)

/-- Where the slots of a call select no columns no column is read as one
number. -/
theorem numbersSteady_of {shown id : Nat} {name : String}
    {args : List (Argument Expr)}
    (h : ∀ c, Cached w scope first c → ∀ p available,
      scope.contains available (.call id name args) →
      ∀ slot ∈ numberSlots name (.ofList (evaluateArguments (w.holding p)
        available shown args c).1),
      ∀ e, argumentAt? args slot = some e →
        NeverColumn w scope first e) :
    NumbersSteady w scope first shown id name args := by
  intro c hc p available hcall slot hslot v hv
  have hvalues := evaluateArguments_values hc p shown args
    fun a hmem => scope.piece hcall (.argument (Or.inl rfl) hmem)
  have hselected := rel_argumentAt? (R := fun e v =>
    scope.contains available e ∧ ∃ d, Cached w scope first d ∧
      v = (evaluate (w.holding p) available shown e d).1) hvalues slot
  rcases rel_cases hselected with
    ⟨_, hnone⟩ | ⟨e, u, he, hu, hcontains, d, hd, hvalue⟩
  · rw [get?_ofList, hnone] at hv
    cases hv
  · rw [get?_ofList, hu] at hv
    cases hv
    rw [hvalue]
    exact h c hc p available hcall slot hslot e he d hd p available
      hcontains shown

end

/-! ## Values that are no columns -/

theorem isColumn_unary (op : UnaryOp) {v : Value} (h : v.isColumn = false) :
    (Value.unary op v).isColumn = false := by
  unfold Value.unary
  cases v, h using Value.scalarCases with
  | number x =>
      cases op with
      | neg => rfl
      | not =>
          show (if x.isNaN then Value.na else _).isColumn = false
          split <;> rfl
  | _ => cases op <;> rfl

theorem isColumn_ofLiteral (value : Literal) :
    (Value.ofLiteral value).isColumn = false := by
  cases value <;> rfl

/-- A value that is no column has no lines. -/
theorem component?_eq_none {v : Value} (h : v.isColumn = false)
    (line : String) : v.component? line = none := by
  cases v with
  | tuple _ => cases h
  | _ => rfl

theorem isColumn_lagBy {v : Value} (h : v.isColumn = false) (offset : Value) :
    (lagBy v offset).isColumn = false := by
  have hlag : ∀ k, (v.lag k).isColumn = false := by
    intro k
    cases v, h using Value.scalarCases with
    | _ => rfl
  unfold lagBy
  split
  · split
    · exact hlag _
    · rfl
  · rfl

theorem isColumn_mapWith {v : Value} (h : v.isColumn = false)
    (f : Float → Float) : (v.mapWith f).isColumn = false := by
  cases v, h using Value.scalarCases with
  | _ => rfl

/-- No argument is a column. -/
structure PlainArguments (args : Arguments) : Prop where
  positional : ∀ v ∈ args.positional, v.isColumn = false
  named : ∀ entry ∈ args.named, entry.2.isColumn = false

theorem PlainArguments.get? {args : Arguments} (h : PlainArguments args)
    {index : Nat} {names : List String} {v : Value}
    (hv : args.get? index names = some v) : v.isColumn = false := by
  rcases Option.or_eq_some_iff.mp hv with hnamed | ⟨_, hpositional⟩
  · obtain ⟨entry, hfind, rfl⟩ := Option.map_eq_some_iff.mp hnamed
    exact h.named entry (List.mem_of_find?_eq_some hfind)
  · exact h.positional v (List.mem_of_getElem? hpositional)

/-- Functions make no columns of arguments that are none. -/
theorem isColumn_function? (name : String) {args : Arguments}
    (h : PlainArguments args) :
    ((function? name args).getD .na).isColumn = false := by
  have hnumber : ∀ f, (ofNumber args f).isColumn = false := by
    intro f
    unfold ofNumber
    split
    · rename_i v hv
      exact isColumn_mapWith (h.get? hv) f
    · rfl
  have hall : ∀ pick, (ofAll args pick).isColumn = false := by
    intro pick
    have hpositional := h.positional
    unfold ofAll
    cases hargs : args.positional with
    | nil => rfl
    | cons first rest =>
        rw [hargs] at hpositional
        have hfold : ∀ (vs : List Value) (u : Value), u.isColumn = false →
            (∀ v ∈ vs, v.isColumn = false) →
            (vs.foldl (Value.zipWith pick) u).isColumn = false := by
          intro vs
          induction vs with
          | nil => exact fun u hu _ => hu
          | cons v vs ih =>
              intro u hu hvs
              rw [List.forall_mem_cons] at hvs
              exact ih _ (Value.isColumn_zipWith pick hu hvs.1) hvs.2
        rw [List.forall_mem_cons] at hpositional
        exact hfold rest first hpositional.1 hpositional.2
  unfold function?
  split
  · exact hnumber _
  · exact hnumber _
  · exact hnumber _
  · exact hnumber _
  · exact hnumber _
  · exact hnumber _
  · exact hnumber _
  · show (power args).isColumn = false
    unfold power
    split
    · rename_i base exponent hbase hexponent
      exact Value.isColumn_zipWith _ (h.get? hbase) (h.get? hexponent)
    · rfl
  · exact hall _
  · exact hall _
  · show (replaceUndefined args).isColumn = false
    unfold replaceUndefined
    dsimp only
    split
    · rfl
    · rfl
    · rename_i v hv
      exact isColumn_mapWith (h.get? hv) _
  · show (testUndefined args).isColumn = false
    unfold testUndefined
    split
    · rfl
    · rfl
    · rfl
    · rename_i v hv
      exact isColumn_mapWith (h.get? hv) _
  · split
    · show ((args.get? 0 ["defval"]).getD .na).isColumn = false
      cases hv : args.get? 0 ["defval"] with
      | none => rfl
      | some v => exact h.get? hv
    · rfl

/-- Built only from literals, with operators and functions, inputs among them;
the variables that stand for such expressions are included. -/
inductive FromLiterals (w : World) : Expr → Prop where
  | literal (value : Literal) : FromLiterals w (.literal value)
  | call {id : Nat} {name : String} {args : List (Argument Expr)}
      (hname : isIndicatorName name = false)
      (hargs : ∀ a ∈ args, FromLiterals w a.value) :
      FromLiterals w (.call id name args)
  | unary (op : UnaryOp) {e : Expr} (he : FromLiterals w e) :
      FromLiterals w (.unary op e)
  | binary (op : BinaryOp) {e f : Expr} (he : FromLiterals w e)
      (hf : FromLiterals w f) : FromLiterals w (.binary op e f)
  | ternary {c e f : Expr} (hc : FromLiterals w c) (he : FromLiterals w e)
      (hf : FromLiterals w f) : FromLiterals w (.ternary c e f)
  | named {name : String} {e : Expr} (h : w.entered? name = some e)
      (he : FromLiterals w e) : FromLiterals w (.ref name)
  | declared {name : String} {input : Input}
      (h : (w.isFixed name || w.strategy.definitions.contains name) = false)
      (hi : w.strategy.inputs[name]? = some input) :
      FromLiterals w (.ref name)
  | indexed {name : String} {offset : Expr}
      (h : FromLiterals w (.ref name)) (ho : FromLiterals w offset) :
      FromLiterals w (.indexed name offset)

section

variable {w : World} {available : Definitions} {shown : Nat} {c : Cache}

theorem isColumn_readDefined {name : String}
    (ha : available.Sublist w.definitions) (hf : w.isFixed name = false)
    (h : ∀ e, w.strategy.definitions[name]? = some e → ∀ left c,
      left.Sublist w.definitions →
      (evaluate w left shown e c).1.isColumn = false) :
    (readDefined w available shown name c).1.isColumn = false := by
  cases hr : release? name available with
  | none =>
      rw [readDefined_absent hf hr]
      rfl
  | some found =>
      obtain ⟨e, left⟩ := found
      obtain ⟨he, hleft⟩ := definition_of_release? ha hr
      rw [readDefined_entered hf hr]
      exact h e he left c hleft

/-- Where the definition of a name is no column the name is none. -/
theorem isColumn_readName {name : String} {e : Expr}
    (ha : available.Sublist w.definitions) (he : w.entered? name = some e)
    (h : ∀ left c, left.Sublist w.definitions →
      (evaluate w left shown e c).1.isColumn = false) :
    (readName w available shown name c).1.isColumn = false := by
  -- The definition that is read is the one that is entered for the name.
  have hsame : ∀ base, w.isFixed base = false →
      (∀ f, w.strategy.definitions[base]? = some f →
        w.entered? name = some f) →
      (readDefined w available shown base c).1.isColumn = false := by
    intro base hf hbase
    refine isColumn_readDefined ha hf ?_
    intro f hdef
    have hentered := hbase f hdef
    rw [he] at hentered
    cases hentered
    exact h
  cases nameReading w name with
  | named hn =>
      rw [readName_named hn]
      cases hf : w.isFixed name with
      | true =>
          rw [World.entered?, hf] at he
          cases he
      | false => exact hsame name hf fun f hdef => entered?_named hf hdef
  | input hn hi =>
      rw [readName_input hn hi]
      exact isColumn_inputDefault _
  | @line hn hi base line hs hb =>
      rw [readName_line hn hi hs hb]
      cases hf : w.isFixed base with
      | true =>
          obtain ⟨hname, hcontains⟩ := Bool.or_eq_false_iff.mp hn
          rw [World.entered?, variableOf, hcontains, hs, hname] at he
          simp only [Bool.false_eq_true, if_false, Option.map_some,
            Option.getD_some, hf, Bool.or_true, if_true] at he
          cases he
      | false =>
          have hvalue := hsame base hf fun f hdef =>
            entered?_line hn hs hf hdef
          show (((readDefined w available shown base c).1.component?
            line).getD .na).isColumn = false
          rw [component?_eq_none hvalue]
          rfl
  | unknown hn hi hs =>
      rw [readName_unknown hn hi hs]
      rfl

end

/-- Arguments that are no columns in any evaluation give plain values. -/
theorem plainArguments_evaluate {w : World} {available : Definitions}
    {shown : Nat} {args : List (Argument Expr)}
    (h : ∀ a ∈ args, ∀ c,
      (evaluate w available shown a.value c).1.isColumn = false)
    (c : Cache) :
    PlainArguments
      (.ofList (evaluateArguments w available shown args c).1) := by
  have hvalues : ∀ v ∈ (evaluateArguments w available shown args c).1,
      v.value.isColumn = false := by
    induction args generalizing c with
    | nil =>
        intro v hv
        rw [evaluateArguments] at hv
        cases hv
    | cons a rest ih =>
        obtain ⟨name, value⟩ := a
        rw [List.forall_mem_cons] at h
        intro v hv
        rw [evaluateArguments] at hv
        rcases List.mem_cons.mp hv with rfl | hv
        · exact h.1 c
        · exact ih h.2 _ v hv
  constructor
  · intro v hv
    obtain ⟨a, ha, rfl⟩ := List.mem_map.mp hv
    exact hvalues a (List.mem_filter.mp ha).1
  · intro entry hentry
    obtain ⟨a, ha, hname⟩ := List.mem_filterMap.mp hentry
    obtain ⟨name, _, rfl⟩ := Option.map_eq_some_iff.mp hname
    exact hvalues a ha

/-- **Expressions built from literals are never columns.** -/
theorem neverColumn_of_fromLiterals {w : World} {scope : Scope w}
    {first : Cache} {e : Expr} (h : FromLiterals w e) :
    NeverColumn w scope first e := by
  suffices hvalue : ∀ p available c shown,
      available.Sublist w.definitions →
      (evaluate (w.holding p) available shown e c).1.isColumn = false from
    fun c _ p available he shown =>
      hvalue p available c shown (scope.sublist he)
  induction h with
  | literal value =>
      intro p available c shown _
      rw [evaluate]
      exact isColumn_ofLiteral value
  | @call id name args hname _ ih =>
      intro p available c shown ha
      rw [evaluate_function hname]
      exact isColumn_function? name
        (plainArguments_evaluate (fun a hmem c => ih a hmem p available c
          shown ha) c)
  | unary op _ ih =>
      intro p available c shown ha
      rw [evaluate]
      exact isColumn_unary op (ih p available c shown ha)
  | binary op _ _ ihe ihf =>
      intro p available c shown ha
      rw [evaluate]
      exact Value.isColumn_binary op (ihe p available c shown ha)
        (ihf p available _ shown ha)
  | @ternary condition e f _ _ _ ihc ihe ihf =>
      intro p available c shown ha
      rw [evaluate]
      show ((if _ then _ else _ : Evaluating Value) _).1.isColumn = false
      split
      · exact ihe p available _ shown ha
      · exact ihf p available _ shown ha
  | named hentered _ ih =>
      intro p available c shown ha
      rw [evaluate]
      exact isColumn_readName ha hentered fun left c hleft =>
        ih p left c shown hleft
  | declared hn hi =>
      intro p available c shown _
      rw [evaluate, readName_input (w := w.holding p) hn hi]
      exact isColumn_inputDefault _
  | @indexed name offset _ _ ih _ =>
      intro p available c shown ha
      have hname : evaluate (w.holding p) available shown (.ref name) =
          readName (w.holding p) available shown name := by
        rw [evaluate]
      have hbase := ih p available c shown ha
      rw [hname] at hbase
      rw [evaluate]
      exact isColumn_lagBy hbase _

end Barscript.Session

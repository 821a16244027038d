import Barscript.Proofs.Session.Fresh
import Barscript.Proofs.Session.Rules
import Barscript.Proofs.Session.ViewDependence

/-!
# Variables written out

A script may write the definition of a variable in place of its name.
`Expands x d e e'` says that this was done at some of the places in `e` where
the name `x` stands alone, with the definition `d`. What the expanded script
reads is an expansion of what the script reads, so it has no variable that
reaches itself if the script has none. And nothing in it depends on the view
that did not before; but a computed offset can become a literal, and then the
dependence is lost.
-/

namespace Barscript.Session

open Barscript.Script Barscript.Series Barscript.Market Barscript.Trading

/-! ## Expansion -/

mutual

/-- The second expression is the first one with `d` written in some places where
`x` stands alone. -/
inductive Expands (x : String) (d : Expr) : Expr → Expr → Prop where
  | literal (value : Literal) : Expands x d (.literal value) (.literal value)
  | ref (name : String) : Expands x d (.ref name) (.ref name)
  | expanded : Expands x d (.ref x) d
  | call (id : Nat) (name : String) {args args' : List (Argument Expr)}
      (h : ExpandsArguments x d args args') :
      Expands x d (.call id name args) (.call id name args')
  | binary (op : BinaryOp) {a a' b b' : Expr} (ha : Expands x d a a')
      (hb : Expands x d b b') : Expands x d (.binary op a b) (.binary op a' b')
  | unary (op : UnaryOp) {a a' : Expr} (ha : Expands x d a a') :
      Expands x d (.unary op a) (.unary op a')
  | ternary {c c' a a' b b' : Expr} (hc : Expands x d c c')
      (ha : Expands x d a a') (hb : Expands x d b b') :
      Expands x d (.ternary c a b) (.ternary c' a' b')
  | indexed (name : String) {o o' : Expr} (ho : Expands x d o o') :
      Expands x d (.indexed name o) (.indexed name o')

/-- Arguments that are expanded one by one. -/
inductive ExpandsArguments (x : String) (d : Expr) :
    List (Argument Expr) → List (Argument Expr) → Prop where
  | nil : ExpandsArguments x d [] []
  | cons (name : Option String) {e e' : Expr}
      {rest rest' : List (Argument Expr)} (h : Expands x d e e')
      (hrest : ExpandsArguments x d rest rest') :
      ExpandsArguments x d (⟨name, e⟩ :: rest) (⟨name, e'⟩ :: rest')

end

/-- The second strategy is the first one with the definition `d` of `x` written
in some places where `x` stands alone: in the rules and in definitions, and in
the indicator calls that were listed for them. -/
structure Expanded (x : String) (d : Expr) (s t : Strategy) : Prop where
  defined : s.definitions[x]? = some d
  definitions : ∀ name : String, Option.Rel (Expands x d) s.definitions[name]?
    t.definitions[name]?
  inputs : t.inputs = s.inputs
  indicators : List.Forall₂ (Expands x d) s.indicators t.indicators
  entries : List.Forall₂ (EntryMatches (Expands x d)) s.entries t.entries
  exits : List.Forall₂ (ExitMatches (Expands x d)) s.exits t.exits

section

variable {x : String} {d : Expr}

mutual

/-- Nothing has to be written out. -/
theorem Expands.refl (x : String) (d e : Expr) : Expands x d e e := by
  match e with
  | .literal value => exact .literal value
  | .ref name => exact .ref name
  | .call id name args => exact .call id name (.refl x d args)
  | .binary op a b => exact .binary op (.refl x d a) (.refl x d b)
  | .unary op a => exact .unary op (.refl x d a)
  | .ternary c a b => exact .ternary (.refl x d c) (.refl x d a) (.refl x d b)
  | .indexed name o => exact .indexed name (.refl x d o)
termination_by weight e
decreasing_by all_goals simp only [weight]; omega

theorem ExpandsArguments.refl (x : String) (d : Expr)
    (args : List (Argument Expr)) : ExpandsArguments x d args args := by
  match args with
  | [] => exact .nil
  | ⟨name, e⟩ :: rest => exact .cons name (.refl x d e) (.refl x d rest)
termination_by weightArguments args
decreasing_by all_goals simp only [weightArguments]; omega

end

theorem ExpandsArguments.exists_expands {args args' : List (Argument Expr)}
    (h : ExpandsArguments x d args args') {a' : Argument Expr}
    (ha : a' ∈ args') : ∃ a ∈ args, Expands x d a.value a'.value := by
  induction args generalizing args' with
  | nil =>
      cases h
      cases ha
  | cons first rest ih =>
      cases h with
      | @cons name e e' _ _ he hrest =>
          rcases List.mem_cons.mp ha with rfl | htail
          · exact ⟨_, List.mem_cons_self, he⟩
          · obtain ⟨a, hmem, hexpands⟩ := ih hrest htail
            exact ⟨a, List.mem_cons_of_mem _ hmem, hexpands⟩

end

/-- The world with another script. -/
def World.scripted (w : World) (t : Strategy) : World :=
  { w with strategy := t }

section

variable {w : World} {s t : Strategy} {x name : String} {d e e' f' : Expr}

/-! ## The same names are defined -/

theorem Expanded.contains (h : Expanded x d s t) (name : String) :
    t.definitions.contains name = s.definitions.contains name := by
  rw [Std.ExtTreeMap.contains_eq_isSome_getElem?,
    Std.ExtTreeMap.contains_eq_isSome_getElem?]
  rcases rel_cases (h.definitions name) with ⟨hs, ht⟩ | ⟨_, _, hs, ht, _⟩
  · rw [hs, ht]
  · rw [hs, ht]
    rfl

theorem Expanded.variableOf (h : Expanded x d s t) (name : String) :
    variableOf t name = variableOf s name := by
  unfold Session.variableOf
  rw [h.contains]

/-- The variable that is written out stands for itself. -/
theorem Expanded.variableOf_self (h : Expanded x d s t) :
    Session.variableOf s x = x := by
  have hcontains : s.definitions.contains x = true := by
    rw [Std.ExtTreeMap.contains_eq_isSome_getElem?, h.defined]
    rfl
  rw [Session.variableOf, if_pos hcontains]

theorem Expanded.entered? (h : Expanded x d w.strategy t) (name : String) :
    Option.Rel (Expands x d) (w.entered? name)
      ((w.scripted t).entered? name) := by
  unfold World.entered?
  show Option.Rel _ _ (if w.isFixed name ||
    w.isFixed (Session.variableOf t name) then none
    else t.definitions[Session.variableOf t name]?)
  rw [h.variableOf]
  split
  · exact .none
  · exact h.definitions _

/-! ## The expanded script reads what the script reads -/

theorem Expanded.part_self (h : Expanded x d w.strategy t)
    (hpart : Part (w.scripted t).entered? true e f') :
    ∃ f, Part w.entered? true e f ∧ Expands x d f f' := by
  cases hpart with
  | @definition _ _ name hname hentered =>
      have hrel := h.entered? name
      rw [hentered] at hrel
      cases hentered' : w.entered? name with
      | none =>
          rw [hentered'] at hrel
          cases hrel
      | some f =>
          rw [hentered'] at hrel
          cases hrel with
          | some hf => exact ⟨f, .definition hname hentered', hf⟩
  | offset => exact ⟨_, .offset, .refl x d _⟩
  | argument _ ha => exact ⟨_, .argument (Or.inl rfl) ha, .refl x d _⟩
  | left => exact ⟨_, .left, .refl x d _⟩
  | right => exact ⟨_, .right, .refl x d _⟩
  | operand => exact ⟨_, .operand, .refl x d _⟩
  | condition => exact ⟨_, .condition, .refl x d _⟩
  | whenTrue => exact ⟨_, .whenTrue, .refl x d _⟩
  | whenFalse => exact ⟨_, .whenFalse, .refl x d _⟩

theorem Expanded.reads_variable (h : Expanded x d w.strategy t)
    (hx : w.isFixed x = false) : Reads w true (.ref x) d :=
  .single (.definition rfl (entered?_named hx h.defined))

/-- A part of an expanded expression is the expansion of something that the
expression reads. -/
theorem Expanded.part (h : Expanded x d w.strategy t)
    (hx : w.isFixed x = false) (he : Expands x d e e')
    (hpart : Part (w.scripted t).entered? true e' f') :
    ∃ f, Reads w true e f ∧ Expands x d f f' := by
  cases he with
  | literal | ref =>
      obtain ⟨f, hf, hexpands⟩ := h.part_self hpart
      exact ⟨f, .single hf, hexpands⟩
  | expanded =>
      -- The definition was read through the name before.
      obtain ⟨f, hf, hexpands⟩ := h.part_self hpart
      exact ⟨f, (h.reads_variable hx).tail hf, hexpands⟩
  | call id name hargs =>
      cases hpart with
      | definition hname _ => cases hname
      | argument _ ha =>
          obtain ⟨a, hmem, hexpands⟩ := hargs.exists_expands ha
          exact ⟨a.value, .single (.argument (Or.inl rfl) hmem), hexpands⟩
  | binary op ha hb =>
      cases hpart with
      | definition hname _ => cases hname
      | left => exact ⟨_, .single .left, ha⟩
      | right => exact ⟨_, .single .right, hb⟩
  | unary op ha =>
      cases hpart with
      | definition hname _ => cases hname
      | operand => exact ⟨_, .single .operand, ha⟩
  | ternary hc ha hb =>
      cases hpart with
      | definition hname _ => cases hname
      | condition => exact ⟨_, .single .condition, hc⟩
      | whenTrue => exact ⟨_, .single .whenTrue, ha⟩
      | whenFalse => exact ⟨_, .single .whenFalse, hb⟩
  | indexed name ho =>
      cases hpart with
      | @definition _ _ other hname hentered =>
          cases hname
          obtain ⟨f, hf, hexpands⟩ := h.part_self
            (e := .ref name) (.definition rfl hentered)
          cases hf with
          | definition hname hentered' =>
              cases hname
              exact ⟨f, .single (.definition rfl hentered'), hexpands⟩
      | offset => exact ⟨_, .single .offset, ho⟩

theorem Expanded.reads (h : Expanded x d w.strategy t)
    (hx : w.isFixed x = false) (he : Expands x d e e')
    (hreads : Reads (w.scripted t) true e' f') :
    ∃ f, Reads w true e f ∧ Expands x d f f' := by
  induction hreads with
  | refl => exact ⟨e, .refl, he⟩
  | tail _ hpart ih =>
      obtain ⟨f, hf, hexpands⟩ := ih
      obtain ⟨g, hg, hexpands'⟩ := h.part hx hexpands hpart
      exact ⟨g, hf.trans hg, hexpands'⟩

/-- A name that the expanded expression reads was read before. -/
theorem Expanded.nameRead (h : Expanded x d w.strategy t)
    (hx : w.isFixed x = false) (he : Expands x d e e')
    (hname : nameRead? e' = some name) :
    ∃ f, Reads w true e f ∧ nameRead? f = some name := by
  cases he with
  | ref => exact ⟨_, .refl, hname⟩
  | expanded => exact ⟨d, h.reads_variable hx, hname⟩
  | indexed => exact ⟨_, .refl, hname⟩
  | _ => cases hname

/-- **Writing variables out makes no circle.** -/
theorem Expanded.acyclic (h : Expanded x d w.strategy t)
    (hx : w.isFixed x = false) (hw : w.Acyclic) :
    (w.scripted t).Acyclic := by
  intro key value' hvalue' e' hreads name hname f' hentered
  have hrel := h.definitions key
  rw [show t.definitions[key]? = some value' from hvalue'] at hrel
  rcases rel_cases hrel with ⟨_, hnone⟩ | ⟨value, _, hvalue, hsome, hexpands⟩
  · cases hnone
  · cases hsome
    obtain ⟨e, he, hexpands'⟩ := h.reads hx hexpands hreads
    obtain ⟨f, hf, hname'⟩ := h.nameRead hx hexpands' hname
    rcases rel_cases (h.entered? name) with
      ⟨_, hnone⟩ | ⟨g, _, hg, _, _⟩
    · rw [hentered] at hnone
      cases hnone
    · have hne := hw key value hvalue f (he.trans hf) name hname' g hg
      rw [← h.variableOf name] at hne
      exact hne

end

/-! ## Dependence on the view -/

/-- An expression does not itself depend on the view, and the names in it stand
for variables of a set. -/
def Calm (s : Strategy) (K : String → Prop) (e : Expr) : Prop :=
  readsView e = false ∧ ∀ name ∈ namesInView e, K (variableOf s name)

/-- Arguments that do not themselves depend on the view. -/
def CalmArguments (s : Strategy) (K : String → Prop)
    (args : List (Argument Expr)) : Prop :=
  argumentsReadView args = false ∧
    ∀ name ∈ argumentNamesInView args, K (variableOf s name)

section

variable {s t : Strategy} {K : String → Prop} {x : String} {d e e' : Expr}

theorem calm_call {id : Nat} {name : String} {args : List (Argument Expr)}
    (hname : isIndicatorName name = false) :
    Calm s K (.call id name args) ↔ CalmArguments s K args := by
  unfold Calm CalmArguments
  rw [readsView, namesInView, hname]
  exact Iff.rfl

theorem calm_binary {op : BinaryOp} {a b : Expr} :
    Calm s K (.binary op a b) ↔ Calm s K a ∧ Calm s K b := by
  unfold Calm
  rw [readsView, namesInView, Bool.or_eq_false_iff, List.forall_mem_append]
  exact and_and_and_comm

theorem calm_unary {op : UnaryOp} {a : Expr} :
    Calm s K (.unary op a) ↔ Calm s K a := by
  unfold Calm
  rw [readsView, namesInView]

theorem calmArguments_cons {name : Option String} {e : Expr}
    {rest : List (Argument Expr)} :
    CalmArguments s K (⟨name, e⟩ :: rest) ↔
      Calm s K e ∧ CalmArguments s K rest := by
  unfold CalmArguments Calm
  rw [argumentsReadView, argumentNamesInView, Bool.or_eq_false_iff,
    List.forall_mem_append]
  exact and_and_and_comm

/-- A search that can only reach definitions that do not themselves depend on
the view finds nothing. -/
theorem reachesView_eq_false (available : Definitions) (names : List String)
    (ha : available.Sublist s.definitions.toList)
    (hK : ∀ (key : String) e, s.definitions[key]? = some e → K key →
      Calm s K e)
    (hnames : ∀ name ∈ names, K (variableOf s name)) :
    reachesView s available names = false := by
  fun_induction reachesView s available names with
  | case1 _ => rfl
  | case2 available name rest _ ih =>
      exact ih ha fun other hother => hnames other (List.mem_cons_of_mem _ hother)
  | case3 available name rest value left hr ih =>
      obtain ⟨hmem, hsub⟩ := release?_sublist hr
      obtain ⟨hvalue, hvalues⟩ := hK _ value
        (Std.ExtTreeMap.mem_toList_iff_getElem?_eq_some.mp (ha.subset hmem))
        (hnames name List.mem_cons_self)
      rw [hvalue, Bool.false_or]
      refine ih (hsub.trans ha) (List.forall_mem_append.mpr ⟨hvalues, ?_⟩)
      exact fun other hother => hnames other (List.mem_cons_of_mem _ hother)

mutual

/-- An expansion does not depend on the view if the expression and what is
written out do not. -/
theorem Expands.calm {e e' : Expr} (hx : K (variableOf s x) → Calm s K d)
    (h : Expands x d e e') (he : Calm s K e) : Calm s K e' := by
  match h with
  | .literal _ => exact he
  | .ref _ => exact he
  | .expanded => exact hx (he.2 x List.mem_cons_self)
  | .call id name hargs =>
      cases hname : isIndicatorName name with
      | true =>
          unfold Calm
          rw [readsView, namesInView, hname]
          exact ⟨rfl, fun _ hmem => absurd hmem List.not_mem_nil⟩
      | false =>
          rw [calm_call hname] at he ⊢
          exact hargs.calm hx he
  | .binary op ha hb =>
      rw [calm_binary] at he ⊢
      exact ⟨ha.calm hx he.1, hb.calm hx he.2⟩
  | .unary op ha =>
      rw [calm_unary] at he ⊢
      exact ha.calm hx he
  | .ternary hc ha hb => cases he.1
  | .indexed name ho =>
      cases ho with
      | literal => exact he
      | _ => cases he.1

theorem ExpandsArguments.calm {args args' : List (Argument Expr)}
    (hx : K (variableOf s x) → Calm s K d)
    (h : ExpandsArguments x d args args') (hargs : CalmArguments s K args) :
    CalmArguments s K args' := by
  match h with
  | .nil => exact hargs
  | .cons name he hrest =>
      rw [calmArguments_cons] at hargs ⊢
      exact ⟨he.calm hx hargs.1, hrest.calm hx hargs.2⟩

end

/-- **Writing variables out makes nothing depend on the view.** -/
theorem Expanded.dependsOnView (h : Expanded x d s t) (he : Expands x d e e')
    (hview : dependsOnView s e = false) : dependsOnView t e' = false := by
  obtain ⟨hreads, hreaches⟩ := Bool.or_eq_false_iff.mp hview
  obtain ⟨left, hleft⟩ := exists_unreached s s.definitions.toList _
    (nodup_names s) hreaches
  -- The variables that the search entered, and names without a definition.
  let K : String → Prop := fun name => name ∉ left.map Prod.fst
  have hs : ∀ (key : String) e, s.definitions[key]? = some e → K key →
      Calm s K e := by
    intro key e hkey hK
    exact hleft.entered key e
      (Std.ExtTreeMap.mem_toList_iff_getElem?_eq_some.mpr hkey) hK
  have hx : K (Session.variableOf s x) → Calm s K d := by
    rw [h.variableOf_self]
    exact hs x d h.defined
  have hsame : ∀ {e}, Calm s K e → Calm t K e := fun hcalm =>
    ⟨hcalm.1, fun name hname => by
      rw [h.variableOf]
      exact hcalm.2 name hname⟩
  have ht : ∀ (key : String) e, t.definitions[key]? = some e → K key →
      Calm t K e := by
    intro key e' hkey hK
    rcases rel_cases (h.definitions key) with ⟨_, hnone⟩ | ⟨e, _, he, hsome, hee⟩
    · rw [hkey] at hnone
      cases hnone
    · rw [hkey] at hsome
      cases hsome
      exact hsame (hee.calm hx (hs key e he hK))
  obtain ⟨hreads', hnames'⟩ := hsame (he.calm hx ⟨hreads, hleft.start⟩)
  unfold Session.dependsOnView
  rw [hreads', Bool.false_or]
  exact reachesView_eq_false _ _ (List.Sublist.refl _) ht hnames'

end

end Barscript.Session

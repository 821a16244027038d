import Barscript.Proofs.Script.Identities
import Barscript.Proofs.Script.Rules

/-!
# Where expressions come from

Every expression of a script is put together from tokens of the script: each
name, text and number in it is the value of a token (`Built`). So what holds
of all tokens of a script holds of what its strategy states
(`built_of_parse`).
-/

namespace Barscript.Script

/-! ## Expressions from tokens -/

/-- The name of an argument, if there is one, is a word among the tokens. -/
def NamedFrom (T : Token → Prop) (name : Option String) : Prop :=
  ∀ word, name = some word → ∃ token, T token ∧
    (token.kind = .identifier ∨ token.kind = .keyword) ∧ token.value = word

/-- The expression is put together from tokens of `T`. -/
inductive Built (T : Token → Prop) : Expr → Prop where
  | number {token : Token} {x : Float} (ht : T token)
      (hkind : token.kind = .number)
      (hx : Decimal.readText? token.value = some x) :
      Built T (.literal (.number x))
  | text {token : Token} (ht : T token) (hkind : token.kind = .string) :
      Built T (.literal (.text token.value))
  | bool {b : Bool} : Built T (.literal (.bool b))
  | name {token : Token} (ht : T token) (hname : token.isName = true) :
      Built T (.ref token.value)
  | call {token : Token} {id : Nat} {args : List (Argument Expr)}
      (ht : T token) (hname : token.isName = true)
      (hnames : ∀ a ∈ args, NamedFrom T a.name)
      (hvalues : ∀ a ∈ args, Built T a.value) :
      Built T (.call id token.value args)
  | binary {op : BinaryOp} {left right : Expr} (hleft : Built T left)
      (hright : Built T right) : Built T (.binary op left right)
  | unary {op : UnaryOp} {operand : Expr} (h : Built T operand) :
      Built T (.unary op operand)
  | ternary {condition whenTrue whenFalse : Expr}
      (hcondition : Built T condition) (htrue : Built T whenTrue)
      (hfalse : Built T whenFalse) :
      Built T (.ternary condition whenTrue whenFalse)
  | indexed {token : Token} {offset : Expr} (ht : T token)
      (hname : token.isIndexable = true) (h : Built T offset) :
      Built T (.indexed token.value offset)

/-- Arguments that are put together from tokens of `T`. -/
structure BuiltArguments (T : Token → Prop) (args : List (Argument Expr)) :
    Prop where
  names : ∀ a ∈ args, NamedFrom T a.name
  values : ∀ a ∈ args, Built T a.value

section

variable {T : Token → Prop}

theorem BuiltArguments.nil : BuiltArguments T [] :=
  ⟨fun _ ha => absurd ha List.not_mem_nil,
    fun _ ha => absurd ha List.not_mem_nil⟩

theorem BuiltArguments.cons {a : Argument Expr} {args : List (Argument Expr)}
    (hname : NamedFrom T a.name) (hvalue : Built T a.value)
    (h : BuiltArguments T args) : BuiltArguments T (a :: args) :=
  ⟨List.forall_mem_cons.mpr ⟨hname, h.names⟩,
    List.forall_mem_cons.mpr ⟨hvalue, h.values⟩⟩

/-- An indicator call in some arguments stands in one of them. -/
theorem mem_argumentIndicators {args : List (Argument Expr)} {call : Expr}
    (h : call ∈ argumentIndicators args) :
    ∃ a ∈ args, call ∈ a.value.indicatorCalls := by
  induction args with
  | nil => cases h
  | cons a rest ih =>
      rw [argumentIndicators] at h
      rcases List.mem_append.mp h with h | h
      · exact ⟨a, List.mem_cons_self .., h⟩
      · obtain ⟨b, hb, hcall⟩ := ih h
        exact ⟨b, List.mem_cons_of_mem _ hb, hcall⟩

/-- The indicator calls in an expression come from the same tokens. -/
theorem Built.indicatorCalls {e : Expr} (h : Built T e) :
    ∀ call ∈ e.indicatorCalls, Built T call := by
  intro call hcall
  induction h with
  | number | text | bool | name => cases hcall
  | call ht hname hnames hvalues ih =>
      rw [Expr.indicatorCalls] at hcall
      rcases List.mem_append.mp hcall with hcall | hcall
      · obtain ⟨a, ha, hmem⟩ := mem_argumentIndicators hcall
        exact ih a ha hmem
      · split at hcall
        · rw [List.mem_singleton.mp hcall]
          exact .call ht hname hnames hvalues
        · cases hcall
  | binary _ _ ihleft ihright =>
      rcases List.mem_append.mp hcall with hcall | hcall
      · exact ihleft hcall
      · exact ihright hcall
  | unary _ ih => exact ih hcall
  | ternary _ _ _ ihcondition ihtrue ihfalse =>
      rcases List.mem_append.mp hcall with hcall | hcall
      · rcases List.mem_append.mp hcall with hcall | hcall
        · exact ihcondition hcall
        · exact ihtrue hcall
      · exact ihfalse hcall
  | indexed _ _ _ ih => exact ih hcall

theorem BuiltArguments.indicatorCalls {args : List (Argument Expr)}
    (h : BuiltArguments T args) :
    ∀ call ∈ argumentIndicators args, Built T call := by
  intro call hcall
  obtain ⟨a, ha, hmem⟩ := mem_argumentIndicators hcall
  exact (h.values a ha).indicatorCalls call hmem

/-! ## Tokens ahead -/

/-- All tokens that are left are tokens of `T`. -/
def Cursor.Within (c : Cursor) (T : Token → Prop) : Prop :=
  ∀ token ∈ c.pending, T token

variable {c rest : Cursor} {token : Token} {pending : List Token}

theorem Cursor.Within.subset (h : c.Within T) (hsub : pending ⊆ c.pending) :
    (c.leaving pending).Within T :=
  fun t ht => h t (hsub ht)

theorem Cursor.Within.head (h : c.Within T) (hc : c.pending = token :: pending) :
    T token := by
  apply h
  rw [hc]
  exact List.mem_cons_self ..

theorem Cursor.Within.tail (h : c.Within T) (hc : c.pending = token :: pending) :
    (c.leaving pending).Within T := by
  apply h.subset
  rw [hc]
  exact List.subset_cons_self ..

theorem Cursor.Within.skipNewlines (h : c.Within T) : c.skipNewlines.Within T :=
  h.subset (List.dropWhile_suffix _).subset

theorem Cursor.Within.eaten {kind : TokenKind} (h : c.Within T)
    (heaten : Eaten kind c rest) : rest.Within T := by
  obtain ⟨token, _, hpending, hsame⟩ := heaten
  rw [hsame]
  exact h.tail hpending

theorem namedFrom_splitName (h : c.Within T) :
    NamedFrom T (splitName c.pending).1 := by
  intro word hword
  by_cases hname : IsNamed c.pending
  · obtain ⟨first, sign, rest, hpending⟩ := hname.tokens
    rw [hpending] at hname hword
    rw [splitName_named hname] at hword
    cases hword
    exact ⟨first, h.head hpending, hname.1, rfl⟩
  · rw [splitName_plain hname] at hword
    cases hword

/-- What is expected is one of the tokens. -/
theorem within_expect (h : c.Within T) (kind : TokenKind) (what : String) :
    (c.expect kind what).Meets
      (fun token rest => (T token ∧ token.kind = kind) ∧ rest.Within T)
      fun _ => True := by
  have hexpect := meets_expect c kind what
  unfold Cursor.expect at hexpect ⊢
  split at hexpect
  · rename_i r hr
    refine ⟨?_, h.eaten hexpect⟩
    obtain ⟨token, hkind, hpending, _⟩ := hexpect
    unfold Cursor.peek
    rw [hpending]
    exact ⟨h.head hpending, hkind⟩
  · trivial

end

/-! ## Reading -/

/-- What was read is put together from tokens of `T`, and so will be what is
read behind it. -/
structure ReadFrom (T : Token → Prop) (e : Expr) (rest : Cursor) : Prop where
  built : Built T e
  rest : rest.Within T

section

variable {T : Token → Prop}

mutual

theorem built_expression (c : Cursor) (h : c.Within T) :
    (expression c).Meets (ReadFrom T) fun _ => True := by
  rw [expression]
  refine (built_chain .disjunction c h).bind ?_
  intro condition rest hrest hcondition
  split
  · exact hcondition
  · rename_i rest₁ hrest₁ heat
    refine (built_expression rest₁
      (hcondition.rest.eaten (eaten_of_eat? heat))).bind ?_
    intro whenTrue rest₂ hrest₂ hwhenTrue
    refine (within_expect hwhenTrue.rest .colon "':'").bind ?_
    rintro _ rest₃ hrest₃ ⟨_, hcolon⟩
    refine (built_expression rest₃ hcolon).bind ?_
    intro whenFalse rest₄ _ hwhenFalse
    exact ⟨.ternary hcondition.built hwhenTrue.built hwhenFalse.built,
      hwhenFalse.rest⟩
termination_by 20 * c.size + 14
decreasing_by
  · simp only [Level.height]
    omega
  · omega
  · omega

theorem built_chain (level : Level) (c : Cursor) (h : c.Within T) :
    (chain level c).Meets (ReadFrom T) fun _ => True := by
  rw [chain]
  refine (built_operand level c h).bind ?_
  intro left rest hrest hleft
  exact (built_chainRest level left rest hleft).weaken _
termination_by 20 * c.size + 2 * level.height + 3

theorem built_operand (level : Level) (c : Cursor) (h : c.Within T) :
    (operand level c).Meets (ReadFrom T) fun _ => True := by
  rw [operand]
  split
  · rename_i next hnext
    exact built_chain next c h
  · exact built_unary c h
termination_by 20 * c.size + 2 * level.height + 2
decreasing_by
  · have hheight := Level.height_tighter? ‹_›
    omega
  · omega

theorem built_chainRest (level : Level) (left : Expr) (c : Cursor)
    (h : ReadFrom T left c) :
    (chainRest level left c).Meets (ReadFrom T) fun _ => True := by
  rw [chainRest]
  split
  · exact h
  · rename_i token pending hpending
    have hsize : (c.leaving pending).size < c.size :=
      Cursor.size_leaving_lt hpending
    split
    · exact h
    · rename_i op hop
      refine (built_operand level (c.leaving pending)
        (h.rest.tail hpending)).bind ?_
      intro right rest hrest hright
      exact (built_chainRest level (.binary op left right) rest
        ⟨.binary h.built hright.built, hright.rest⟩).weaken _
termination_by 20 * c.size + 1
decreasing_by
  · have hheight := level.height_le
    omega
  · omega

theorem built_unary (c : Cursor) (h : c.Within T) :
    (unary c).Meets (ReadFrom T) fun _ => True := by
  rw [unary]
  split
  · exact built_primary c h
  · rename_i token pending hpending
    have hsize : (c.leaving pending).size < c.size :=
      Cursor.size_leaving_lt hpending
    split
    · exact built_primary c h
    · apply Outcome.Meets.weaken
      refine (built_unary (c.leaving pending) (h.tail hpending)).map ?_
      intro inner rest hinner
      exact ⟨.unary hinner.built, hinner.rest⟩
termination_by 20 * c.size + 1

theorem built_primary (c : Cursor) (h : c.Within T) :
    (primary c).Meets (ReadFrom T) fun _ => True := by
  rw [primary]
  split
  · trivial
  · rename_i token pending hpending
    have hsize : (c.leaving pending).size < c.size :=
      Cursor.size_leaving_lt hpending
    have htoken := h.head hpending
    have hbehind := h.tail hpending
    split
    · rename_i hkind
      split
      · rename_i x hx
        exact ⟨.number htoken hkind hx, hbehind⟩
      · trivial
    · split
      · rename_i hkind
        exact ⟨.text htoken hkind, hbehind⟩
      · split
        · exact ⟨.bool, hbehind⟩
        · split
          · -- An expression in parentheses.
            have hskip := (c.leaving pending).size_skipNewlines
            refine (built_expression (c.leaving pending).skipNewlines
              hbehind.skipNewlines).bind ?_
            intro inner rest hrest hinner
            apply Outcome.Meets.weaken
            refine (within_expect hinner.rest.skipNewlines .rightParen
              "')'").map ?_
            rintro _ rest' ⟨_, hclose⟩
            exact ⟨hinner.built, hclose⟩
          · split
            · rename_i hname
              split
              · refine (built_callArguments (c.leaving pending) hbehind).bind ?_
                rintro args rest hrest ⟨hargs, hwithin⟩
                exact ⟨.call htoken hname hargs.names hargs.values, hwithin⟩
              · split
                · -- A name with an index.
                  rename_i hindex
                  have htail := Cursor.size_leaving_tail_lt hpending
                  have hoffset : (c.leaving pending.tail).Within T :=
                    hbehind.subset (List.tail_sublist pending).subset
                  refine (built_expression (c.leaving pending.tail)
                    hoffset).bind ?_
                  intro offset rest hrest hread
                  apply Outcome.Meets.weaken
                  refine (within_expect hread.rest .rightBracket "']'").map ?_
                  rintro _ rest' ⟨_, hclose⟩
                  exact ⟨.indexed htoken hindex.1 hread.built, hclose⟩
                · exact ⟨.name htoken hname, hbehind⟩
            · trivial
termination_by 20 * c.size + 0
decreasing_by
  · omega
  · omega
  · omega

theorem built_callArguments (c : Cursor) (h : c.Within T) :
    (callArguments c).Meets
      (fun args rest => BuiltArguments T args ∧ rest.Within T)
      fun _ => True := by
  rw [callArguments]
  refine (within_expect h .leftParen "'('").bind ?_
  rintro _ rest hrest ⟨_, hopen⟩
  exact (built_arguments true rest hopen).weaken _
termination_by 20 * c.size + 0

theorem built_arguments (first : Bool) (c : Cursor) (h : c.Within T) :
    (arguments first c).Meets
      (fun args rest => BuiltArguments T args ∧ rest.Within T)
      fun _ => True := by
  have hskip := c.size_skipNewlines
  have hbehind := h.skipNewlines
  rw [arguments]
  split
  · rename_i rest _ heat
    exact ⟨.nil, hbehind.eaten (eaten_of_eat? heat)⟩
  · split
    · exact (built_argument c.skipNewlines hbehind).weaken _
    · refine (within_expect hbehind .comma "',' or ')'").bind ?_
      rintro _ rest hrest ⟨_, hcomma⟩
      have hskip' := rest.size_skipNewlines
      split
      · rename_i rest' _ heat
        exact ⟨.nil, hcomma.skipNewlines.eaten (eaten_of_eat? heat)⟩
      · exact (built_argument rest.skipNewlines hcomma.skipNewlines).weaken _
termination_by 20 * c.size + if first then 17 else 15
decreasing_by
  · simp only [*]
    omega
  · split <;> omega

theorem built_argument (c : Cursor) (h : c.Within T) :
    (argument c).Meets
      (fun args rest => BuiltArguments T args ∧ rest.Within T)
      fun _ => True := by
  have hstart : (c.leaving (splitName c.pending).2).size ≤ c.size :=
    length_splitName c.pending
  have hvalue := h.subset (suffix_splitName c.pending).subset
  have hread := built_expression (c.leaving (splitName c.pending).2) hvalue
  rw [argument]
  split
  · rename_i value rest hrest heq
    rw [heq] at hread
    have hread : ReadFrom T value rest := hread
    apply Outcome.Meets.weaken
    refine (built_arguments false rest hread.rest).map ?_
    rintro args rest' ⟨hargs, hwithin⟩
    exact ⟨.cons (namedFrom_splitName h) hread.built hargs, hwithin⟩
  · split
    · split
      · trivial
      · -- The tokens behind a dropped argument are left.
        rename_i left hleft
        have hless : left.length ≤ c.size :=
          Nat.le_trans (length_skipArgument hleft) (length_splitName c.pending)
        apply Outcome.Meets.weaken
        exact built_arguments false ⟨left, c.finish, _⟩
          fun token ht => hvalue token ((suffix_skipArgument hleft).subset ht)
    · trivial
termination_by 20 * c.size + 16
decreasing_by
  · omega
  · simp only [if_false]
    omega
  · simp only [if_false, Cursor.size] at *
    omega

end

end

/-! ## Statements -/

/-- What the statement adds comes from tokens of `T`, and so will what is read
behind it. -/
structure AddsFrom (T : Token → Prop) (x : Statement) (rest : Cursor) :
    Prop where
  built : ∀ e, x.Adds e → Built T e
  /-- The name of an assignment is a word that is free to define. -/
  named : ∀ name e, x = .assignment name e → ∃ token, T token ∧
    token.kind = .identifier ∧ token.value = name
  rest : rest.Within T

section

variable {T : Token → Prop} {c rest : Cursor}

theorem addsFrom_assignment {token : Token} {e : Expr} (ht : T token)
    (hkind : token.kind = .identifier) (h : ReadFrom T e rest) :
    AddsFrom T (.assignment token.value e) rest := by
  refine ⟨?_, ?_, h.rest⟩
  · rintro f (hf | _)
    · exact h.built.indicatorCalls f hf
    · exact h.built
  · rintro name f heq
    cases heq
    exact ⟨token, ht, hkind, rfl⟩

theorem addsFrom_condition {e : Expr} (h : ReadFrom T e rest) :
    AddsFrom T (.condition e) rest := by
  refine ⟨?_, nofun, h.rest⟩
  rintro f (hf | _)
  · exact h.built.indicatorCalls f hf
  · exact h.built

theorem addsFrom_indicator {e : Expr} (h : ReadFrom T e rest) :
    AddsFrom T (.indicator e) rest := by
  refine ⟨?_, nofun, h.rest⟩
  rintro f (hf | _)
  exact h.built.indicatorCalls f hf

section

variable {args : List (Argument Expr)}

theorem addsFrom_declaration (h : BuiltArguments T args ∧ rest.Within T) :
    AddsFrom T (.declaration args) rest := by
  refine ⟨?_, nofun, h.2⟩
  rintro f (hf | _)
  exact h.1.indicatorCalls f hf

theorem addsFrom_input {function : String}
    (h : BuiltArguments T args ∧ rest.Within T) :
    AddsFrom T (.input function args) rest := by
  refine ⟨?_, nofun, h.2⟩
  rintro f (hf | _)
  exact h.1.indicatorCalls f hf

theorem addsFrom_order {function : String}
    (h : BuiltArguments T args ∧ rest.Within T) :
    AddsFrom T (.order function args) rest := by
  refine ⟨?_, nofun, h.2⟩
  rintro f (hf | _ | _ | ha)
  · exact h.1.indicatorCalls f hf
  · exact h.1.values _ ha

end

theorem addsFrom_declared (h : c.Within T) :
    (variableDeclaration.declared c).Meets (AddsFrom T) fun _ => True := by
  unfold variableDeclaration.declared
  refine (within_expect h .identifier "variable name").bind ?_
  rintro name rest hrest ⟨⟨htoken, hkind⟩, hname⟩
  split
  · rename_i rest' _ heat
    apply Outcome.Meets.weaken
    refine (built_expression rest' (hname.eaten (eaten_of_eat? heat))).map ?_
    exact fun _ _ => addsFrom_assignment htoken hkind
  · refine (within_expect hname .assign "'='").bind ?_
    rintro _ rest' hrest' ⟨_, hsign⟩
    apply Outcome.Meets.weaken
    refine (built_expression rest' hsign).map ?_
    exact fun _ _ => addsFrom_assignment htoken hkind

theorem addsFrom_statement {token : Token} {pending : List Token}
    (hc : c.pending = token :: pending) (h : c.Within T) :
    (statement token c pending hc).Meets (AddsFrom T) fun _ => True := by
  have hbehind := h.tail hc
  have htail : (c.leaving pending.tail).Within T :=
    hbehind.subset (List.tail_sublist pending).subset
  -- Statements without expressions add nothing.
  have hnone : ∀ x : Statement, (∀ e, ¬ x.Adds e) →
      AddsFrom T x (c.leaving pending) :=
    fun x hx => ⟨fun e he => absurd he (hx e),
      fun name e heq => absurd (heq ▸ .definition) (hx e), hbehind⟩
  have hpassed : ∀ e, ¬ (Statement.passedOver token).Adds e := by
    rintro e (he | _)
    cases he
  have hversion : ∀ e, ¬ (Statement.version token.value).Adds e := by
    rintro e (he | _)
    cases he
  unfold statement
  dsimp only
  split
  · exact hnone _ hversion
  · split_ifs
    · apply Outcome.Meets.weaken
      exact (built_callArguments _ hbehind).map fun _ _ => addsFrom_declaration
    · apply Outcome.Meets.weaken
      unfold variableDeclaration
      split
      · exact (addsFrom_declared htail).weaken _
      · exact addsFrom_declared hbehind
    · apply Outcome.Meets.weaken
      exact (built_expression _ hbehind).map fun _ _ => addsFrom_condition
    · exact hnone _ hpassed
  · split_ifs
    · apply Outcome.Meets.weaken
      exact (built_callArguments _ hbehind).map fun _ _ => addsFrom_input
    · apply Outcome.Meets.weaken
      exact (built_callArguments _ hbehind).map fun _ _ => addsFrom_order
    · exact (built_expression _ h).map fun _ _ => addsFrom_indicator
    · exact hnone _ hpassed
  · rename_i hkind
    split_ifs
    · apply Outcome.Meets.weaken
      refine (built_expression _ htail).map ?_
      exact fun _ _ => addsFrom_assignment (h.head hc) hkind
    · exact hnone _ hpassed
  · exact hnone _ hpassed

theorem addsFrom_statements (c : Cursor) (h : c.Within T)
    {all : List Statement} (hall : statements c = .ok all) :
    ∀ x ∈ all, ∃ rest, AddsFrom T x rest := by
  rcases statements_cases hall with ⟨_, rfl⟩ | hread
  · exact fun x hx => absurd hx List.not_mem_nil
  · obtain ⟨token, pending, hpending, value, rest, hrest, others, heq,
      hothers, rfl⟩ := hread
    have hvalue := addsFrom_statement hpending h
    rw [heq] at hvalue
    have hvalue : AddsFrom T value rest := hvalue
    rw [List.forall_mem_cons]
    exact ⟨⟨rest, hvalue⟩, addsFrom_statements rest hvalue.rest hothers⟩
termination_by c.size

end

section

variable {source : String} {s : Strategy} {T : Token → Prop} {e : Expr}

/-- **What a strategy states is put together from the tokens of its script.** -/
theorem built_of_parse (h : Strategy.parse source = .ok s)
    (hT : ∀ token ∈ (tokens source).dropLast, T token) (he : s.States e) :
    Built T e := by
  obtain ⟨all, hall, rfl⟩ := statements_of_parse h
  obtain ⟨x, hx, hadds⟩ := states_ofStatements he
  obtain ⟨rest, hfrom⟩ := addsFrom_statements (.ofSource source) hT hall x hx
  exact hfrom.built e hadds

/-- What a script defines it assigns. -/
theorem assignment_of_definitions {all : List Statement} {name : String}
    (h : (Strategy.ofStatements all).definitions[name]? = some e) :
    .assignment name e ∈ all := by
  have hfold : ∀ s : Strategy,
      (all.foldl Strategy.add s).definitions[name]? = some e →
      s.definitions[name]? = some e ∨ .assignment name e ∈ all := by
    clear h
    induction all with
    | nil => exact fun s h => Or.inl h
    | cons x rest ih =>
        intro s h
        rcases ih (s.add x) h with h | h
        · rcases definitions_add s x h with h | rfl
          · exact Or.inl h
          · exact Or.inr List.mem_cons_self
        · exact Or.inr (List.mem_cons_of_mem _ h)
  rcases hfold _ h with h | h
  · have hnone : (Strategy.empty.definitions)[name]? = none :=
      Std.ExtTreeMap.getElem?_empty
    rw [hnone] at h
    cases h
  · exact h

/-- **A variable has the name of a token that is free to define.** -/
theorem identifier_of_parse (h : Strategy.parse source = .ok s)
    (hT : ∀ token ∈ (tokens source).dropLast, T token) {name : String}
    (he : s.definitions[name]? = some e) :
    ∃ token, T token ∧ token.kind = .identifier ∧ token.value = name := by
  obtain ⟨all, hall, rfl⟩ := statements_of_parse h
  obtain ⟨rest, hfrom⟩ := addsFrom_statements (.ofSource source) hT hall _
    (assignment_of_definitions he)
  exact hfrom.named name e rfl

end

end Barscript.Script

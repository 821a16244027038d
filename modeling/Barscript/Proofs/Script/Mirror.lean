import Barscript.Proofs.Script.Extension

/-!
# Phrases in a script that goes on

One induction over the grammar: from a cursor at which the script ends and one
at which it goes on in another line, the same phrase is read, and the calls in
it have the same distances in number. Where the first script ends inside of
brackets nothing is claimed, for the second may close them.
-/

namespace Barscript.Script

variable {X : List Spelling} {k : Nat}

/-! ## Values -/

section

variable {low middle high : Nat}

/-- Two expressions that were read one behind the other. -/
theorem Shifted.binary {left left' right right' : Expr} (op : BinaryOp)
    (hleft : Shifted Expr.renumber k low middle left left')
    (hright : Shifted Expr.renumber k middle high right right')
    (hlow : low ≤ middle) (hhigh : middle ≤ high) :
    Shifted Expr.renumber k low high (.binary op left right)
      (.binary op left' right') := by
  intro f hf
  rw [hleft.mono (Nat.le_refl _) hhigh f hf,
    hright.mono hlow (Nat.le_refl _) f hf]
  rfl

theorem Shifted.argument {value value' : Expr} {name : Option String}
    {args args' : List (Argument Expr)}
    (hvalue : Shifted Expr.renumber k low middle value value')
    (hargs : Shifted renumberArguments k middle high args args')
    (hlow : low ≤ middle) (hhigh : middle ≤ high) :
    Shifted renumberArguments k low high (⟨name, value⟩ :: args)
      (⟨name, value'⟩ :: args') := by
  intro f hf
  rw [hvalue.mono (Nat.le_refl _) hhigh f hf,
    hargs.mono hlow (Nat.le_refl _) f hf]
  rfl

/-- A call gets the next number behind its arguments. -/
theorem Shifted.call {args args' : List (Argument Expr)} {high' : Nat}
    {name : String} (hargs : Shifted renumberArguments k low high args args')
    (hlow : low ≤ high) (hhigh : high' = high + k) :
    Shifted Expr.renumber k low (high + 1) (.call high name args)
      (.call high' name args') := by
  intro f hf
  rw [hargs.mono (Nat.le_refl _) (Nat.le_succ _) f hf, hhigh,
    ← hf high hlow (Nat.lt_succ_self _)]
  rfl

end

/-! ## Primary expressions

Those in which an expression stands are read the same if it is. -/

section

variable {c c' : Cursor} {token token' : Token} {pending pending' : List Token}

/-- A constant, or no expression. -/
theorem mirrors_constant (h : Extends X k c c')
    (hpending : c.pending = token :: pending)
    (hpending' : c'.pending = token' :: pending')
    (hkind : token'.kind = token.kind) (hvalue : token'.value = token.value)
    (hext : Extends X k (c.leaving pending) (c'.leaving pending'))
    (hname : token.isName ≠ true) (hgroup : token.kind ≠ .leftParen)
    (p : Prop) :
    (primary c).Mirrors X k p (Shifted Expr.renumber k c.nextId)
      (primary c') := by
  have hplain : ∀ value : Literal, ∀ hless hless',
      (Outcome.done (.literal value) (c.leaving pending) hless :
        Outcome Expr c.size).Mirrors X k p (Shifted Expr.renumber k c.nextId)
          (Outcome.done (.literal value) (c'.leaving pending') hless' :
            Outcome Expr c'.size) :=
    fun value _ _ => ⟨_, _, _, rfl, hext, fun _ _ => rfl⟩
  have hfault : ∀ complaint,
      (Outcome.failed (c.fault complaint) : Outcome Expr c.size).Mirrors X k p
        (Shifted Expr.renumber k c.nextId)
        (Outcome.failed (c'.fault complaint) : Outcome Expr c'.size) :=
    fun complaint _ => ⟨_, rfl, rfl, h.nextId⟩
  have hname' : token'.isName ≠ true := by
    unfold Token.isName at hname ⊢
    rwa [hkind, hvalue]
  rw [primary_cons hpending, primary_cons hpending', hkind, hvalue]
  by_cases hnumber : token.kind = .number
  · rw [if_pos hnumber, if_pos hnumber]
    cases Decimal.readText? token.value with
    | none => exact hfault _
    | some x => exact hplain _ _ _
  rw [if_neg hnumber, if_neg hnumber]
  by_cases hstring : token.kind = .string
  · rw [if_pos hstring, if_pos hstring]
    exact hplain _ _ _
  rw [if_neg hstring, if_neg hstring]
  by_cases hboolean : token.kind = .boolean
  · rw [if_pos hboolean, if_pos hboolean]
    exact hplain _ _ _
  rw [if_neg hboolean, if_neg hboolean, if_neg hgroup, if_neg hgroup,
    if_neg hname, if_neg hname']
  exact hfault _

theorem mirrors_group (hX : AtLineEnd X)
    (hpending : c.pending = token :: pending)
    (hpending' : c'.pending = token' :: pending')
    (hkind : token'.kind = token.kind) (hgroup : token.kind = .leftParen)
    (hinner : (c.leaving pending).skipNewlines.pending ≠ [] →
      (expression (c.leaving pending).skipNewlines).Mirrors X k
        (Closed 0 (c.leaving pending).skipNewlines)
        (Shifted Expr.renumber k c.nextId)
        (expression (c'.leaving pending').skipNewlines)) :
    (primary c).Mirrors X k (Closed 0 c) (Shifted Expr.renumber k c.nextId)
      (primary c') := by
  have hopen : ∀ depth, skipArgument depth c.pending =
      skipArgument (depth + 1) (c.leaving pending).skipNewlines.pending := by
    intro depth
    rw [hpending, skipArgument_opening (Or.inl hgroup)]
    exact (skipArgument_behindNewlines (depth + 1) pending).symm
  rw [primary_group hpending hgroup,
    primary_group hpending' (hkind.trans hgroup)]
  by_cases hne : (c.leaving pending).skipNewlines.pending = []
  · exact .vacuous (.bind (meets_empty hne _) fun _ _ _ => False.elim)
      fun hc => (hc.opened hopen).ne_nil hne
  · refine ((hinner hne).mono fun hc => (hc.opened hopen).inner).bind
      (phrase_expression _) ?_
    intro inner rest hrest inner' rest' hrest' hphrase hext' hvalue
    apply Outcome.Mirrors.weaken
    refine ((mirrors_expect_skip hX hext' (by decide) (by decide) "')'").mono
      fun hc => ((hc.opened hopen).inner).behind hphrase).map ?_
    rintro high _ _ rfl
    exact hvalue

/-- A call, a name with an index or a name. -/
theorem mirrors_name (hX : AtLineEnd X)
    (hpending : c.pending = token :: pending)
    (hpending' : c'.pending = token' :: pending')
    (hkind : token'.kind = token.kind) (hvalue : token'.value = token.value)
    (hext : Extends X k (c.leaving pending) (c'.leaving pending'))
    (hname : token.isName = true)
    (hargs : (callArguments (c.leaving pending)).Mirrors X k
      (Closed 0 (c.leaving pending)) (Shifted renumberArguments k c.nextId)
      (callArguments (c'.leaving pending')))
    (hoffset : firstKind pending = .leftBracket →
      (expression (c.leaving pending.tail)).Mirrors X k
        (Closed 0 (c.leaving pending.tail))
        (Shifted Expr.renumber k c.nextId)
        (expression (c'.leaving pending'.tail))) :
    (primary c).Mirrors X k (Closed 0 c) (Shifted Expr.renumber k c.nextId)
      (primary c') := by
  have hname' : token'.isName = true := by
    unfold Token.isName at hname ⊢
    rwa [hkind, hvalue]
  have hindexable : token'.isIndexable = token.isIndexable := by
    unfold Token.isIndexable
    rw [hkind]
  have hopen : firstKind pending' = .leftParen ↔
      firstKind pending = .leftParen :=
    iff_of_eq (hext.seen hX (· = .leftParen) (by simp))
  have hbracket : firstKind pending' = .leftBracket ↔
      firstKind pending = .leftBracket :=
    iff_of_eq (hext.seen hX (· = .leftBracket) (by simp))
  have htoken := phrase_token hpending (isMark_of_isName hname)
  rw [primary_name hpending hname, primary_name hpending' hname', hvalue,
    hindexable]
  by_cases hcall : firstKind pending = .leftParen
  · rw [if_pos hcall, if_pos (hopen.mpr hcall)]
    refine (hargs.mono (Closed.behind htoken)).bind (phrase_callArguments _) ?_
    intro args rest hrest args' rest' hrest' hphrase hext' hlist
    refine ⟨_, _, _, rfl, ⟨hext'.ahead, ?_⟩,
      hlist.call hphrase.numbered.le hext'.nextId⟩
    show rest'.nextId + 1 = rest.nextId + 1 + k
    rw [hext'.nextId]
    omega
  rw [if_neg hcall, if_neg fun h => hcall (hopen.mp h)]
  by_cases hindex : token.isIndexable ∧ firstKind pending = .leftBracket
  · rw [if_pos hindex, if_pos ⟨hindex.1, hbracket.mpr hindex.2⟩]
    have hinner : ∀ depth, skipArgument depth c.pending =
        skipArgument (depth + 1) pending.tail := by
      intro depth
      obtain ⟨bracket, hopens, hrest⟩ :=
        pending_of_firstKind hindex.2 (by decide)
      rw [htoken.ends depth]
      show skipArgument depth pending = _
      rw [hrest]
      exact skipArgument_opening (Or.inr hopens) depth
    refine ((hoffset hindex.2).mono fun hc => (hc.opened hinner).inner).bind
      (phrase_expression _) ?_
    intro offset rest hrest offset' rest' hrest' hphrase hext' hvalues
    apply Outcome.Mirrors.weaken
    refine (mirrors_expect hX hext' (by decide) (by decide) "']'" _).map ?_
    rintro high _ _ ⟨rfl, _⟩ f hf
    rw [hvalues f hf]
    rfl
  · rw [if_neg hindex, if_neg fun h => hindex ⟨h.1, hbracket.mp h.2⟩]
    exact ⟨_, _, _, rfl, hext, fun _ _ => rfl⟩

end

/-! ## The induction -/

mutual

/-- **A phrase is read the same in a script that goes on.** -/
theorem mirrors_expression (hX : AtLineEnd X) (c c' : Cursor)
    (h : Extends X k c c') :
    (expression c).Mirrors X k (Closed 0 c)
      (Shifted Expr.renumber k c.nextId) (expression c') := by
  rw [expression, expression]
  refine (mirrors_chain hX .disjunction c c' h).bind
    (phrase_chain .disjunction c) ?_
  intro condition rest hrest condition' rest' hrest' hphrase hext hcondition
  cases heat : rest.eat? .question with
  | none =>
      rw [hext.uneaten hX (by decide) (by decide) heat]
      exact ⟨_, _, _, rfl, hext, hcondition⟩
  | some behind =>
      obtain ⟨behind', heat', hext₁⟩ := hext.eaten heat
      obtain ⟨rest₁, hrest₁⟩ := behind
      obtain ⟨rest₁', hrest₁'⟩ := behind'
      have hquestion : Phrase rest [] rest₁ :=
        (eaten_of_eat? heat).phrase rfl
      rw [heat']
      dsimp only
      have htest := hphrase.trans hquestion
      refine ((mirrors_expression hX rest₁ rest₁' hext₁).mono
        (Closed.behind htest)).bind (phrase_expression rest₁) ?_
      intro whenTrue rest₂ hrest₂ whenTrue' rest₂' hrest₂' htrue hext₂
        hwhenTrue
      refine (mirrors_expect hX hext₂ (by decide) (by decide) "':'" _).bind
        (meets_expect rest₂ .colon "':'") ?_
      intro _ rest₃ hrest₃ _ rest₃' hrest₃' hcolon hext₃ hcount
      have hbehind := (htest.trans htrue).trans (hcolon.phrase rfl)
      refine ((mirrors_expression hX rest₃ rest₃' hext₃).mono
        (Closed.behind hbehind)).bind (phrase_expression rest₃) ?_
      intro whenFalse rest₄ hrest₄ whenFalse' rest₄' hrest₄' hfalse hext₄
        hwhenFalse
      refine ⟨_, _, _, rfl, hext₄, ?_⟩
      -- The identities of the three parts follow each other.
      have h₁ := hphrase.numbered.le
      have h₂ := hquestion.numbered.le
      have h₃ := htrue.numbered.le
      have h₄ := hfalse.numbered.le
      have h₅ := hcount.1
      intro f hf
      rw [hcondition f fun i hi hi' => hf i hi (by omega),
        hwhenTrue f fun i hi hi' => hf i (by omega) (by omega),
        hwhenFalse f fun i hi hi' => hf i (by omega) hi']
      rfl
termination_by 20 * c.size + 14
decreasing_by
  · simp only [Level.height]
    omega
  · omega
  · omega

theorem mirrors_chain (hX : AtLineEnd X) (level : Level) (c c' : Cursor)
    (h : Extends X k c c') :
    (chain level c).Mirrors X k (Closed 0 c)
      (Shifted Expr.renumber k c.nextId) (chain level c') := by
  rw [chain, chain]
  refine (mirrors_operand hX level c c' h).bind (phrase_operand level c) ?_
  intro left rest hrest left' rest' hrest' hphrase hext hleft
  exact ((mirrors_chainRest hX level left left' rest rest' hext
    hphrase.numbered.le hleft).mono (Closed.behind hphrase)).weaken
termination_by 20 * c.size + 2 * level.height + 3

theorem mirrors_operand (hX : AtLineEnd X) (level : Level) (c c' : Cursor)
    (h : Extends X k c c') :
    (operand level c).Mirrors X k (Closed 0 c)
      (Shifted Expr.renumber k c.nextId) (operand level c') := by
  rw [operand, operand]
  cases hnext : level.tighter? with
  | none => exact mirrors_unary hX c c' h
  | some next => exact mirrors_chain hX next c c' h
termination_by 20 * c.size + 2 * level.height + 2
decreasing_by
  · omega
  · have hheight := Level.height_tighter? hnext
    omega

theorem mirrors_chainRest (hX : AtLineEnd X) (level : Level)
    (left left' : Expr) (c c' : Cursor) (h : Extends X k c c') {low : Nat}
    (hlow : low ≤ c.nextId)
    (hleft : Shifted Expr.renumber k low c.nextId left left') :
    (chainRest level left c).Mirrors X k (Closed 0 c)
      (Shifted Expr.renumber k low) (chainRest level left' c') := by
  have hseen := h.seen hX level.operator? (by cases level <;> rfl)
  cases hop : level.operator? (firstKind c.pending) with
  | none =>
      rw [chainRest_plain hop, chainRest_plain (hseen.trans hop)]
      exact ⟨_, _, _, rfl, h, hleft⟩
  | some op =>
      obtain ⟨token, pending, hpending⟩ := cons_of_firstKind fun hend => by
        rw [hend] at hop
        cases level <;> cases hop
      obtain ⟨token', pending', hpending', hkind, _, hext⟩ := h.cons hpending
      rw [hpending] at hop
      have hop' : level.operator? token'.kind = some op := by
        rw [hkind]
        exact hop
      have hsize := Cursor.size_leaving_lt hpending
      have hoperator := phrase_token hpending (isMark_of_operator? hop)
      rw [chainRest_operator hpending hop, chainRest_operator hpending' hop']
      refine ((mirrors_operand hX level _ _ hext).mono
        (Closed.behind hoperator)).bind (phrase_operand level _) ?_
      intro right rest hrest right' rest' hrest' hphrase hext' hright
      refine ((mirrors_chainRest hX level _ _ rest rest' hext'
        (Nat.le_trans hlow hphrase.numbered.le) ?_).mono
          (Closed.behind (hoperator.trans hphrase))).weaken
      exact hleft.binary op hright hlow hphrase.numbered.le
termination_by 20 * c.size + 1
decreasing_by
  · have hheight := level.height_le
    omega
  · omega

theorem mirrors_unary (hX : AtLineEnd X) (c c' : Cursor)
    (h : Extends X k c c') :
    (unary c).Mirrors X k (Closed 0 c)
      (Shifted Expr.renumber k c.nextId) (unary c') := by
  have hseen := h.seen hX unaryOperator? rfl
  cases hop : unaryOperator? (firstKind c.pending) with
  | none =>
      rw [unary_plain hop, unary_plain (hseen.trans hop)]
      exact mirrors_primary hX c c' h
  | some op =>
      obtain ⟨token, pending, hpending⟩ := cons_of_firstKind fun hend => by
        rw [hend] at hop
        cases hop
      obtain ⟨token', pending', hpending', hkind, _, hext⟩ := h.cons hpending
      rw [hpending] at hop
      have hop' : unaryOperator? token'.kind = some op := by
        rw [hkind]
        exact hop
      have hsize := Cursor.size_leaving_lt hpending
      have hoperator := phrase_token hpending (isMark_of_unaryOperator? hop)
      rw [unary_operator hpending hop, unary_operator hpending' hop']
      apply Outcome.Mirrors.weaken
      refine ((mirrors_unary hX _ _ hext).mono
        (Closed.behind hoperator)).map ?_
      intro high inner inner' hinner f hf
      rw [hinner f hf]
      rfl
termination_by 20 * c.size + 1

theorem mirrors_primary (hX : AtLineEnd X) (c c' : Cursor)
    (h : Extends X k c c') :
    (primary c).Mirrors X k (Closed 0 c)
      (Shifted Expr.renumber k c.nextId) (primary c') := by
  cases hpending : c.pending with
  | nil => exact .vacuous (meets_empty hpending _) fun hc => hc.ne_nil hpending
  | cons token pending =>
      obtain ⟨token', pending', hpending', hkind, hvalue, hext⟩ :=
        h.cons hpending
      have hsize := Cursor.size_leaving_lt hpending
      by_cases hname : token.isName = true
      · refine mirrors_name hX hpending hpending' hkind hvalue hext hname
          (mirrors_callArguments hX _ _ hext) fun hbracket => ?_
        have htail := Cursor.size_leaving_tail_lt hpending
        have hne : firstKind pending ≠ .endOfInput := by
          rw [hbracket]
          decide
        exact mirrors_expression hX (c.leaving pending.tail)
          (c'.leaving pending'.tail) (hext.tail hne)
      by_cases hgroup : token.kind = .leftParen
      · have hskip := (c.leaving pending).size_skipNewlines
        exact mirrors_group hX hpending hpending' hkind hgroup fun hne =>
          mirrors_expression hX _ _ (hext.skipNewlines hne)
      exact mirrors_constant h hpending hpending' hkind hvalue hext hname
        hgroup _
termination_by 20 * c.size + 0

theorem mirrors_callArguments (hX : AtLineEnd X) (c c' : Cursor)
    (h : Extends X k c c') :
    (callArguments c).Mirrors X k (Closed 0 c)
      (Shifted renumberArguments k c.nextId) (callArguments c') := by
  rw [callArguments, callArguments]
  refine (mirrors_expect hX h (by decide) (by decide) "'('" _).bind
    (meets_expect c .leftParen "'('") ?_
  intro _ rest hrest _ rest' hrest' hopen hext _
  have hid := hopen.nextId
  have hinner : ∀ depth, skipArgument depth c.pending =
      skipArgument (depth + 1) rest.pending := by
    obtain ⟨token, hkind, hpending, _⟩ := hopen
    intro depth
    rw [hpending]
    exact skipArgument_opening (Or.inl hkind) depth
  have hargs := mirrors_arguments hX true rest rest' hext
  rw [hid] at hargs
  exact (hargs.mono fun hc => hc.opened hinner).weaken
termination_by 20 * c.size + 0

theorem mirrors_arguments (hX : AtLineEnd X) (first : Bool) (c c' : Cursor)
    (h : Extends X k c c') :
    (arguments first c).Mirrors X k (Closed 1 c)
      (Shifted renumberArguments k c.nextId) (arguments first c') := by
  have hskip := c.size_skipNewlines
  by_cases hne : c.skipNewlines.pending = []
  · -- The script ends inside of the brackets.
    have heat : ∀ kind ≠ .endOfInput, c.skipNewlines.eat? kind = none := by
      intro kind hkind
      apply eat?_none
      rw [hne]
      exact hkind.symm
    refine .vacuous ?_ fun hc => hc.skipNewlines.ne_nil hne
    cases first with
    | true =>
        rw [arguments_first (heat _ (by decide))]
        exact (meets_empty hne _).weaken _
    | false =>
        rw [arguments_unmarked (heat _ (by decide)) (heat _ (by decide))]
        exact trivial
  have hext := h.skipNewlines hne
  cases heat : c.skipNewlines.eat? .rightParen with
  | some rest =>
      obtain ⟨rest', heat', hext'⟩ := hext.eaten heat
      rw [arguments_closed first heat, arguments_closed first heat']
      exact ⟨_, _, _, rfl, hext', fun _ _ => rfl⟩
  | none =>
      have heat' := hext.uneaten hX (by decide) (by decide) heat
      cases first with
      | true =>
          rw [arguments_first heat, arguments_first heat']
          exact ((mirrors_argument hX _ _ hext).mono
            Closed.skipNewlines).weaken
      | false =>
          cases hcomma : c.skipNewlines.eat? .comma with
          | none =>
              have hcomma' := hext.uneaten hX (by decide) (by decide) hcomma
              rw [arguments_unmarked heat hcomma,
                arguments_unmarked heat' hcomma']
              exact fun _ => ⟨_, rfl, rfl, hext.nextId⟩
          | some rest =>
              obtain ⟨rest', hcomma', hext₁⟩ := hext.eaten hcomma
              have heaten := eaten_of_eat? hcomma
              have hless := rest.2
              have hskip' := rest.1.size_skipNewlines
              have hclosed : Closed 1 c → Closed 1 rest.1.skipNewlines :=
                fun hc => (hc.skipNewlines.afterComma heaten).skipNewlines
              by_cases hne₁ : rest.1.skipNewlines.pending = []
              · refine .vacuous ?_ fun hc => (hclosed hc).ne_nil hne₁
                obtain ⟨hle, heq⟩ := arguments_next heat hcomma
                  (eat?_none (by rw [hne₁]; decide))
                rw [heq]
                exact (meets_empty hne₁ _).weaken _
              have hext₂ := hext₁.skipNewlines hne₁
              cases hclose : rest.1.skipNewlines.eat? .rightParen with
              | some behind =>
                  obtain ⟨behind', hclose', hext₃⟩ := hext₂.eaten hclose
                  obtain ⟨_, heq⟩ := arguments_trailing heat hcomma hclose
                  obtain ⟨_, heq'⟩ :=
                    arguments_trailing heat' hcomma' hclose'
                  rw [heq, heq']
                  exact ⟨_, _, _, rfl, hext₃, fun _ _ => rfl⟩
              | none =>
                  have hclose' :=
                    hext₂.uneaten hX (by decide) (by decide) hclose
                  obtain ⟨_, heq⟩ := arguments_next heat hcomma hclose
                  obtain ⟨_, heq'⟩ := arguments_next heat' hcomma' hclose'
                  rw [heq, heq']
                  have hid : rest.1.skipNewlines.nextId = c.nextId :=
                    heaten.nextId
                  have harg := mirrors_argument hX _ _ hext₂
                  rw [hid] at harg
                  exact (harg.mono hclosed).weaken
termination_by 20 * c.size + if first then 17 else 15
decreasing_by
  · simp only [if_false]
    omega
  · simp only [if_true]
    omega

theorem mirrors_argument (hX : AtLineEnd X) (c c' : Cursor)
    (h : Extends X k c c') :
    (argument c).Mirrors X k (Closed 1 c)
      (Shifted renumberArguments k c.nextId) (argument c') := by
  have hstart : c.atValue.size ≤ c.size := length_splitName c.pending
  obtain ⟨hname, hext⟩ := h.atValue hX
  have hvalueStart : Phrase c [] c.atValue :=
    ⟨leads_leaving (suffix_splitName c.pending),
      fun depth => (skipArgument_splitName depth c.pending).symm,
      .nil (Nat.le_refl _)⟩
  have hclosed : Closed 1 c → Closed 1 c.atValue := Closed.behind hvalueStart
  have hphrase := phrase_expression c.atValue
  have hexpression := mirrors_expression hX c.atValue c'.atValue hext
  cases heq : expression c.atValue with
  | done value rest hrest =>
      rw [heq] at hexpression hphrase
      obtain ⟨value', rest', hrest', heq', hext', hvalue⟩ := hexpression
      have hphrase : Phrase c.atValue value.calls rest := hphrase
      obtain ⟨_, hdone⟩ := argument_done heq
      obtain ⟨_, hdone'⟩ := argument_done heq'
      rw [hdone, hdone', hname]
      apply Outcome.Mirrors.weaken
      have hargs := (mirrors_arguments hX false rest rest' hext').counting
        (closing_arguments false rest) fun _ _ h => h.numbered.le
      refine (hargs.mono fun hc => (hclosed hc).behind hphrase).map ?_
      rintro high args args' ⟨hhigh, hargs⟩
      exact hvalue.argument hargs hphrase.numbered.le hhigh
  | failed fault =>
      rw [heq] at hexpression hphrase
      have hlater : c.nextId ≤ fault.nextId := (show Later c.atValue fault from hphrase).count
      by_cases hunexpected : fault.complaint = .unexpected
      · cases hleft : skipArgument 0 c.atValue.pending with
        | some left =>
            -- The argument is dropped in both scripts.
            obtain ⟨fault', heq', hcomplaint, hcount⟩ :=
              hexpression ⟨0, left, hleft⟩
            obtain ⟨left', hleft', hext'⟩ := hext.skipped hleft
            obtain ⟨hle, hdrop⟩ := argument_dropped heq hunexpected hleft
            obtain ⟨_, hdrop'⟩ := argument_dropped heq'
              (hcomplaint.trans hunexpected) hleft'
            rw [hdrop, hdrop']
            apply Outcome.Mirrors.weaken
            have hargs := mirrors_arguments hX false
              ⟨left, c.finish, fault.nextId⟩ ⟨left', c'.finish, fault'.nextId⟩
              ⟨hext'.ahead, hcount⟩
            refine (hargs.imp fun _ _ _ h =>
              h.mono hlater (Nat.le_refl _)).mono ?_
            intro hc
            obtain ⟨depth, last, hlast⟩ := hclosed hc
            refine ⟨depth, last, ?_⟩
            have hdropped := skipArgument_of_some hleft depth
            rw [Nat.zero_add] at hdropped
            rw [Nat.add_comm] at hlast ⊢
            exact hdropped.symm.trans hlast
        | none =>
            rw [argument_failed heq (Or.inr hleft)]
            intro hc
            obtain ⟨fault', heq', hfault⟩ := hexpression (hclosed hc).inner
            obtain ⟨depth, last, hlast⟩ := hclosed hc
            have hleft' := hext.unskipped
              (by rw [Nat.zero_add]; exact hlast) hleft
            exact ⟨fault', argument_failed heq' (Or.inr hleft'), hfault⟩
      · rw [argument_failed heq (Or.inl hunexpected)]
        intro hc
        obtain ⟨fault', heq', hcomplaint, hcount⟩ :=
          hexpression (hclosed hc).inner
        have hunexpected' : fault'.complaint ≠ .unexpected := by
          rw [hcomplaint]
          exact hunexpected
        exact ⟨fault', argument_failed heq' (Or.inl hunexpected'),
          hcomplaint, hcount⟩
termination_by 20 * c.size + 16
decreasing_by
  · omega
  · simp only [if_false]
    omega
  · have hless : left.length ≤ c.size :=
      Nat.le_trans (length_skipArgument hleft) hstart
    simp only [if_false, Cursor.size] at *
    omega

end

end Barscript.Script

import Barscript.Proofs.Script.Passage
import Barscript.Proofs.Script.WellFormed

/-!
# Calls that are no statements

A call of `plot`, say, is not read as a call. Its tokens are passed over one
by one, and each of them is taken for the start of a statement first. With a
well-formed call this never succeeds, but for the name of an indicator without
parentheses, which starts an expression that has no effect (`skips_of_stands`).
The arguments may have names only of one kind: keywords with which no statement
starts (`QuietLabel`). An identifier in front of a sign would be assigned to.
-/

namespace Barscript.Script

/-! ## Tokens that start no statement -/

/-- The words of the language that a statement starts with. -/
def statementWords : List String :=
  ["strategy", "indicator", "var", "varip", "if"]

/-- No statement starts with `s` when `A` comes behind it. -/
structure PassedOver (s : Spelling) (A : List Spelling) : Prop where
  version : s.1 ≠ .versionPragma
  keyword : s.1 = .keyword → s.2 ∉ statementWords
  function : s.1 = .builtinFunction → hasMark indicatorMark s.2 = false ∧
    (headKind A = .leftParen → Unmarked s.2)
  identifier : s.1 = .identifier →
    headKind A ≠ .assign ∧ headKind A ≠ .colonAssign

/-- The classes of tokens that no statement starts with. -/
def TokenKind.isInert : TokenKind → Bool
  | .versionPragma | .keyword | .builtinFunction | .identifier => false
  | _ => true

theorem PassedOver.ofKind {s : Spelling} (h : s.1.isInert = true)
    (A : List Spelling) : PassedOver s A := by
  constructor <;> intro hkind <;> rw [hkind] at h <;> cases h

theorem statement_passedOver {c : Cursor} {token : Token}
    {pending : List Token} (h : c.pending = token :: pending)
    (hpass : PassedOver token.spelling (c.leaving pending).ahead) :
    statement token c pending h =
      .done (.passedOver token) (c.leaving pending)
        (Cursor.size_leaving_lt h) := by
  have hfirst : firstKind pending = headKind (c.leaving pending).ahead :=
    firstKind_eq (c.leaving pending)
  unfold statement
  dsimp only
  cases hkind : token.kind with
  | versionPragma => exact absurd hkind hpass.version
  | keyword =>
      have hword := hpass.keyword hkind
      simp only [statementWords, List.mem_cons, List.not_mem_nil, or_false,
        not_or] at hword
      have hword : token.value ≠ "strategy" ∧ token.value ≠ "indicator" ∧
        token.value ≠ "var" ∧ token.value ≠ "varip" ∧ token.value ≠ "if" :=
          hword
      dsimp only
      rw [if_neg (not_or.mpr ⟨hword.1, hword.2.1⟩),
        if_neg (not_or.mpr ⟨hword.2.2.1, hword.2.2.2.1⟩),
        if_neg hword.2.2.2.2]
  | builtinFunction =>
      obtain ⟨hindicator, hcall⟩ := hpass.function hkind
      have hindicator : hasMark indicatorMark token.value = false := hindicator
      have hmark : ∀ mark ∈ [inputMark, orderMark, indicatorMark],
          ¬ (hasMark mark token.value ∧ firstKind pending = .leftParen) := by
        rintro mark hmem ⟨hmark, hopen⟩
        have hunmarked : hasMark mark token.value = false :=
          hcall (hfirst ▸ hopen) mark hmem
        rw [hunmarked] at hmark
        cases hmark
      dsimp only
      rw [if_neg (hmark _ (by decide)), if_neg (hmark _ (by decide)),
        if_neg (by rw [hindicator]; decide)]
  | identifier =>
      obtain ⟨hassign, hcolon⟩ := hpass.identifier hkind
      rw [← hfirst] at hassign hcolon
      dsimp only
      rw [if_neg (not_or.mpr ⟨hassign, hcolon⟩)]
  | _ => rfl

/-- The end of a line is passed over. -/
theorem passes_newline {c : Cursor} {token : Token} {pending : List Token}
    (h : c.pending = token :: pending) (hkind : token.kind = .newline) :
    Passes c [.passedOver token] (c.leaving pending) := by
  have hinert : token.spelling.1.isInert = true := by
    unfold Token.spelling
    rw [hkind]
    rfl
  exact .statement h (statement_passedOver h (.ofKind hinert _))

/-! ## Passing over -/

/-- A name of an argument with which no statement starts. -/
def QuietLabel (s : Spelling) : Prop :=
  s.1 = .keyword ∧ s.2 ∉ statementWords

/-- From `A` on, up to `R`, no statement starts but expressions that start
with the name of an indicator. -/
inductive Skips : List Spelling → List Spelling → Prop where
  | refl (R : List Spelling) : Skips R R
  | token {s : Spelling} {A R : List Spelling} (h : PassedOver s A)
      (rest : Skips A R) : Skips (s :: A) R
  | indicator {s : Spelling} {A B R : List Spelling}
      (hkind : s.1 = .builtinFunction)
      (hmark : hasMark indicatorMark s.2 = true)
      (value : Stands QuietLabel .expression (s :: A) B) (hB : Stops B)
      (rest : Skips B R) : Skips (s :: A) R

/-- Marks of one name start with the same character. -/
theorem hasMark_head {mark : List Char} {name : String}
    (h : hasMark mark name = true) (hne : mark ≠ []) :
    mark.head? = name.toList.head? := by
  obtain ⟨rest, hrest⟩ := List.isPrefixOf_iff_prefix.mp h
  rw [← hrest]
  cases mark with
  | nil => exact absurd rfl hne
  | cons first _ => rfl

theorem hasMark_indicator {name : String}
    (h : hasMark indicatorMark name = true) :
    hasMark inputMark name = false ∧ hasMark orderMark name = false := by
  have hhead := hasMark_head h (by decide)
  constructor <;> rw [Bool.eq_false_iff] <;> intro hmark <;>
    exact absurd ((hasMark_head hmark (by decide)).trans hhead.symm)
      (by decide)

/-- The name of an indicator starts an expression. -/
theorem statement_indicator {c : Cursor} {token : Token}
    {pending : List Token} (h : c.pending = token :: pending)
    (hkind : token.kind = .builtinFunction)
    (hmark : hasMark indicatorMark token.value = true) :
    statement token c pending h = (expression c).map .indicator := by
  obtain ⟨hinput, horder⟩ := hasMark_indicator hmark
  unfold statement
  rw [hkind]
  dsimp only
  rw [if_neg (by rw [hinput]; simp), if_neg (by rw [horder]; simp),
    if_pos hmark]

/-- **What starts no statement is passed over** and adds nothing to a
strategy. -/
theorem passes_of_skips {A R : List Spelling} (h : Skips A R) :
    ∀ c : Cursor, c.ahead = A → ∃ all rest, Passes c all rest ∧
      rest.ahead = R ∧ c.nextId ≤ rest.nextId ∧
      ∀ s : Strategy, all.foldl Strategy.add s = s := by
  induction h with
  | refl R => exact fun c hahead =>
      ⟨[], c, .refl c, hahead, Nat.le_refl _, fun _ => rfl⟩
  | token hpass _ ih =>
      intro c hahead
      obtain ⟨token, pending, hpending, rfl, hbehind⟩ := ahead_cons hahead
      obtain ⟨all, rest, hpasses, hrest, hcount, hall⟩ :=
        ih (c.leaving pending) hbehind
      rw [← hbehind] at hpass
      exact ⟨.passedOver token :: all, rest,
        (Passes.statement hpending
          (statement_passedOver hpending hpass)).trans hpasses,
        hrest, hcount, hall⟩
  | indicator hkind hmark value hB _ ih =>
      intro c hahead
      obtain ⟨token, pending, hpending, rfl, _⟩ := ahead_cons hahead
      rw [← hahead] at value
      have hread := complete_expression c value hB
      have hcount := phrase_expression c
      have hstatement := statement_indicator hpending hkind hmark
      cases heq : expression c with
      | failed fault =>
          rw [heq] at hread
          exact absurd hread id
      | done e behind hbehind =>
          rw [heq] at hread hcount hstatement
          have hcount : c.nextId ≤ behind.nextId := Numbered.le hcount.numbered
          obtain ⟨hbehindAhead, hcalls⟩ := hread
          obtain ⟨all, rest, hpasses, hrest, hcount', hall⟩ :=
            ih behind hbehindAhead
          refine ⟨.indicator e :: all, rest,
            (Passes.statement hpending hstatement).trans hpasses, hrest,
            Nat.le_trans hcount hcount', ?_⟩
          intro s
          have hadd : s.add (.indicator e) = s := by
            rw [Strategy.add, hcalls]
            unfold Strategy.withIndicators
            rw [List.append_nil]
          rw [List.foldl_cons, hadd]
          exact hall s

/-! ## Well-formed expressions -/

theorem skips_breaks {A R : List Spelling} (h : Skips (pastBreaks A) R) :
    Skips A R := by
  induction A with
  | nil => exact h
  | cons s rest ih =>
      by_cases hs : s.1 = .newline
      · refine .token (.ofKind (by rw [hs]; rfl) rest) (ih ?_)
        unfold pastBreaks at h
        rwa [List.dropWhile_cons_of_pos (by simpa using hs)] at h
      · unfold pastBreaks at h
        rwa [List.dropWhile_cons_of_neg (by simpa using hs)] at h

/-- From the start of a part to its end no statement starts, when none starts
behind it. An operand may be a name that starts an expression, and so may be
what goes on behind the operand. -/
def SkipsThrough : Part → List Spelling → List Spelling → Prop
  | .primary, A, R | .operand, A, R => ∀ B Z,
    Stands QuietLabel .continuation R B → Stops B → Skips B Z → Skips R Z →
      Skips A Z
  | .continuation, A, R | .expression, A, R | .argument, A, R => ∀ Z,
    Stops R → Skips R Z → Skips A Z
  | .arguments, A, R | .further, A, R => ∀ Z, Skips R Z → Skips A Z

/-- A name is passed over, unless it is a call, an assignment or the name of
an indicator. -/
theorem passedOver_of_isName {s : Spelling} {A : List Spelling}
    (h : Spelling.isName s = true)
    (hindicator : s.1 = .builtinFunction → hasMark indicatorMark s.2 = false)
    (hcall : headKind A = .leftParen → Unmarked s.2)
    (hassign : headKind A ≠ .assign ∧ headKind A ≠ .colonAssign) :
    PassedOver s A := by
  unfold Spelling.isName Token.isName at h
  constructor
  · intro hkind
    rw [hkind] at h
    cases h
  · intro hkind
    rw [hkind] at h
    have hna : s.2 = "na" := eq_of_beq h
    rw [hna]
    decide
  · exact fun hkind => ⟨hindicator hkind, hcall⟩
  · exact fun _ => hassign

/-- **A well-formed expression is passed over**, where the names of arguments, if
there are any, are keywords with which no statement starts. -/
theorem skips_of_stands {part : Part} {A R : List Spelling}
    (h : Stands QuietLabel part A R) : SkipsThrough part A R := by
  induction h with
  | constant h =>
      intro B Z _ _ _ hR
      refine .token (.ofKind ?_ _) hR
      rcases h with ⟨hkind, _⟩ | hkind | hkind <;> rw [hkind] <;> rfl
  | @name s R h =>
      intro B Z hon hB hskip hR
      have hplain := attaches_of_continuation hon hB
      by_cases hmark : s.1 = .builtinFunction ∧
          hasMark indicatorMark s.2 = true
      · -- The expression goes on as far as the one that is being read.
        exact .indicator hmark.1 hmark.2 (.expression (.primary (.name h)) hon)
          hB hskip
      · refine .token (passedOver_of_isName h ?_ ?_ ?_) hR
        · exact fun hkind => Bool.eq_false_iff.mpr fun hm => hmark ⟨hkind, hm⟩
        · exact fun hopen => absurd hopen (ne_of_attaches hplain rfl)
        · exact ⟨ne_of_attaches hplain rfl, ne_of_attaches hplain rfl⟩
  | @index s _ _ _ _ h offset ih =>
      intro B Z _ _ _ hR
      refine .token (passedOver_of_isName (isName_of_isIndexable h) ?_ nofun
        ⟨nofun, nofun⟩) (.token (.ofKind rfl _) (ih Z rfl
          (.token (.ofKind rfl _) hR)))
      intro hkind
      unfold Spelling.isIndexable Token.isIndexable at h
      rw [hkind] at h
      cases h
  | group inner hclose ih =>
      intro B Z _ _ _ hR
      refine .token (.ofKind rfl _) (skips_breaks
        (ih Z (stops_of_pastBreaks hclose rfl) (skips_breaks ?_)))
      rw [hclose]
      exact .token (.ofKind rfl _) hR
  | call h hs args ih =>
      intro B Z _ _ _ hR
      exact .token (passedOver_of_isName h (fun _ => hs _ (by decide))
        (fun _ => hs) ⟨nofun, nofun⟩) (.token (.ofKind rfl _) (ih Z hR))
  | primary h ih => exact ih
  | @unary s _ _ _ h inner ih =>
      intro B Z hon hB hskip hR
      refine .token (.ofKind ?_ _) (ih B Z hon hB hskip hR)
      cases hkind : s.1 <;> rw [hkind] at h <;> first | rfl | cases h
  | ended => exact fun Z _ hR => hR
  | @binary s level _ _ _ _ h right rest ihright ihrest =>
      intro Z hstops hR
      refine .token (.ofKind ?_ _)
        (ihright _ Z rest hstops hR (ihrest Z hstops hR))
      cases hkind : s.1 <;> rw [hkind] at h <;>
        first | rfl | (cases level <;> cases h)
  | ternary whenTrue whenFalse ihtrue ihfalse =>
      intro Z hstops hR
      exact .token (.ofKind rfl _) (ihtrue Z rfl
        (.token (.ofKind rfl _) (ihfalse Z hstops hR)))
  | expression first rest ihfirst ihrest =>
      intro Z hstops hR
      exact ihfirst _ Z rest hstops hR (ihrest Z hstops hR)
  | positional value ih => exact ih
  | named h hs value ih =>
      intro Z hstops hR
      refine .token ?_ (.token (.ofKind rfl _) (ih Z hstops hR))
      constructor <;> intro hkind
      · cases hs.1.symm.trans hkind
      · exact hs.2
      · cases hs.1.symm.trans hkind
      · cases hs.1.symm.trans hkind
  | empty hclose =>
      intro Z hR
      refine skips_breaks ?_
      rw [hclose]
      exact .token (.ofKind rfl _) hR
  | arguments first rest ihfirst ihrest =>
      exact fun Z hR => skips_breaks
        (ihfirst Z (stops_of_further rest) (ihrest Z hR))
  | closed hclose =>
      intro Z hR
      refine skips_breaks ?_
      rw [hclose]
      exact .token (.ofKind rfl _) hR
  | trailing hcomma hclose =>
      intro Z hR
      refine skips_breaks ?_
      rw [hcomma]
      refine .token (.ofKind rfl _) (skips_breaks ?_)
      rw [hclose]
      exact .token (.ofKind rfl _) hR
  | further hcomma next rest ihnext ihrest =>
      intro Z hR
      refine skips_breaks ?_
      rw [hcomma]
      exact .token (.ofKind rfl _) (skips_breaks
        (ihnext Z (stops_of_further rest) (ihrest Z hR)))

end Barscript.Script

import Barscript.Proofs.Script.Insertion
import Barscript.Proofs.Script.PaddedPhrases

/-!
# Reading padded scripts

Where a statement starts, the ends of lines are passed over, and so are the
brackets and commas that no statement takes. So a padded script says the same
statement by statement (`padded_statements`), if the calls in which lists are
added are read as calls.
-/

namespace Barscript.Script

/-! ## Statements -/

/-- The token at the cursor is passed over: no statement starts with it. -/
def Cursor.PassesOver (c : Cursor) : Prop :=
  ∃ token pending, ∃ h : c.pending = token :: pending,
    statement token c pending h =
      .done (.passedOver token) (c.leaving pending) (Cursor.size_leaving_lt h)

/-- One of the statements that are read from `c` on starts at `d`. -/
inductive StartsAt : Cursor → Cursor → Prop where
  | here (c : Cursor) : StartsAt c c
  | later {c rest d : Cursor} {token : Token} {pending : List Token}
      {hpending : c.pending = token :: pending} {value : Statement}
      {hrest : rest.size < c.size}
      (heq : statement token c pending hpending = .done value rest hrest)
      (h : StartsAt rest d) : StartsAt c d

/-- Both statements contribute the same. -/
def Statement.Alike (x x' : Statement) : Prop :=
  ∀ s : Strategy, s.add x' = s.add x

/-- The next statement may start, and no list is added in front of it. -/
def Resumes (called : List Spelling → Prop) (c c' : Cursor) : Prop :=
  ∃ levels : List Bool, (∀ b ∈ levels, b = false) ∧
    c.skipNewlines.Aligned (Padded called levels) c'.skipNewlines

section

variable {called : List Spelling → Prop} {levels : List Bool} {c c' : Cursor}

theorem padded_expression_map (h : c.Aligned (Padded called levels) c')
    (make : Expr → Statement) :
    ((expression c).map make).Agrees Statement.Alike
      (Cursor.Aligned (Padded called levels)) ((expression c').map make) := by
  refine (padded_expression c c' h).map ?_
  rintro e _ rfl s
  rfl

theorem padded_callArguments_map
    (h : c.Aligned (PaddedBehind called levels) c')
    (make : List (Argument Expr) → Statement) :
    ((callArguments c).map make).Agrees Statement.Alike
      (Cursor.Aligned (Padded called levels))
      ((callArguments c').map make) := by
  refine (padded_callArguments c c' h).map ?_
  rintro args _ rfl s
  rfl

theorem padded_declared (h : c.Aligned (Padded called levels) c') :
    (variableDeclaration.declared c).Agrees Statement.Alike
      (Cursor.Aligned (Padded called levels))
      (variableDeclaration.declared c') := by
  unfold variableDeclaration.declared
  have hname : (c.expect .identifier "variable name").Agrees
      (fun token token' => token'.spelling = token.spelling)
      (Cursor.Aligned (PaddedBehind called levels))
      (c'.expect .identifier "variable name") :=
    agrees_expect_of h.nextId (by decide)
      (iff_of_eq (h.behind.seen (· = .identifier) (by simp) (by simp)))
      (fun _ _ hpending hkind => h.consWord hpending (by rw [hkind]; rfl)) _
  refine hname.bind ?_
  intro name rest hrest name' rest' hrest' hspelling hbehind
  have hvalue : name'.value = name.value := congrArg Prod.snd hspelling
  rw [hvalue]
  by_cases hopen : firstKind rest.pending = .leftParen
  · -- Neither of the two signs stands here.
    have hopen' : firstKind rest'.pending = .leftParen :=
      (iff_of_eq (hbehind.seen (· = .leftParen) (by simp) (by simp))).mpr hopen
    have hkind : ∀ (d : Cursor) (kind : TokenKind),
        firstKind d.pending = .leftParen → kind ≠ .leftParen →
          d.eat? kind = none := by
      intro d kind hd hne
      apply eat?_none
      rw [hd]
      exact hne.symm
    rw [hkind rest _ hopen (by decide), hkind rest' _ hopen' (by decide),
      expect_none (hkind rest _ hopen (by decide)),
      expect_none (hkind rest' _ hopen' (by decide))]
    exact agrees_fault hbehind.nextId _
  have haligned := hbehind.padded hopen
  cases heat : rest.eat? .colonAssign with
  | some behind =>
      obtain ⟨behind', heat', hvalue⟩ := haligned.eaten rfl heat
      rw [heat']
      exact (padded_expression_map hvalue _).weaken
  | none =>
      rw [haligned.uneaten rfl heat]
      refine (agrees_expect haligned rfl "'='").bind ?_
      intro _ rest₁ hrest₁ _ rest₁' hrest₁' _ hvalue
      exact (padded_expression_map hvalue _).weaken

theorem padded_variableDeclaration
    (h : c.Aligned (Padded called levels) c') :
    (variableDeclaration c).Agrees Statement.Alike
      (Cursor.Aligned (Padded called levels)) (variableDeclaration c') := by
  have hfirst : firstKind c'.pending = .identifier ↔
      firstKind c.pending = .identifier :=
    iff_of_eq (h.behind.seen (· = .identifier) (by simp) (by simp))
  unfold variableDeclaration
  by_cases htype : firstKind c.pending = .identifier
  · obtain ⟨token, hkind, hpending⟩ := pending_of_firstKind htype (by decide)
    obtain ⟨token', pending', hpending', _, hrest⟩ :=
      h.consWord hpending (by rw [hkind]; rfl)
    have htail : pending' = c'.pending.tail := by rw [hpending']; rfl
    rw [htail] at hrest
    have hsecond : firstKind c'.pending.tail = .identifier ↔
        firstKind c.pending.tail = .identifier :=
      iff_of_eq (hrest.seen (· = .identifier) (by simp) (by simp))
    by_cases hname : firstKind c.pending.tail = .identifier
    · rw [if_pos ⟨htype, hname⟩,
        if_pos ⟨hfirst.mpr htype, hsecond.mpr hname⟩]
      have hne : firstKind c.pending.tail ≠ .leftParen := by
        rw [hname]
        decide
      exact (padded_declared (hrest.padded hne)).weaken
    · rw [if_neg fun hboth => hname hboth.2,
        if_neg fun hboth => hname (hsecond.mp hboth.2)]
      exact padded_declared h
  · rw [if_neg fun hboth => htype hboth.1,
      if_neg fun hboth => htype (hfirst.mp hboth.1)]
    exact padded_declared h

/-- A phrase closes the brackets it opens, so the next statement may start
behind it. -/
theorem resumes_of_aligned (hlevels : ∀ b ∈ levels, b = false)
    (h : c.Aligned (Padded called levels) c') : Resumes called c c' :=
  ⟨levels, hlevels, h.skipNewlines⟩

theorem not_callee_keyword {token : Token} (hkind : token.kind = .keyword)
    (hvalue : token.value ∉ ["na", "strategy", "indicator"]) :
    ¬ Callee token.spelling := by
  intro hcallee
  simp only [List.mem_cons, List.not_mem_nil, or_false, not_or] at hvalue
  rcases hcallee with hname | ⟨_, hvalue' | hvalue'⟩
  · have hname : token.isName = true := hname
    unfold Token.isName at hname
    rw [hkind] at hname
    exact hvalue.1 (eq_of_beq hname)
  · exact hvalue.2.1 hvalue'
  · exact hvalue.2.2 hvalue'

section

variable {token token' : Token} {pending pending' : List Token}

/-- A statement that starts with a token that is no bracket and no comma. -/
theorem padded_statement_plain (h : c.Aligned (Padded called levels) c')
    (hpending : c.pending = token :: pending)
    (hpending' : c'.pending = token' :: pending')
    (hspelling : token'.spelling = token.spelling)
    (hrest : (c.leaving pending).Aligned (PaddedBehind called levels)
      (c'.leaving pending'))
    (hplain : ¬ Callee token.spelling →
      (c.leaving pending).Aligned (Padded called levels)
        (c'.leaving pending'))
    (hpass : statement token c pending hpending =
        .done (.passedOver token) (c.leaving pending)
          (Cursor.size_leaving_lt hpending) →
      (c.leaving pending).Aligned (Padded called levels)
        (c'.leaving pending')) :
    (statement token c pending hpending).Agrees Statement.Alike
      (Cursor.Aligned (Padded called levels))
      (statement token' c' pending' hpending') := by
  have hkind : token'.kind = token.kind := congrArg Prod.fst hspelling
  have hvalue : token'.value = token.value := congrArg Prod.snd hspelling
  have hopen : firstKind pending' = .leftParen ↔
      firstKind pending = .leftParen :=
    iff_of_eq (hrest.seen (· = .leftParen) (by simp) (by simp))
  have hassign : firstKind pending' = .assign ∨
        firstKind pending' = .colonAssign ↔
      firstKind pending = .assign ∨ firstKind pending = .colonAssign :=
    iff_of_eq (hrest.seen
      (fun kind => kind = .assign ∨ kind = .colonAssign) (by simp) (by simp))
  unfold statement at hpass ⊢
  dsimp only at hpass ⊢
  simp only [hkind, hvalue, hopen, hassign]
  cases hk : token.kind with
  | versionPragma =>
      exact ⟨fun _ => rfl, hplain (not_callee (by rw [hk]; rfl))⟩
  | keyword =>
      rw [hk] at hpass
      dsimp only at hpass ⊢
      have hword : ∀ word ∉ ["na", "strategy", "indicator"],
          token.value = word → ¬ Callee token.spelling := by
        rintro word hword rfl
        exact not_callee_keyword hk hword
      split_ifs with hdeclaration hvar hif
      · exact (padded_callArguments_map hrest _).weaken
      · have haligned := hplain <| hvar.elim (hword _ (by decide))
          (hword _ (by decide))
        exact (padded_variableDeclaration haligned).weaken
      · exact (padded_expression_map (hplain (hword _ (by decide) hif))
          _).weaken
      · rw [if_neg hdeclaration, if_neg hvar, if_neg hif] at hpass
        exact ⟨fun _ => rfl, hpass rfl⟩
  | builtinFunction =>
      rw [hk] at hpass
      dsimp only at hpass ⊢
      split_ifs with hinput horder hindicator
      · exact (padded_callArguments_map hrest _).weaken
      · exact (padded_callArguments_map hrest _).weaken
      · exact padded_expression_map h _
      · rw [if_neg hinput, if_neg horder, if_neg hindicator] at hpass
        exact ⟨fun _ => rfl, hpass rfl⟩
  | identifier =>
      rw [hk] at hpass
      dsimp only at hpass ⊢
      split_ifs with hsign
      · have hfirm : (firstKind pending).isFirm = true := by
          rcases hsign with hsign | hsign <;> rw [hsign] <;> rfl
        have hne : firstKind pending ≠ .leftParen ∧
            firstKind pending ≠ .endOfInput := by
          rcases hsign with hsign | hsign <;> rw [hsign] <;> decide
        obtain ⟨sign, rest, rfl⟩ := cons_of_firstKind hne.2
        obtain ⟨sign', rest', hrest', _, haligned⟩ :=
          (hrest.padded hne.1).consFirm rfl hfirm
        have hrest' : pending' = sign' :: rest' := hrest'
        subst hrest'
        exact (padded_expression_map haligned _).weaken
      · rw [if_neg hsign] at hpass
        exact ⟨fun _ => rfl, hpass rfl⟩
  | _ =>
      rw [hk] at hpass
      exact ⟨fun _ => rfl, hpass rfl⟩

/-- A bracket or a comma is passed over. -/
theorem padded_statement_mark (hlevels : ∀ b ∈ levels, b = false)
    (h : c.Aligned (Padded called levels) c')
    (hpending : c.pending = token :: pending)
    (hpending' : c'.pending = token' :: pending')
    (hkind : token'.kind = token.kind) (hmark : ¬ token.kind.isMark = false) :
    (statement token c pending hpending).Agrees Statement.Alike
      (Resumes called) (statement token' c' pending' hpending') := by
  have hinert : ∀ kind : TokenKind, ¬ kind.isMark = false →
      kind.isInert = true := by
    intro kind hmark
    rcases isMark_cases hmark with hk | hk | hk | hk | hk <;> rw [hk] <;> rfl
  rw [statement_passedOver hpending (.ofKind (hinert _ hmark) _),
    statement_passedOver hpending'
      (.ofKind (hinert _ (by rwa [← hkind] at hmark)) _)]
  refine ⟨fun _ => rfl, ?_⟩
  have hahead := h.ahead
  rw [ahead_pending hpending, ahead_pending hpending'] at hahead
  have hline : token'.spelling.1 ≠ .newline := by
    intro hline
    have hline : token.kind = .newline := hkind.symm.trans hline
    rw [hline] at hmark
    exact hmark rfl
  obtain ⟨levels', hlevels', hrest⟩ := hahead.passed hlevels hmark hline
  refine ⟨levels', hlevels', ?_, h.nextId⟩
  rw [ahead_skipNewlines, ahead_skipNewlines]
  exact hrest

/-- **One statement is read the same**, if no call in which lists are added is
passed over. -/
theorem padded_statement (hlevels : ∀ b ∈ levels, b = false)
    (h : c.Aligned (Padded called levels) c')
    (hpending : c.pending = token :: pending)
    (hpending' : c'.pending = token' :: pending')
    (hline : token.kind ≠ .newline) (hline' : token'.kind ≠ .newline)
    (hcalled : called c.ahead → ¬ c.PassesOver) :
    (statement token c pending hpending).Agrees Statement.Alike
      (Resumes called) (statement token' c' pending' hpending') := by
  have hlevel : levels.headD false = false := by
    cases levels with
    | nil => rfl
    | cons b _ => exact hlevels b (List.mem_cons_self ..)
  by_cases hmark : token.kind.isMark = false
  · have hkind : ∀ kind : TokenKind, kind.isMark = true → token.kind ≠ kind :=
      fun kind hkind => ne_of_apply_ne TokenKind.isMark
        (by rw [hmark, hkind]; decide)
    obtain ⟨_, _, hcons, hspelling, hrest⟩ :=
      h.cons hpending hline (hkind _ rfl) (hkind _ rfl)
    cases hpending'.symm.trans hcons
    refine (padded_statement_plain h hpending hpending' hspelling
      (hrest.behindToken hmark) ?_ ?_).mono fun _ _ => resumes_of_aligned hlevels
    · intro hcallee
      exact hrest.imp fun _ _ hrest => (hrest.plain hmark).2
        fun hboth => hcallee hboth.1
    · intro hpass
      refine ⟨(hrest.ahead.plain hmark).2 ?_, hrest.nextId⟩
      rintro ⟨_, hcall⟩
      rw [← ahead_pending hpending] at hcall
      exact hcalled hcall ⟨_, _, hpending, hpass⟩
  · have hahead := h.ahead
    rw [ahead_pending hpending, ahead_pending hpending'] at hahead
    exact padded_statement_mark hlevels h hpending hpending'
      (hahead.headKind_eq hlevel hline hline') hmark

end

/-! ## All statements -/

theorem StartsAt.trans {c d e : Cursor} (h : StartsAt c d)
    (h' : StartsAt d e) : StartsAt c e := by
  induction h with
  | here => exact h'
  | later heq _ ih => exact .later heq (ih h')

/-- The ends of lines are passed over and add nothing to a strategy. -/
theorem passes_skipNewlines (c : Cursor) :
    ∃ all, Passes c all c.skipNewlines ∧ StartsAt c c.skipNewlines ∧
      ∀ s : Strategy, all.foldl Strategy.add s = s := by
  by_cases hline : firstKind c.pending = .newline
  · obtain ⟨token, hkind, hpending⟩ := pending_of_firstKind hline (by decide)
    have hsize := Cursor.size_leaving_lt hpending
    obtain ⟨all, hpasses, hstarts, hall⟩ :=
      passes_skipNewlines (c.leaving c.pending.tail)
    have hskip : (c.leaving c.pending.tail).skipNewlines = c.skipNewlines := by
      have hdrop : behindNewlines c.pending =
          behindNewlines c.pending.tail := by
        rw [hpending, List.tail_cons]
        exact List.dropWhile_cons_of_pos (by simpa using hkind)
      unfold Cursor.skipNewlines
      rw [hdrop]
      rfl
    rw [hskip] at hpasses hstarts
    have hinert : token.spelling.1.isInert = true := by
      show token.kind.isInert = true
      rw [hkind]
      rfl
    have heq := statement_passedOver hpending (.ofKind hinert _)
    exact ⟨.passedOver token :: all,
      (Passes.statement hpending heq).trans hpasses, .later heq hstarts, hall⟩
  · rw [skipNewlines_eq hline]
    exact ⟨[], .refl c, .here c, fun _ => rfl⟩
termination_by c.size

/-- **A padded script says the same**, if no call in which lists are added is
passed over. -/
theorem padded_statements (c c' : Cursor) (h : Resumes called c c')
    (hcalled : ∀ d, StartsAt c d → called d.ahead → ¬ d.PassesOver)
    {all : List Statement} (hall : statements c = .ok all) :
    ∃ all', statements c' = .ok all' ∧ ∀ s : Strategy,
      all'.foldl Strategy.add s = all.foldl Strategy.add s := by
  obtain ⟨xs, hpasses, hstarts, hxs⟩ := passes_skipNewlines c
  obtain ⟨xs', hpasses', _, hxs'⟩ := passes_skipNewlines c'
  obtain ⟨levels, hlevels, haligned⟩ := h
  have hskip := c.size_skipNewlines
  obtain ⟨ys, hys, rfl⟩ : ∃ ys, statements c.skipNewlines = .ok ys ∧
      all = xs ++ ys := by
    unfold Passes at hpasses
    rw [hpasses] at hall
    cases hys : statements c.skipNewlines with
    | error fault =>
        rw [hys] at hall
        cases hall
    | ok ys =>
        rw [hys] at hall
        cases hall
        exact ⟨ys, rfl, rfl⟩
  suffices hsame : ∃ ys', statements c'.skipNewlines = .ok ys' ∧
      ∀ s : Strategy, ys'.foldl Strategy.add s = ys.foldl Strategy.add s by
    obtain ⟨ys', hys', hsame⟩ := hsame
    refine ⟨xs' ++ ys', hpasses'.ok hys', fun s => ?_⟩
    rw [List.foldl_append, List.foldl_append, hxs, hxs', hsame]
  rcases statements_cases hys with ⟨hnil, rfl⟩ | hread
  · have hahead := haligned.ahead
    unfold Cursor.ahead at hahead
    rw [hnil] at hahead
    exact ⟨[], statements_of_ahead_nil hahead.nil_eq, fun _ => rfl⟩
  · obtain ⟨token, pending, hpending, value, rest, hrest, others, heq,
      hothers, rfl⟩ := hread
    have hline := firstKind_skipNewlines c
    have hline' := firstKind_skipNewlines c'
    cases hpending' : c'.skipNewlines.pending with
    | nil =>
        have hahead := haligned.ahead
        unfold Cursor.ahead at hahead
        rw [hpending, hpending'] at hahead
        cases hahead.eq_nil
    | cons token' pending' =>
        rw [hpending] at hline
        rw [hpending'] at hline'
        have hagrees := padded_statement hlevels haligned hpending hpending'
          hline hline' (hcalled _ hstarts)
        rw [heq] at hagrees
        cases heq' : statement token' c'.skipNewlines pending' hpending' with
        | failed fault =>
            rw [heq'] at hagrees
            exact absurd hagrees id
        | done value' rest' hrest' =>
            rw [heq'] at hagrees
            obtain ⟨halike, hresumes⟩ := hagrees
            obtain ⟨others', hothers', hsame⟩ := padded_statements rest rest'
              hresumes (fun d hd => hcalled d (hstarts.trans (.later heq hd)))
              hothers
            refine ⟨value' :: others', ?_, fun s => ?_⟩
            · rw [statements_cons hpending', heq']
              dsimp only
              rw [hothers']
              rfl
            · rw [List.foldl_cons, List.foldl_cons, halike, hsame]
termination_by c.size

end

end Barscript.Script

import Barscript.Proofs.Script.Mirror
import Barscript.Proofs.Script.Statements

/-!
# Statements in a script that goes on

A script that parses is read in the same statements when it goes on in another
line (`mirrors_statements`), and the reading passes over to that line with all
calls of the script counted and with all tokens of the line left.
-/

namespace Barscript.Script

variable {X : List Spelling} {k : Nat}

/-! ## From one cursor to another -/

/-- Reading statement by statement leads from `c` to `rest`. -/
def Passes (c : Cursor) (all : List Statement) (rest : Cursor) : Prop :=
  statements c = (statements rest).map (all ++ ·)

theorem Passes.refl (c : Cursor) : Passes c [] c := by
  unfold Passes
  cases statements c <;> rfl

theorem Passes.trans {c middle rest : Cursor} {xs ys : List Statement}
    (h : Passes c xs middle) (h' : Passes middle ys rest) :
    Passes c (xs ++ ys) rest := by
  unfold Passes at *
  rw [h, h']
  cases statements rest with
  | error fault => rfl
  | ok others =>
      show Except.ok (xs ++ (ys ++ others)) = Except.ok (xs ++ ys ++ others)
      rw [List.append_assoc]

theorem Passes.statement {c rest : Cursor} {token : Token}
    {pending : List Token} {value : Statement} {hrest : rest.size < c.size}
    (h : c.pending = token :: pending)
    (heq : statement token c pending h = .done value rest hrest) :
    Passes c [value] rest := by
  unfold Passes
  rw [statements_cons h, heq]
  rfl

/-! ## One statement -/

/-- The second statement contributes what the first does with the identities
from `low` to before `high` raised by `k`. -/
def Statement.Follows (k low high : Nat) (x x' : Statement) : Prop :=
  ∀ f : Nat → Nat, (∀ i, low ≤ i → i < high → f i = i + k) →
    ∀ s : Strategy, (s.renumber f).add x' = (s.add x).renumber f

theorem mirrors_expression_map (hX : AtLineEnd X) {c c' : Cursor}
    (h : Extends X k c c') {make : Expr → Statement}
    (hmake : ∀ f e, (make e).renumber f = make (e.renumber f)) :
    ((expression c).map make).Mirrors X k False
      (Statement.Follows k c.nextId) ((expression c').map make) := by
  refine ((mirrors_expression hX c c' h).mono False.elim).map ?_
  intro high e e' he f hf s
  rw [he f hf, ← hmake, add_renumber]

theorem mirrors_callArguments_map (hX : AtLineEnd X) {c c' : Cursor}
    (h : Extends X k c c') {make : List (Argument Expr) → Statement}
    (hmake : ∀ f args, (make args).renumber f =
      make (renumberArguments f args)) :
    ((callArguments c).map make).Mirrors X k False
      (Statement.Follows k c.nextId) ((callArguments c').map make) := by
  refine ((mirrors_callArguments hX c c' h).mono False.elim).map ?_
  intro high args args' hargs f hf s
  rw [hargs f hf, ← hmake, add_renumber]

theorem mirrors_declared (hX : AtLineEnd X) {c c' : Cursor}
    (h : Extends X k c c') :
    (variableDeclaration.declared c).Mirrors X k False
      (Statement.Follows k c.nextId) (variableDeclaration.declared c') := by
  unfold variableDeclaration.declared
  refine (mirrors_expect hX h (by decide) (by decide) "variable name" _).bind
    (meets_expect c .identifier "variable name") ?_
  intro name rest hrest name' rest' hrest' hname hext hvalue
  rw [← hname.nextId, hvalue.2]
  cases heat : rest.eat? .colonAssign with
  | some behind =>
      obtain ⟨behind', heat', hext'⟩ := hext.eaten heat
      rw [heat', ← (eaten_of_eat? heat).nextId]
      exact (mirrors_expression_map hX hext' fun _ _ => rfl).weaken
  | none =>
      rw [hext.uneaten hX (by decide) (by decide) heat]
      refine (mirrors_expect hX hext (by decide) (by decide) "'='" _).bind
        (meets_expect rest .assign "'='") ?_
      intro sign rest₁ hrest₁ sign' rest₁' hrest₁' hsign hext₁ _
      rw [← hsign.nextId]
      exact (mirrors_expression_map hX hext₁ fun _ _ => rfl).weaken

theorem mirrors_variableDeclaration (hX : AtLineEnd X) {c c' : Cursor}
    (h : Extends X k c c') :
    (variableDeclaration c).Mirrors X k False
      (Statement.Follows k c.nextId) (variableDeclaration c') := by
  have hfirst : firstKind c'.pending = .identifier ↔
      firstKind c.pending = .identifier :=
    iff_of_eq (h.seen hX (· = .identifier) (by simp))
  unfold variableDeclaration
  by_cases htype : firstKind c.pending = .identifier
  · have hext := h.tail (by rw [htype]; decide)
    have hsecond : firstKind c'.pending.tail = .identifier ↔
        firstKind c.pending.tail = .identifier :=
      iff_of_eq (hext.seen hX (· = .identifier) (by simp))
    by_cases hname : firstKind c.pending.tail = .identifier
    · rw [if_pos ⟨htype, hname⟩,
        if_pos ⟨hfirst.mpr htype, hsecond.mpr hname⟩]
      exact (mirrors_declared hX hext).weaken
    · rw [if_neg fun hboth => hname hboth.2,
        if_neg fun hboth => hname (hsecond.mp hboth.2)]
      exact mirrors_declared hX h
  · rw [if_neg fun hboth => htype hboth.1,
      if_neg fun hboth => htype (hfirst.mp hboth.1)]
    exact mirrors_declared hX h

theorem mirrors_statement (hX : AtLineEnd X) {c c' : Cursor}
    (h : Extends X k c c') {token token' : Token}
    {pending pending' : List Token} (hpending : c.pending = token :: pending)
    (hpending' : c'.pending = token' :: pending')
    (hkind : token'.kind = token.kind) (hvalue : token'.value = token.value)
    (hext : Extends X k (c.leaving pending) (c'.leaving pending')) :
    (statement token c pending hpending).Mirrors X k False
      (Statement.Follows k c.nextId)
      (statement token' c' pending' hpending') := by
  have hopen : firstKind pending' = .leftParen ↔
      firstKind pending = .leftParen :=
    iff_of_eq (hext.seen hX (· = .leftParen) (by simp))
  have hassign : firstKind pending' = .assign ∨
        firstKind pending' = .colonAssign ↔
      firstKind pending = .assign ∨ firstKind pending = .colonAssign :=
    iff_of_eq (hext.seen hX
      (fun kind => kind = .assign ∨ kind = .colonAssign) (by simp))
  have hplain : ∀ x x' : Statement, (∀ f s, (Strategy.renumber f s).add x' =
      (s.add x).renumber f) → ∀ hless hless',
        (Outcome.done x (c.leaving pending) hless :
          Outcome Statement c.size).Mirrors X k False
            (Statement.Follows k c.nextId)
            (Outcome.done x' (c'.leaving pending') hless' :
              Outcome Statement c'.size) :=
    fun x x' hx _ _ => ⟨_, _, _, rfl, hext, fun f _ s => hx f s⟩
  have hpass : ∀ hless hless',
      (Outcome.done (.passedOver token) (c.leaving pending) hless :
        Outcome Statement c.size).Mirrors X k False
          (Statement.Follows k c.nextId)
          (Outcome.done (.passedOver token') (c'.leaving pending') hless' :
            Outcome Statement c'.size) :=
    hplain _ _ fun _ _ => rfl
  unfold statement
  dsimp only
  rw [hkind, hvalue]
  cases token.kind with
  | versionPragma =>
      exact hplain _ _ (fun f s => add_renumber f s (.version _)) _ _
  | keyword =>
      dsimp only
      by_cases hdeclaration : token.value = "strategy" ∨
          token.value = "indicator"
      · rw [if_pos hdeclaration, if_pos hdeclaration]
        exact (mirrors_callArguments_map hX hext fun _ _ => rfl).weaken
      rw [if_neg hdeclaration, if_neg hdeclaration]
      by_cases hvar : token.value = "var" ∨ token.value = "varip"
      · rw [if_pos hvar, if_pos hvar]
        exact (mirrors_variableDeclaration hX hext).weaken
      rw [if_neg hvar, if_neg hvar]
      by_cases hif : token.value = "if"
      · rw [if_pos hif, if_pos hif]
        exact (mirrors_expression_map hX hext fun _ _ => rfl).weaken
      rw [if_neg hif, if_neg hif]
      exact hpass _ _
  | builtinFunction =>
      dsimp only
      have hcall : ∀ mark, hasMark mark token.value ∧
            firstKind pending' = .leftParen ↔
          hasMark mark token.value ∧ firstKind pending = .leftParen :=
        fun _ => and_congr_right fun _ => hopen
      by_cases hinput : hasMark inputMark token.value ∧
          firstKind pending = .leftParen
      · rw [if_pos hinput, if_pos ((hcall _).mpr hinput)]
        exact (mirrors_callArguments_map hX hext fun _ _ => rfl).weaken
      rw [if_neg hinput, if_neg fun h => hinput ((hcall _).mp h)]
      by_cases horder : hasMark orderMark token.value ∧
          firstKind pending = .leftParen
      · rw [if_pos horder, if_pos ((hcall _).mpr horder)]
        exact (mirrors_callArguments_map hX hext fun _ _ => rfl).weaken
      rw [if_neg horder, if_neg fun h => horder ((hcall _).mp h)]
      by_cases hindicator : hasMark indicatorMark token.value = true
      · rw [if_pos hindicator, if_pos hindicator]
        exact mirrors_expression_map hX h fun _ _ => rfl
      rw [if_neg hindicator, if_neg hindicator]
      exact hpass _ _
  | identifier =>
      dsimp only
      by_cases hsign : firstKind pending = .assign ∨
          firstKind pending = .colonAssign
      · rw [if_pos hsign, if_pos (hassign.mpr hsign)]
        have hne : firstKind pending ≠ .endOfInput := by
          intro hend
          rw [hend] at hsign
          rcases hsign with hsign | hsign <;> cases hsign
        exact (mirrors_expression_map hX (hext.tail hne)
          fun _ _ => rfl).weaken
      rw [if_neg hsign, if_neg fun h => hsign (hassign.mp h)]
      exact hpass _ _
  | _ => exact hpass _ _

/-! ## All statements -/

/-- What one run of statements adds to a strategy, the other adds with the
identities from `low` to before `high` raised by `k`. -/
def RunsAlike (k low high : Nat) (all all' : List Statement) : Prop :=
  ∀ f : Nat → Nat, (∀ i, low ≤ i → i < high → f i = i + k) →
    ∀ s : Strategy, all'.foldl Strategy.add (s.renumber f) =
      (all.foldl Strategy.add s).renumber f

theorem RunsAlike.cons {low middle high : Nat} {x x' : Statement}
    {all all' : List Statement} (h : x.Follows k low middle x')
    (hrest : RunsAlike k middle high all all') (hlow : low ≤ middle)
    (hhigh : middle ≤ high) : RunsAlike k low high (x :: all) (x' :: all') := by
  intro f hf s
  rw [List.foldl_cons, List.foldl_cons,
    h f (fun i hi hi' => hf i hi (Nat.lt_of_lt_of_le hi' hhigh)) s]
  exact hrest f (fun i hi hi' => hf i (Nat.le_trans hlow hi) hi') (s.add x)

/-- **A script is read the same when it goes on in another line**, and the
reading comes to that line. `high` is the number of the call that is completed
next behind the script. -/
theorem mirrors_statements (c : Cursor) {all : List Statement}
    (hall : statements c = .ok all) :
    ∃ high, c.nextId ≤ high ∧ ∀ (X : List Spelling) (k : Nat) (c' : Cursor),
      AtLineEnd X → Extends X k c c' →
        ∃ all' rest, Passes c' all' rest ∧ c'.Leads rest ∧ rest.ahead = X ∧
          rest.nextId = high + k ∧ RunsAlike k c.nextId high all all' := by
  rcases statements_cases hall with ⟨hnil, rfl⟩ | hread
  · refine ⟨c.nextId, Nat.le_refl _, ?_⟩
    intro X k c' hX h
    refine ⟨[], c', .refl c', .refl c', ?_, h.nextId, fun _ _ _ => rfl⟩
    have hahead := h.ahead
    unfold Cursor.ahead at hahead
    rwa [hnil] at hahead
  · obtain ⟨token, pending, hpending, value, rest, hrest, others, heq,
      hothers, rfl⟩ := hread
    have hstated := stated_statement hpending
    rw [heq] at hstated
    have hcount : c.nextId ≤ rest.nextId := (Stated.numbered hstated).le
    obtain ⟨high, hhigh, hbehind⟩ := mirrors_statements rest hothers
    refine ⟨high, Nat.le_trans hcount hhigh, ?_⟩
    intro X k c' hX h
    obtain ⟨token', pending', hpending', hkind, hvalue, hext⟩ :=
      h.cons hpending
    have hfollows := mirrors_statement hX h hpending hpending' hkind hvalue
      hext
    rw [heq] at hfollows
    obtain ⟨value', rest', _, heq', hext', hfollow⟩ := hfollows
    have hstated' := stated_statement hpending'
    rw [heq'] at hstated'
    obtain ⟨others', last, hpasses, hleads, hahead, hnumber, halike⟩ :=
      hbehind X k rest' hX hext'
    exact ⟨value' :: others', last,
      (Passes.statement hpending' heq').trans hpasses,
      (Stated.leads hstated').trans hleads, hahead, hnumber,
      .cons hfollow halike hcount hhigh⟩
termination_by c.size

end Barscript.Script
